import InferenceApi.Lib.Transition
import InferenceApi.Models.Registry

/-!
# From start-up to classification

`lifespan` of `app/main.py` awaits the loads of all wrappers, each in a worker thread of its own,
before it serves; from then on `ClassifyService.classify` of `app/services/classify_service.py`
answers, with its prediction in a worker thread too. The loads may end in any order or fail, and
any number of calls may be under way.
-/

namespace InferenceApi

open Transition

/-- A call of `classify`. -/
inductive ClassifyCall
  | idle
  /-- At the `await` of the worker thread, which has the pipeline and the text. -/
  | predicting (t0 : ℚ) (input modelVersion : String) (model : Pipeline) (text : String)
  | finished (input modelVersion : String) (out : Except AppExn ClassifyResponse)

/-- Where `lifespan` is. -/
inductive Phase
  /-- At the `await` of `asyncio.gather`. -/
  | starting
  /-- At its `yield`. -/
  | serving
  /-- It has raised: the application does not serve. -/
  | failed
deriving DecidableEq, Repr

/-- The application, as far as the models are concerned: the registry, the versions whose `load`
has not ended, whether the Redis dependencies were built once that has ended,
`app.state.models_loaded` and the calls. -/
structure Server where
  registry : WrapperRegistry
  pending : List String
  redisBuilt : Option Bool
  phase : Phase
  modelsLoaded : List String
  now : ℚ
  calls : ℕ → ClassifyCall

namespace Server

/-- `lifespan` up to its `await`. -/
def start (versions : List String) : Except Exn Server := do
  let registry ← ModelRegistry.new versions
  return ⟨registry, versions, none, .starting, [], 0, fun _ => .idle⟩

/-- `classify` up to its `await`. -/
def classify (t : CharTables) (s : Server) (input modelVersion : String) : ClassifyCall :=
  match ModelRegistry.get s.registry modelVersion with
  | .error e => .finished input modelVersion (.error e)
  | .ok wrapper =>
    match wrapper.requireModel with
    | .error e => .finished input modelVersion (.error (.service e))
    | .ok model => .predicting s.now input modelVersion model (t.normalizeText input)

/-- `classify` from what the worker thread returned or raised. -/
def respond (t : CharTables) (latencyMs : ℚ) (modelVersion : String)
    (result : Except Exn (String × PyFloat)) : Except AppExn ClassifyResponse :=
  match result with
  | .error e => .error (.service e)
  | .ok (label, confidence) =>
    let output := postprocess t label confidence
    match ClassifyResponse.validate output.label output.confidence modelVersion latencyMs with
    | .error e => .error (.service e)
    | .ok response => .ok response

/-- What may happen next. -/
inductive Action
  /-- Time passes. -/
  | tick (d : ℚ)
  /-- The `load` of a wrapper ends. -/
  | loaded (version : String) (result : Except Exn Pipeline)
  /-- `_build_redis_dependencies` ends. -/
  | redis (result : Except Exn Unit)
  /-- Everything `lifespan` awaits is done. -/
  | serve
  /-- `classify` is called. -/
  | classify (id : ℕ) (input modelVersion : String)
  /-- The worker thread of a call is done. -/
  | predicted (id : ℕ)
  /-- A call is cancelled while it waits. -/
  | cancel (id : ℕ)

/-- `asyncio.gather` raises what the first of its awaitables raises. -/
def Phase.raise : Phase → Phase
  | .starting => .failed
  | phase => phase

/-- One step. -/
def step (t : CharTables) (s : Server) : Action → Option Server
  | .tick d => if 0 ≤ d then some { s with now := s.now + d } else none
  | .loaded version result =>
    if version ∈ s.pending then
      match result with
      | .ok model =>
        some { s with
          registry := s.registry.setModel version model
          pending := s.pending.erase version }
      -- the other loads go on
      | .error _ =>
        some { s with
          pending := s.pending.erase version
          phase := Phase.raise s.phase }
    else none
  | .redis result =>
    match s.redisBuilt, result with
    | none, .ok () => some { s with redisBuilt := some true }
    | none, .error _ => some { s with redisBuilt := some false, phase := Phase.raise s.phase }
    | some _, _ => none
  | .serve =>
    if s.phase = .starting ∧ s.pending = [] ∧ s.redisBuilt = some true then
      some { s with
        registry := { s.registry with loadedVersions := s.registry.versions }
        modelsLoaded := s.registry.versions
        phase := .serving }
    else none
  | .classify id input modelVersion =>
    match s.phase, s.calls id with
    | .serving, .idle =>
      some { s with calls := Function.update s.calls id (classify t s input modelVersion) }
    | _, _ => none
  | .predicted id =>
    match s.calls id with
    | .predicting t0 input modelVersion model text =>
      some { s with
        calls := Function.update s.calls id (.finished input modelVersion
          (respond t ((s.now - t0) * 1000) modelVersion (model.predictSync text))) }
    | _ => none
  | .cancel id =>
    match s.calls id with
    | .predicting _ input modelVersion _ _ =>
      some { s with
        calls := Function.update s.calls id
          (.finished input modelVersion (.error (.service .cancelledError))) }
    | _ => none

/-! ## How a call ends -/

/-- The ends of a call, in terms of the pipelines that are loaded. -/
inductive Outcome (t : CharTables) (registry : WrapperRegistry) (input modelVersion : String) :
    Except AppExn ClassifyResponse → Prop
  | served {model : Pipeline} {label : String} {confidence : PyFloat} {latencyMs : ℚ} :
      registry.get modelVersion = some ⟨modelVersion, some model⟩ →
      model.predictSync (t.normalizeText input) = .ok (label, confidence) → 0 ≤ latencyMs →
      Outcome t registry input modelVersion
        (.ok ⟨String.ofList (t.stripLower label), clamped confidence, modelVersion, latencyMs⟩)
  | raised {model : Pipeline} {e : Exn} :
      registry.get modelVersion = some ⟨modelVersion, some model⟩ →
      model.predictSync (t.normalizeText input) = .error e →
      Outcome t registry input modelVersion (.error (.service e))
  | cancelled {model : Pipeline} :
      registry.get modelVersion = some ⟨modelVersion, some model⟩ →
      Outcome t registry input modelVersion (.error (.service .cancelledError))
  | unknown : modelVersion ∉ registry.versions →
      Outcome t registry input modelVersion (.error (.modelVersionNotFound modelVersion))

/-- What is known of a call. -/
def CallInv (t : CharTables) (registry : WrapperRegistry) (now : ℚ) : ClassifyCall → Prop
  | .idle => True
  | .predicting t0 input modelVersion model text => t0 ≤ now ∧ text = t.normalizeText input ∧
    registry.get modelVersion = some ⟨modelVersion, some model⟩
  | .finished input modelVersion out => Outcome t registry input modelVersion out

/-- What holds of the server: while it starts, what is not loaded is still being loaded; when it
serves, everything is loaded, and advertised; and before that there are no calls. -/
structure Inv (t : CharTables) (versions : List String) (s : Server) : Prop where
  registered : s.registry.versions = versions
  starting : s.phase = .starting →
    ∀ w ∈ s.registry.wrappers, w.model = none → w.version ∈ s.pending
  serving : s.phase = .serving → s.pending = [] ∧ s.modelsLoaded = versions ∧
    ∀ w ∈ s.registry.wrappers, w.model ≠ none
  idle : s.phase ≠ .serving → ∀ id, s.calls id = .idle
  calls : ∀ id, CallInv t s.registry s.now (s.calls id)

variable {t : CharTables} {versions : List String} {s s' : Server} {a : Action}

lemma CallInv.mono {registry : WrapperRegistry} {now now' : ℚ} {call : ClassifyCall}
    (h : CallInv t registry now call) (hle : now ≤ now') : CallInv t registry now' call := by
  cases call with
  | predicting => exact ⟨h.1.trans hle, h.2⟩
  | _ => exact h

lemma callInv_of_idle {registry : WrapperRegistry} {now : ℚ} {call : ClassifyCall}
    (h : call = .idle) : CallInv t registry now call := by
  rw [h]
  trivial

/-- A response validates. -/
lemma respond_ok {latencyMs : ℚ} {modelVersion label : String} {confidence : PyFloat}
    (h : 0 ≤ latencyMs) : respond t latencyMs modelVersion (.ok (label, confidence)) =
      .ok ⟨String.ofList (t.stripLower label), clamped confidence, modelVersion, latencyMs⟩ := by
  obtain ⟨hlow, hhigh⟩ := clamped_mem confidence
  have hvalid : ClassifyResponse.validate (String.ofList (t.stripLower label)) (clamp confidence)
      modelVersion latencyMs =
        .ok ⟨String.ofList (t.stripLower label), clamped confidence, modelVersion, latencyMs⟩ := by
    rw [clamp_eq]
    exact if_pos ⟨hlow, hhigh, h⟩
  unfold respond postprocess
  dsimp only
  rw [hvalid]

/-! ## One step -/

/-- When the application serves, a version that is registered has its pipeline. -/
lemma Inv.get_of_mem (h : Inv t versions s) (hserving : s.phase = .serving) {modelVersion : String}
    (hmem : modelVersion ∈ versions) :
    ∃ model, s.registry.get modelVersion = some ⟨modelVersion, some model⟩ := by
  cases hget : s.registry.get modelVersion with
  | none =>
    rw [WrapperRegistry.get_eq_none_iff, h.registered] at hget
    exact absurd hmem hget
  | some wrapper =>
    obtain ⟨hwrapper, rfl⟩ := WrapperRegistry.of_get_eq_some hget
    obtain ⟨version, model⟩ := wrapper
    cases model with
    | none => exact absurd rfl ((h.serving hserving).2.2 _ hwrapper)
    | some model => exact ⟨model, rfl⟩

/-- A call that is made then finds what it needs, or its version is not there. -/
lemma Inv.classify (h : Inv t versions s) (hserving : s.phase = .serving)
    (input modelVersion : String) :
    CallInv t s.registry s.now (classify t s input modelVersion) := by
  unfold Server.classify ModelRegistry.get
  by_cases hmem : modelVersion ∈ versions
  · obtain ⟨model, hget⟩ := h.get_of_mem hserving hmem
    rw [hget]
    exact ⟨le_rfl, rfl, hget⟩
  · rw [← h.registered] at hmem
    rw [WrapperRegistry.get_eq_none_iff.mpr hmem]
    exact .unknown hmem

lemma Inv.update (h : Inv t versions s) (hserving : s.phase = .serving) {id : ℕ}
    {call : ClassifyCall} (hcall : CallInv t s.registry s.now call) :
    Inv t versions { s with calls := Function.update s.calls id call } where
  registered := h.registered
  starting := h.starting
  serving := h.serving
  idle hne := absurd hserving hne
  calls id' := by
    show CallInv t s.registry s.now (Function.update s.calls id call id')
    by_cases hid : id' = id
    · subst hid
      rw [Function.update_self]
      exact hcall
    · rw [Function.update_of_ne hid]
      exact h.calls id'

/-- Nobody waits for a prediction before the application serves. -/
lemma Inv.serving_of_call (h : Inv t versions s) {id : ℕ} (hcall : s.calls id ≠ .idle) :
    s.phase = .serving := by
  by_contra hne
  exact hcall (h.idle hne id)

/-- No load is left when the application serves. -/
lemma Inv.not_serving (h : Inv t versions s) {version : String} (hmem : version ∈ s.pending) :
    s.phase ≠ .serving := by
  intro hserving
  rw [(h.serving hserving).1] at hmem
  cases hmem

lemma Inv.loaded (h : Inv t versions s) {version : String} (hmem : version ∈ s.pending)
    (model : Pipeline) :
    Inv t versions { s with
      registry := s.registry.setModel version model
      pending := s.pending.erase version } where
  registered := WrapperRegistry.versions_setModel.trans h.registered
  starting hstarting w hw hnone := by
    obtain ⟨old, hold, hset⟩ := List.mem_map.mp hw
    by_cases hversion : old.version = version
    · rw [if_pos hversion] at hset
      rw [← hset] at hnone
      cases hnone
    · rw [if_neg hversion] at hset
      subst hset
      exact (List.mem_erase_of_ne hversion).mpr (h.starting hstarting old hold hnone)
  serving hserving := absurd hserving (h.not_serving hmem)
  idle := h.idle
  calls id := callInv_of_idle (h.idle (h.not_serving hmem) id)

/-- A load or the Redis part has raised. -/
lemma Inv.raised (h : Inv t versions s) {pending : List String} {redisBuilt : Option Bool}
    (hpending : s.phase = .serving → pending = s.pending) :
    Inv t versions { s with pending, redisBuilt, phase := Phase.raise s.phase } := by
  have hphase : Phase.raise s.phase ≠ .starting ∧
      (Phase.raise s.phase = .serving ↔ s.phase = .serving) := by
    cases s.phase <;> simp [Phase.raise]
  refine ⟨h.registered, fun hstarting => absurd hstarting hphase.1, fun hserving => ?_,
    fun hne => h.idle (mt hphase.2.mpr hne), h.calls⟩
  have hserves := hphase.2.mp hserving
  obtain ⟨hnil, hrest⟩ := h.serving hserves
  exact ⟨(hpending hserves).trans hnil, hrest⟩

lemma inv_step (h : Inv t versions s) (hs : step t s a = some s') : Inv t versions s' := by
  cases a with
  | tick d =>
    rw [step] at hs
    split at hs
    · next hd =>
      cases hs
      refine { h with calls := fun id => (h.calls id).mono ?_ }
      exact le_add_of_nonneg_right hd
    · cases hs
  | loaded version result =>
    unfold step at hs
    dsimp only at hs
    split at hs
    · next hmem =>
      split at hs
      · cases hs
        exact h.loaded hmem _
      · cases hs
        exact h.raised fun hserving => absurd hserving (h.not_serving hmem)
    · cases hs
  | redis result =>
    unfold step at hs
    dsimp only at hs
    split at hs
    · cases hs
      exact ⟨h.registered, h.starting, h.serving, h.idle, h.calls⟩
    · cases hs
      exact h.raised fun _ => rfl
    · cases hs
  | serve =>
    rw [step] at hs
    split at hs
    · next hready =>
      obtain ⟨hstarting, hpending, -⟩ := hready
      cases hs
      have hloaded : ∀ w ∈ s.registry.wrappers, w.model ≠ none := by
        intro w hw hnone
        have hmem := h.starting hstarting w hw hnone
        rw [hpending] at hmem
        cases hmem
      have hidle : s.phase ≠ .serving := by
        rw [hstarting]
        exact Phase.noConfusion
      exact ⟨h.registered, Phase.noConfusion, fun _ => ⟨hpending, h.registered, hloaded⟩,
        fun hne => absurd rfl hne, fun id => callInv_of_idle (h.idle hidle id)⟩
    · cases hs
  | classify id input modelVersion =>
    rw [step] at hs
    split at hs
    · next hserving hidle =>
      cases hs
      exact h.update hserving (h.classify hserving input modelVersion)
    · cases hs
  | predicted id =>
    rw [step] at hs
    split at hs
    · next t0 input modelVersion model text hcall =>
      cases hs
      have hserving := h.serving_of_call (by rw [hcall]; exact ClassifyCall.noConfusion)
      have hinv := h.calls id
      rw [hcall] at hinv
      obtain ⟨hle, rfl, hget⟩ := hinv
      refine h.update hserving ?_
      have hlatency : 0 ≤ (s.now - t0) * 1000 := by linarith
      cases hresult : model.predictSync (t.normalizeText input) with
      | error e => exact .raised hget hresult
      | ok output =>
        obtain ⟨label, confidence⟩ := output
        rw [respond_ok hlatency]
        exact .served hget hresult hlatency
    · cases hs
  | cancel id =>
    rw [step] at hs
    split at hs
    · next t0 input modelVersion model text hcall =>
      cases hs
      have hserving := h.serving_of_call (by rw [hcall]; exact ClassifyCall.noConfusion)
      have hinv := h.calls id
      rw [hcall] at hinv
      exact h.update hserving (.cancelled hinv.2.2)
    · cases hs

/-- Start-up makes a server in which nothing is loaded and everything is being loaded. -/
lemma inv_start (h : start versions = .ok s) : Inv t versions s := by
  unfold start at h
  obtain ⟨registry, hnew, hs⟩ := bind_eq_ok.mp h
  cases hs
  refine ⟨ModelRegistry.versions_of_new hnew, fun _ w hw _ => ?_, Phase.noConfusion, fun _ _ => rfl,
    fun _ => trivial⟩
  rw [← ModelRegistry.versions_of_new hnew]
  exact List.mem_map_of_mem hw

lemma inv_of_run {s₀ : Server} (hstart : start versions = .ok s₀)
    (hrun : Run (step t) anyAction s₀ s) : Inv t versions s :=
  hrun.invariant (inv_start hstart) fun _ _ _ hinv _ hstep => inv_step hinv hstep

/-- **What is advertised is served.** The application can be made if the versions are different.
In every run from there, with loads ending in any order or failing and any number of calls: once
it serves, `models_loaded` is the list of all versions; and a call for a version that is not in it
ends with `ModelVersionNotFound`, while one for a version in it is cancelled, or raises what its
pipeline raises, or is answered with the pipeline's label and with its confidence, which
whatever float it was is now a number from zero to one, in a response that validates. No call ever
finds its wrapper not loaded. -/
theorem classification_served (t : CharTables) (versions : List String) :
    ((∃ s₀, start versions = .ok s₀) ↔ versions.Nodup) ∧
    ∀ s₀ s, start versions = .ok s₀ → Run (step t) anyAction s₀ s →
      (s.phase = .serving → s.modelsLoaded = versions) ∧
      ∀ id input modelVersion out, s.calls id = .finished input modelVersion out →
        (modelVersion ∉ s.modelsLoaded → out = .error (.modelVersionNotFound modelVersion)) ∧
        (modelVersion ∈ s.modelsLoaded → ∃ model,
          s.registry.get modelVersion = some ⟨modelVersion, some model⟩ ∧
          match model.predictSync (t.normalizeText input) with
          | .error e => out = .error (.service e) ∨ out = .error (.service .cancelledError)
          | .ok (label, confidence) => out = .error (.service .cancelledError) ∨
            ∃ response, out = .ok response ∧ response.label = String.ofList (t.stripLower label) ∧
              response.confidence = clamped confidence ∧ 0 ≤ response.confidence ∧
              response.confidence ≤ 1 ∧ response.modelVersion = modelVersion ∧
              0 ≤ response.latencyMs) := by
  constructor
  · rw [← ModelRegistry.exists_new_iff]
    constructor
    · rintro ⟨s₀, hstart⟩
      obtain ⟨registry, hnew, -⟩ := bind_eq_ok.mp hstart
      exact ⟨registry, hnew⟩
    · rintro ⟨registry, hnew⟩
      exact ⟨_, bind_eq_ok.mpr ⟨registry, hnew, rfl⟩⟩
  · intro s₀ s hstart hrun
    have hinv := inv_of_run hstart hrun
    refine ⟨fun hserving => (hinv.serving hserving).2.1, fun id input modelVersion out hcall => ?_⟩
    have hne : s.calls id ≠ .idle := by
      rw [hcall]
      exact ClassifyCall.noConfusion
    obtain ⟨-, hloaded, -⟩ := hinv.serving (hinv.serving_of_call hne)
    have houtcome := hinv.calls id
    rw [hcall] at houtcome
    rw [hloaded, ← hinv.registered]
    constructor
    · intro hunknown
      rw [← WrapperRegistry.get_eq_none_iff] at hunknown
      cases houtcome with
      | served hget => cases hunknown.symm.trans hget
      | raised hget => cases hunknown.symm.trans hget
      | cancelled hget => cases hunknown.symm.trans hget
      | unknown => rfl
    · intro hknown
      cases houtcome with
      | @served model label confidence latencyMs hget hresult hlatency =>
        refine ⟨model, hget, ?_⟩
        rw [hresult]
        obtain ⟨hlow, hhigh⟩ := clamped_mem confidence
        exact Or.inr ⟨_, rfl, rfl, rfl, hlow, hhigh, rfl, hlatency⟩
      | @raised model e hget hresult =>
        refine ⟨model, hget, ?_⟩
        rw [hresult]
        exact Or.inl rfl
      | @cancelled model hget =>
        refine ⟨model, hget, ?_⟩
        split
        · exact Or.inr rfl
        · exact Or.inl rfl
      | unknown hunknown => exact absurd hknown hunknown

/-- A pipeline whose first probability is not a number. -/
def nanPipeline : Pipeline := ⟨fun _ => .ok [.nan, .rat (1 / 2)], fun _ => .ok " POSITIVE "⟩

/-- The shipped versions are loaded, the second one first, and a text is classified. -/
def secondFirst : List Action :=
  [.loaded "v2" (.ok nanPipeline), .redis (.ok ()), .loaded "v1" (.ok nanPipeline), .serve,
    .classify 0 "Good!" "v2", .predicted 0]

/-- The label and the confidence a call was answered with. -/
def answered (s : Server) (id : ℕ) : Option (String × ℚ) :=
  match s.calls id with
  | .finished _ _ (.ok response) => some (response.label, response.confidence)
  | _ => none

theorem classification_served_secondFirst :
    ∃ s₀ s : Server, start ModelRegistry.localWrappers = .ok s₀ ∧
      Run (step .ascii) anyAction s₀ s ∧ answered s 0 = some ("positive", 1) ∧
      s.modelsLoaded = ["v1", "v2"] := by
  obtain ⟨s₀, hstart⟩ :=
    (classification_served .ascii ModelRegistry.localWrappers).1.mpr (by decide)
  have hexec : ((start ModelRegistry.localWrappers).toOption.bind fun s₀ =>
      execute (step .ascii) (fun _ _ => true) s₀ secondFirst).any
        (fun s => s.phase = .serving ∧ answered s 0 = some ("positive", 1)) = true := by
    decide +kernel
  rw [hstart] at hexec
  obtain ⟨s, hrun, hq⟩ := exists_run_of_execute (P := fun _ => True) (fun _ _ => trivial) hexec
  obtain ⟨hserving, hanswered⟩ := of_decide_eq_true hq
  exact ⟨s₀, s, hstart, hrun.any, hanswered,
    ((classification_served .ascii ModelRegistry.localWrappers).2 s₀ s hstart hrun.any).1 hserving⟩

end Server
end InferenceApi
