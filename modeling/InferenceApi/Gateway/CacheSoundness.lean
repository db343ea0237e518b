import InferenceApi.Gateway.Invariants

/-!
# What a cached answer is an answer to

A leader, a follower that gave up waiting and a caller without a lock all store the
completion of their provider call under the key of the request they made it for. So who
finds an entry finds the answer to a request with its own cache key, and, unless the
digest collides, that is a request with the same upstream body.
-/

namespace InferenceApi

open Transition CircuitBreaker TtlStore Json SemanticCache HttpLLMAdapter

variable {svc : InferenceService} {now : ℚ} {call : InferCall} {resp : InferResponse}

/-- The response has the output, the model and the mapped usage of a result for `req`. -/
structure Serves (svc : InferenceService) (req : InferRequest) (result : Json)
    (resp : InferResponse) : Prop where
  output : subscript result "output" = .ok (.str resp.output)
  model : resp.model = req.model
  usage : ∃ usage, mappedUsage result = .ok usage ∧
    parseUsage svc.ints usage.toJson = some resp.usage

/-- A response to a cached completion serves what the completion was made of. -/
lemma serves_of_cached {req : InferRequest} {result : Json} {done : Completion}
    (hdone : Completes svc req result done)
    (h : respondCached svc now call (done.payload req) = .ok resp) :
    Serves svc req result resp := by
  obtain ⟨-, houtput, hmodel, husage, -⟩ := InferResponse.validate_eq_ok h
  exact ⟨houtput ▸ hdone.output, (Json.str.inj hmodel).symm, done.usage, hdone.usage, husage⟩

/-- The completion makes a valid response. -/
def Completion.Presentable (svc : InferenceService) (done : Completion) : Prop :=
  ∃ output usage, done.output = .str output ∧ parseUsage svc.ints done.usage.toJson = some usage

/-- The provider call succeeds: its result can be delivered. -/
def Succeeds (svc : InferenceService) (req : InferRequest) (result : Json) : Prop :=
  ∃ done, Completes svc req result done ∧ done.Presentable svc

namespace Gateway

/-! ## Responses to a completion -/

/-- The response to `req` with this completion. -/
structure Answers (svc : InferenceService) (req : InferRequest) (done : Completion)
    (cacheHit : Bool) (resp : InferResponse) : Prop where
  output : done.output = .str resp.output
  model : resp.model = req.model
  usage : parseUsage svc.ints done.usage.toJson = some resp.usage
  cacheHit : resp.cacheHit = cacheHit

/-- A presentable completion makes a response, to a cached value and to the call's own. -/
lemma exists_buildResponse (req : InferRequest) {done : Completion} (h : done.Presentable svc)
    (ht : call.t0 ≤ now) (cacheHit : Bool) :
    ∃ resp, buildResponse svc now call done.output (.str req.model) done.usage.toJson cacheHit =
      .ok resp ∧ Answers svc req done cacheHit resp := by
  obtain ⟨output, usage, houtput, husage⟩ := h
  have hlatency : 0 ≤ (now - call.t0) * 1000 := by linarith
  refine ⟨⟨call.requestId, output, req.model, usage, (now - call.t0) * 1000, cacheHit⟩, ?_,
    houtput, rfl, husage, rfl⟩
  unfold buildResponse
  rw [houtput, InferResponse.validate.eq_def, husage]
  exact if_pos hlatency

lemma exists_respondCached {req : InferRequest} {done : Completion} (h : done.Presentable svc)
    (ht : call.t0 ≤ now) :
    ∃ resp, respondCached svc now call (done.payload req) = .ok resp ∧
      Answers svc req done true resp := exists_buildResponse req h ht true

variable {s s' : Gateway} {a : Action} {pid : ℕ} {key : String} {value : Json}

/-! ## Where the cached values come from -/

/-- Some call of `infer` is for this request. -/
def Requested (s : Gateway) (req : InferRequest) : Prop :=
  ∃ pid call, s.procs pid = .infer call ∧ call.req = req

/-- The value is the completion of a provider call for a request with this key. -/
structure Produced (svc : InferenceService) (s : Gateway) (key : String) (value : Json)
    (writer : ℕ) (t : ℚ) (req : InferRequest) (result : Json) (done : Completion) : Prop where
  requested : s.Requested req
  key : svc.makeKey req = key
  providerEnd : ⟨writer, t, .providerEnd req (.ok result)⟩ ∈ s.log
  completes : Completes svc req result done
  value : value = done.payload req

/-- The value was produced by a provider call for this key. -/
def Sound (svc : InferenceService) (s : Gateway) (key : String) (value : Json) : Prop :=
  ∃ writer t req result done, Produced svc s key value writer t req result done

/-- What a call holds of cached values is sound for its key. -/
def CallSound (svc : InferenceService) (s : Gateway) (call : InferCall) : Prop :=
  (∀ value, call.status.found = some value → Sound svc s (svc.makeKey call.req) value) ∧
    ∀ hasLock done reply, call.status = .cacheSet hasLock done reply →
      Sound svc s (svc.makeKey call.req) (done.payload call.req)

/-- All cached values, stored or in a caller's hands, are sound for their keys. -/
structure CacheInv (svc : InferenceService) (s : Gateway) : Prop where
  stored : ∀ req cell, s.redis (svc.makeKey req) = some cell →
    Sound svc s (svc.makeKey req) cell.value.value
  calls : ∀ pid call, s.procs pid = .infer call → CallSound svc s call

/-- Requests stay and the log grows. -/
structure Extends (s s' : Gateway) : Prop where
  requested : ∀ req, s.Requested req → s'.Requested req
  log : ∀ entry ∈ s.log, entry ∈ s'.log

lemma Sound.mono (h : Sound svc s key value) (hle : s.Extends s') : Sound svc s' key value := by
  obtain ⟨writer, t, req, result, done, hprod⟩ := h
  exact ⟨writer, t, req, result, done, hle.requested _ hprod.requested, hprod.key,
    hle.log _ hprod.providerEnd, hprod.completes, hprod.value⟩

lemma CallSound.mono (h : CallSound svc s call) (hle : s.Extends s') : CallSound svc s' call :=
  ⟨fun value hvalue => (h.1 value hvalue).mono hle,
    fun hasLock done reply hst => (h.2 hasLock done reply hst).mono hle⟩

/-- A call that acts keeps its request. -/
lemma extends_act {proc : Proc} {redis : Redis} {cb : CircuitBreaker} {es : List Event}
    (h : ∀ call, s.procs pid = .infer call → ∃ call', proc = .infer call' ∧ call'.req = call.req) :
    s.Extends (s.act pid proc redis cb es) where
  requested := by
    rintro req ⟨pid', call, hp, rfl⟩
    -- the request that acts is still the same one
    by_cases hpid : pid' = pid
    · subst hpid
      obtain ⟨call', rfl, hreq⟩ := h call hp
      exact ⟨pid', call', act_procs_self, hreq⟩
    · exact ⟨pid', call, (act_procs_of_ne hpid).trans hp, rfl⟩
  log _ hmem := List.mem_append_right _ hmem

lemma extends_step (h : step svc s a = some s') : s.Extends s' := by
  cases step_move h with
  | tick => exact ⟨fun _ hreq => hreq, fun _ hmem => hmem⟩
  | infer hp => exact extends_act fun _ hp' => by cases hp.symm.trans hp'
  | stream hp => exact extends_act fun _ hp' => by cases hp.symm.trans hp'
  | redis hp =>
    refine extends_act fun _ hp' => ?_
    cases hp.symm.trans hp'
    exact ⟨_, rfl, rfl⟩
  | input hp =>
    refine extends_act fun _ hp' => ?_
    cases hp.symm.trans hp'
    exact ⟨_, rfl, rfl⟩
  | streamInput hp => exact extends_act fun _ hp' => by cases hp.symm.trans hp'

/-- An action keeps the invariant if what it stores and what its request gets are sound. -/
lemma CacheInv.act {proc : Proc} {redis : Redis} {cb : CircuitBreaker} {es : List Event}
    (hs : CacheInv svc s) (hle : s.Extends (s.act pid proc redis cb es))
    (hstored : ∀ req cell, redis (svc.makeKey req) = some cell →
      s.redis (svc.makeKey req) = some cell ∨
        Sound svc s (svc.makeKey req) cell.value.value)
    (hcall : ∀ call, proc = .infer call → CallSound svc (s.act pid proc redis cb es) call) :
    CacheInv svc (s.act pid proc redis cb es) where
  stored req cell hcell := by
    rcases hstored req cell hcell with hold | hnew
    · exact (hs.stored req cell hold).mono hle
    · exact hnew.mono hle
  calls pid' call hp := by
    rcases act_procs_cases hp with ⟨-, hproc⟩ | ⟨-, hp⟩
    · exact hcall call hproc
    · exact (hs.calls pid' call hp).mono hle

section Exec

variable {fate : Fate} {x : Executed}

/-- What a `GET` shows is in the store. -/
lemma sound_get (hs : CacheInv svc s) {req : InferRequest}
    (h : SemanticCache.get svc s.now s.redis req = some value) :
    Sound svc s (svc.makeKey req) value := by
  obtain ⟨stored, hget, rfl⟩ := Option.map_eq_some_iff.mp h
  obtain ⟨cell, hcell, -, rfl⟩ := get_eq_some_iff.mp hget
  exact hs.stored req cell hcell

lemma reply_eq_ok {α : Type} {y z : α} (h : fate.reply y = .ok z) : y = z := by
  cases fate with
  | ok => exact Except.ok.inj h
  | lost _ => cases h
  | failed _ => cases h

/-- A command stores under a cache key only what its caller completed with. -/
lemma stored_exec (hs : CacheInv svc s) (hp : s.procs pid = .infer call)
    (hx : call.exec svc s.now pid fate s.redis = some x) {req : InferRequest}
    {cell : Cell ℚ Stored} (hcell : x.redis (svc.makeKey req) = some cell) :
    s.redis (svc.makeKey req) = some cell ∨ Sound svc s (svc.makeKey req) cell.value.value := by
  have hne : svc.makeKey req ≠ svc.lockKey call.req := svc.makeKey_ne_lockKey _ _
  have hframe : ∀ {after : Redis}, after (svc.makeKey req) = s.redis (svc.makeKey req) →
      fate.effect s.redis after (svc.makeKey req) = some cell →
        s.redis (svc.makeKey req) = some cell := fun hsame hcell =>
    (Fate.effect_frame hsame).symm.trans hcell
  cases exec_case hx with
  | cacheGet => exact Or.inl hcell
  | pollGet => exact Or.inl hcell
  | lockSet => exact Or.inl (hframe (RequestCollapser.tryAcquire_of_ne hne) hcell)
  | lockDel => exact Or.inl (hframe (RequestCollapser.release_of_ne hne) hcell)
  | @cacheSet hasLock done hst =>
    -- a `SETEX` under this key stores the completion of its caller, executed or lost
    by_cases hkey : svc.makeKey req = svc.makeKey call.req
    · rw [hkey] at hcell ⊢
      cases fate with
      | failed _ => exact Or.inl hcell
      | ok =>
        rw [← Option.some.inj (setEx_self.symm.trans hcell)]
        exact Or.inr ((hs.calls pid call hp).2 _ _ _ hst)
      | lost _ =>
        rw [← Option.some.inj (setEx_self.symm.trans hcell)]
        exact Or.inr ((hs.calls pid call hp).2 _ _ _ hst)
    · exact Or.inl (hframe (SemanticCache.set_of_ne hkey) hcell)

/-- What a command answers to its caller is sound. -/
lemma callSound_exec (hs : CacheInv svc s) (hp : s.procs pid = .infer call)
    (hx : call.exec svc s.now pid fate s.redis = some x) :
    CallSound svc s (call.goto s.now x.status) := by
  constructor
  · intro value hvalue
    cases exec_case hx with
    | cacheGet =>
      rcases Status.found_eq_some.mp hvalue with hst | ⟨_, hst⟩
      · exact sound_get hs (reply_eq_ok (Option.some.inj (Status.cacheGet.inj hst)))
      · cases hst
    | pollGet =>
      rcases Status.found_eq_some.mp hvalue with hst | ⟨_, hst⟩
      · cases hst
      · exact sound_get hs (reply_eq_ok (Option.some.inj (Status.pollGet.inj hst).2))
    | lockSet => cases hvalue
    | cacheSet => cases hvalue
    | lockDel => cases hvalue
  · intro hasLock done reply hst'
    cases exec_case hx with
    | cacheSet hst =>
      cases hst'
      exact (hs.calls pid call hp).2 _ _ _ hst
    | _ => cases hst'

end Exec

/-- A turn brings a completion to the cache write, and no other value. -/
lemma callSound_run {cb : CircuitBreaker} {input : Input} {b : Block Status}
    (hb : call.run svc s.now cb input = some b) {redis : Redis} :
    CallSound svc (s.act pid (.infer (call.goto s.now b.status)) redis b.cb b.events)
      (call.goto s.now b.status) := by
  have hcase := run_status hb
  constructor
  · intro value hvalue
    rw [InferCall.goto_status] at hvalue
    rcases Status.found_eq_some.mp hvalue with hst | ⟨_, hst⟩
    · rw [hst] at hcase
      cases hcase
    · rw [hst] at hcase
      cases hcase
  · intro hasLock done reply hst
    rw [InferCall.goto_status] at hst
    rw [hst] at hcase
    cases hcase with
    | @cacheSet _ result _ hprov hin hdone =>
      refine ⟨pid, s.now, call.req, result, done, ⟨pid, _, act_procs_self, rfl⟩, rfl, ?_, hdone,
        rfl⟩
      refine List.mem_append_left _ (mem_stamp.mpr ⟨rfl, rfl, ?_⟩)
      -- the answer is in this very turn's part of the log
      subst hin
      cases run_case hb with
      | provider => exact providerEnd_mem_afterResult

lemma cacheInv_step (hs : CacheInv svc s) (h : step svc s a = some s') : CacheInv svc s' := by
  have hle := extends_step h
  cases step_move h with
  | tick =>
    exact ⟨fun req cell hcell => (hs.stored req cell hcell).mono hle,
      fun pid call hp => (hs.calls pid call hp).mono hle⟩
  | infer =>
    refine hs.act hle (fun _ _ => Or.inl) fun call hcall => ?_
    cases hcall
    exact ⟨fun _ hvalue => (by cases hvalue), fun _ _ _ hst => by cases hst⟩
  | stream => exact hs.act hle (fun _ _ => Or.inl) fun _ hcall => by cases hcall
  | redis hp hx =>
    refine hs.act hle (fun _ _ => stored_exec hs hp hx) fun call hcall => ?_
    cases hcall
    exact (callSound_exec hs hp hx).mono hle
  | input hp hb =>
    refine hs.act hle (fun _ _ => Or.inl) fun call hcall => ?_
    cases hcall
    exact callSound_run hb
  | streamInput => exact hs.act hle (fun _ _ => Or.inl) fun _ hcall => by cases hcall

theorem Reachable.cacheInv (hs : Reachable svc s) : CacheInv svc s :=
  Run.invariant hs ⟨fun _ _ hcell => (by cases hcell), fun _ _ hp => by cases hp⟩
    fun _ _ _ hs _ hstep => cacheInv_step hs hstep

/-! ## Cache hits -/

/-- The digest tells the requests of this run apart as far as their texts differ. -/
def CollisionFree (svc : InferenceService) (s : Gateway) : Prop :=
  ∀ req req', s.Requested req → s.Requested req' →
    svc.sha256 (keyText svc.floatRepr req) = svc.sha256 (keyText svc.floatRepr req') →
    keyText svc.floatRepr req = keyText svc.floatRepr req'

/-- **Cache soundness.** Whenever a response with `cache_hit` is returned, the model is the
one that was asked for, and output, model and usage are those of an earlier provider call
that was made for a request with the same upstream body up to key order. -/
theorem cache_hit_sound (hs : Reachable svc s) (hcoll : CollisionFree svc s)
    (hstep : step svc s a = some s') (hret : Did s s' pid (.returned (.ok resp)))
    (hhit : resp.cacheHit = true) :
    ∃ call, s.procs pid = .infer call ∧ resp.model = call.req.model ∧
      ∃ writer t req result, ⟨writer, t, .providerEnd req (.ok result)⟩ ∈ s.log ∧
        Serves svc req result resp ∧
        KeyEquiv (.obj (buildPayload req.model req.input req.config false))
          (.obj (buildPayload call.req.model call.req.input call.req.config false)) := by
  obtain ⟨call, input, b, hp, hb, hst, -⟩ := turn_of_returned hstep hret
  refine ⟨call, hp, ?_⟩
  have hcase := run_status hb
  rw [hst] at hcase
  cases hcase with
  | completed hresp =>
    -- a response built after the provider call says that it was not cached
    rw [(InferResponse.validate_eq_ok hresp).2.2.2.2.2] at hhit
    cases hhit
  | cached hfound hresp =>
    obtain ⟨writer, t, req, result, done, hprod⟩ := (hs.cacheInv.calls _ _ hp).1 _ hfound
    rw [hprod.value] at hresp
    have hserves := serves_of_cached hprod.completes hresp
    -- the two requests share a digest, so in this run they share their text
    have hdigest := (String.append_right_inj _).mp hprod.key
    obtain ⟨hmodel, hpayload⟩ := keyEquiv_buildPayload_of_keyText_eq false
      (hcoll req call.req hprod.requested ⟨_, _, hp, rfl⟩ hdigest)
    exact ⟨hserves.model.trans hmodel, writer, t, req, result, hprod.providerEnd, hserves,
      hpayload⟩

/-- A leader stores its answer, and a later request finds it. -/
def servedFromCache : List Action :=
  [.infer 0 "a" sampleRequest, .redis 0 .ok, .input 0 .resume, .redis 0 .ok, .input 0 .resume,
    .input 0 (.adapter (.ok sampleResult)), .redis 0 .ok, .input 0 .resume, .redis 0 .ok,
    .input 0 .resume, .tick 1, .infer 1 "b" sampleRequest, .redis 1 .ok]

/-- The action makes no other request than `req`. -/
def Action.OnlyFor (req : InferRequest) : Action → Prop
  | .infer _ _ req' => req' = req
  | _ => True

/-- A call is there before a step or made by it. -/
lemma call_of_step (h : step svc s a = some s') (hp : s'.procs pid = .infer call) :
    (∃ call₀, s.procs pid = .infer call₀ ∧ call₀.req = call.req) ∨
      ∃ requestId, a = .infer pid requestId call.req := by
  cases callOrigin_of_step h hp with
  | kept hp => exact Or.inl ⟨call, hp, rfl⟩
  | started => exact Or.inr ⟨_, rfl⟩
  | executed hp₀ _ => exact Or.inl ⟨_, hp₀, rfl⟩
  | resumed hp₀ _ => exact Or.inl ⟨_, hp₀, rfl⟩

/-- A run whose actions make one request only has no other. -/
lemma eq_of_requested {req req' : InferRequest}
    (hs : Run (step svc) (fun _ a => a.OnlyFor req) init s) (hreq : s.Requested req') :
    req' = req := by
  obtain ⟨pid, call, hp, rfl⟩ := hreq
  induction hs generalizing pid call with
  | refl => cases hp
  | tail _ hok hstep ih =>
    rcases call_of_step hstep hp with ⟨call₀, hp₀, hreq⟩ | ⟨_, rfl⟩
    · exact hreq ▸ ih pid call₀ hp₀
    · exact hok

/-- The response the second request gets. -/
def cachedResponse : InferResponse where
  requestId := "b"
  output := "[stub] same request"
  model := "gpt-4o-mini"
  usage := [("tokens_in", 2), ("tokens_out", 10)]
  latencyMs := 0
  cacheHit := true

/-- The responses returned in a log, newest first. -/
def responses (log : Log) : List (ℕ × InferResponse) :=
  log.filterMap fun entry =>
    match entry.event with
    | .returned (.ok resp) => some (entry.pid, resp)
    | _ => none

lemma did_of_mem_responses (h : step svc s a = some s')
    (hmem : (pid, resp) ∈ responses (added s s')) : Did s s' pid (.returned (.ok resp)) := by
  obtain ⟨⟨pid', t, event⟩, hadded, hentry⟩ := List.mem_filterMap.mp hmem
  dsimp only at hentry
  split at hentry
  · cases hentry
    exact did_of_mem_added h hadded
  · cases hentry

lemma step_servedFromCache :
    step sample (after sample servedFromCache) (.input 1 .resume) =
      some (after sample (servedFromCache ++ [.input 1 .resume])) :=
  step_after (by decide +kernel)

theorem cache_hit_sound_servedFromCache :
    ∃ call, (after sample servedFromCache).procs 1 = .infer call ∧
      cachedResponse.model = call.req.model ∧
      ∃ writer t req result,
        ⟨writer, t, .providerEnd req (.ok result)⟩ ∈ (after sample servedFromCache).log ∧
        Serves sample req result cachedResponse ∧
        KeyEquiv (.obj (buildPayload req.model req.input req.config false))
          (.obj (buildPayload call.req.model call.req.input call.req.config false)) := by
  have honly : ∀ a ∈ servedFromCache, a.OnlyFor sampleRequest := by
    simp [servedFromCache, Action.OnlyFor]
  have hreq : ∀ req, (after sample servedFromCache).Requested req → req = sampleRequest :=
    fun _ => eq_of_requested (run_after sample honly)
  refine cache_hit_sound (reachable_after sample _) (fun req req' h h' _ => ?_) step_servedFromCache
    (did_of_mem_responses step_servedFromCache (by decide +kernel)) rfl
  rw [hreq req h, hreq req' h']

end Gateway
end InferenceApi
