import InferenceApi.Api.Metrics
import InferenceApi.TextProcessing

/-!
# Model wrappers and their registry

`BaseSentimentWrapper` of `app/models/sentiment_wrapper.py`, `WrapperRegistry` of
`sdk/models/registry.py` and `ModelRegistry` of `app/core/model_registry.py`. A pipeline is a
parameter: what it makes of a text, or the exception it raises. Its probabilities are any floats.
-/

/-- `a < b`. A comparison with `nan` is false. -/
def PyFloat.lt : PyFloat → PyFloat → Bool
  | .nan, _ => false
  | _, .nan => false
  | .inf negative, .inf negative' => negative && !negative'
  | .inf negative, _ => negative
  | _, .inf negative => !negative
  | .negZero, .negZero => false
  | .negZero, .rat q => 0 < q
  | .rat p, .negZero => p < 0
  | .rat p, .rat q => p < q

namespace InferenceApi

/-! ## Comparing floats -/

/-- `max(a, b)`. -/
def pyMax (a b : PyFloat) : PyFloat := if a.lt b then b else a

/-- `min(a, b)`. -/
def pyMin (a b : PyFloat) : PyFloat := if b.lt a then b else a

/-- `max(probabilities)`. -/
def maxOf : List PyFloat → Except Exn PyFloat
  | [] => .error (.other "ValueError")
  | x :: xs => .ok (xs.foldl pyMax x)

/-- `max(0.0, min(1.0, confidence))`. -/
def clamp (confidence : PyFloat) : PyFloat := pyMax (.rat 0) (pyMin (.rat 1) confidence)

/-- What is left of a confidence when it is clamped. -/
def clamped : PyFloat → ℚ
  | .nan => 1
  | .inf negative => if negative then 0 else 1
  | .negZero => 0
  | .rat q => max 0 (min 1 q)

/-- Every float is clamped to a number, `nan` to one. -/
lemma clamp_eq (confidence : PyFloat) : clamp confidence = .rat (clamped confidence) := by
  cases confidence with
  | nan => rfl
  | inf negative => cases negative <;> rfl
  | negZero => rfl
  | rat q =>
    have hmin : pyMin (.rat 1) (.rat q) = .rat (min 1 q) := by
      by_cases hlt : q < 1
      · rw [min_eq_right hlt.le]
        exact if_pos (decide_eq_true hlt)
      · rw [min_eq_left (not_lt.mp hlt)]
        exact if_neg (by simpa [PyFloat.lt] using hlt)
    rw [clamp, hmin, clamped]
    by_cases hlt : 0 < min 1 q
    · rw [max_eq_right hlt.le]
      exact if_pos (decide_eq_true hlt)
    · rw [max_eq_left (not_lt.mp hlt)]
      exact if_neg (by simpa [PyFloat.lt] using hlt)

lemma clamped_mem (confidence : PyFloat) : 0 ≤ clamped confidence ∧ clamped confidence ≤ 1 := by
  cases confidence with
  | nan => exact ⟨zero_le_one, le_rfl⟩
  | inf negative => cases negative <;> exact ⟨by norm_num [clamped], by norm_num [clamped]⟩
  | negZero => exact ⟨le_rfl, zero_le_one⟩
  | rat q => exact ⟨le_max_left _ _, max_le zero_le_one (min_le_left _ _)⟩

/-! ## A wrapper -/

/-- A fitted pipeline: `predict_proba([text])[0]` and `str(predict([text])[0])`. -/
structure Pipeline where
  predictProba : String → Except Exn (List PyFloat)
  predict : String → Except Exn String

/-- `_predict_sync`. -/
def Pipeline.predictSync (model : Pipeline) (text : String) : Except Exn (String × PyFloat) := do
  let probabilities ← model.predictProba text
  let label ← model.predict text
  let confidence ← maxOf probabilities
  return (label, confidence)

/-- A wrapper, with its `_model`. -/
structure Wrapper where
  version : String
  model : Option Pipeline := none

/-- `_require_model`. -/
def Wrapper.requireModel (wrapper : Wrapper) : Except Exn Pipeline :=
  match wrapper.model with
  | none => .error (.other "RuntimeError")
  | some model => .ok model

/-- `ClassificationOutput`, with any float as its confidence. -/
structure ClassificationOutput where
  label : String
  confidence : PyFloat

/-- `postprocess`, which is `build_output`. -/
def postprocess (t : CharTables) (label : String) (confidence : PyFloat) :
    ClassificationOutput where
  label := String.ofList (t.stripLower label)
  confidence := clamp confidence

/-- Of a number it is what `build_output` is for numbers. -/
lemma postprocess_rat (t : CharTables) (label : String) (q : ℚ) :
    postprocess t label (.rat q) =
      ⟨(t.buildOutput label q).label, .rat (t.buildOutput label q).confidence⟩ := by
  rw [postprocess, clamp_eq]
  rfl

/-- The constructor call `ClassifyResponse(...)`: `confidence` has `ge=0.0, le=1.0`, and
`latency_ms` has `ge=0.0`. -/
def ClassifyResponse.validate (label : String) (confidence : PyFloat) (modelVersion : String)
    (latencyMs : ℚ) : Except Exn ClassifyResponse :=
  match confidence with
  | .rat q =>
    if 0 ≤ q ∧ q ≤ 1 ∧ 0 ≤ latencyMs then .ok ⟨label, q, modelVersion, latencyMs⟩
    else .error .validationError
  | .negZero =>
    if 0 ≤ latencyMs then .ok ⟨label, 0, modelVersion, latencyMs⟩ else .error .validationError
  | _ => .error .validationError

/-! ## The registry -/

/-- `WrapperRegistry`: a dict by version, in the order of registration. -/
structure WrapperRegistry where
  wrappers : List Wrapper := []
  loadedVersions : List String := []
  nodup : (wrappers.map Wrapper.version).Nodup := by exact List.nodup_nil

namespace WrapperRegistry

variable {registry registry' : WrapperRegistry} {wrapper w : Wrapper} {version : String}

/-- The keys of the dict. -/
def versions (registry : WrapperRegistry) : List String := registry.wrappers.map Wrapper.version

/-- `register`. -/
def register (registry : WrapperRegistry) (wrapper : Wrapper) : Except Exn WrapperRegistry :=
  if h : wrapper.version ∈ registry.versions then .error (.other "ValueError")
  else
    .ok
      { registry with
        wrappers := registry.wrappers ++ [wrapper]
        nodup := by
          rw [List.map_append]
          exact List.nodup_append'.mpr
            ⟨registry.nodup, List.nodup_singleton _, by simpa [versions] using h⟩ }

/-- `get`. -/
def get (registry : WrapperRegistry) (version : String) : Option Wrapper :=
  registry.wrappers.find? fun wrapper => wrapper.version = version

/-- The `_model` of a registered wrapper is set. -/
def setModel (registry : WrapperRegistry) (version : String) (model : Pipeline) :
    WrapperRegistry where
  wrappers := registry.wrappers.map fun wrapper =>
    if wrapper.version = version then { wrapper with model := some model } else wrapper
  loadedVersions := registry.loadedVersions
  nodup := by
    rw [List.map_map]
    have hsame : (Wrapper.version ∘ fun wrapper =>
        if wrapper.version = version then { wrapper with model := some model } else wrapper) =
        Wrapper.version := by
      funext wrapper
      show (if _ then _ else _ : Wrapper).version = _
      split <;> rfl
    rw [hsame]
    exact registry.nodup

lemma versions_setModel {model : Pipeline} :
    (registry.setModel version model).versions = registry.versions := by
  rw [versions, versions, setModel, List.map_map]
  refine List.map_congr_left fun wrapper _ => ?_
  show (if _ then _ else _ : Wrapper).version = _
  split <;> rfl

/-- A version is found if it is registered. -/
lemma get_eq_none_iff : registry.get version = none ↔ version ∉ registry.versions := by
  rw [get, List.find?_eq_none, versions]
  simp

lemma of_get_eq_some (h : registry.get version = some wrapper) :
    wrapper ∈ registry.wrappers ∧ wrapper.version = version :=
  ⟨List.mem_of_find?_eq_some h, by simpa using List.find?_some h⟩

/-- A duplicate is refused; otherwise the wrapper comes last. -/
lemma register_eq_ok_iff : registry.register wrapper = .ok registry' ↔
    wrapper.version ∉ registry.versions ∧
      registry'.wrappers = registry.wrappers ++ [wrapper] ∧
      registry'.loadedVersions = registry.loadedVersions := by
  unfold register
  split
  · next h =>
    constructor
    · intro h'
      cases h'
    · rintro ⟨hnew, -⟩
      exact absurd h hnew
  · next h =>
    constructor
    · intro h'
      cases h'
      exact ⟨h, rfl, rfl⟩
    · rintro ⟨-, hwrappers, hloaded⟩
      obtain ⟨wrappers, loadedVersions, _⟩ := registry'
      obtain rfl : wrappers = _ := hwrappers
      obtain rfl : loadedVersions = _ := hloaded
      rfl

end WrapperRegistry

namespace ModelRegistry

/-- `LOCAL_WRAPPERS`, by their versions. -/
def localWrappers : List String := ["v1", "v2"]

/-- `ModelRegistry.__init__`, for any wrapper classes. -/
def new (versions : List String) : Except Exn WrapperRegistry :=
  versions.foldlM (fun registry version => registry.register ⟨version, none⟩) {}

/-- `ModelRegistry.get`. -/
def get (registry : WrapperRegistry) (version : String) : Except AppExn Wrapper :=
  match registry.get version with
  | none => .error (.modelVersionNotFound version)
  | some wrapper => .ok wrapper

/-- The wrappers of some classes, before they are loaded. -/
def unloaded (versions : List String) : List Wrapper := versions.map fun version => ⟨version, none⟩

lemma wrappers_of_foldlM {versions : List String} {start registry : WrapperRegistry}
    (h : versions.foldlM (fun registry version => registry.register ⟨version, none⟩) start =
      .ok registry) : registry.wrappers = start.wrappers ++ unloaded versions := by
  induction versions generalizing start with
  | nil =>
    cases h
    exact (List.append_nil _).symm
  | cons version versions ih =>
    obtain ⟨next, hnext, hrest⟩ := bind_eq_ok.mp h
    obtain ⟨-, hadded, -⟩ := WrapperRegistry.register_eq_ok_iff.mp hnext
    rw [ih hrest, hadded, List.append_assoc]
    rfl

lemma foldlM_of_nodup {versions : List String} {start : WrapperRegistry}
    (h : (start.versions ++ versions).Nodup) : ∃ registry,
      versions.foldlM (fun registry version => registry.register ⟨version, none⟩) start =
        .ok registry := by
  induction versions generalizing start with
  | nil => exact ⟨start, rfl⟩
  | cons version versions ih =>
    have hnew : version ∉ start.versions := fun hmem =>
      (List.nodup_append'.mp h).2.2 hmem List.mem_cons_self
    obtain ⟨next, hnext⟩ : ∃ next, start.register ⟨version, none⟩ = .ok next := ⟨_, dif_neg hnew⟩
    obtain ⟨-, hadded, -⟩ := WrapperRegistry.register_eq_ok_iff.mp hnext
    have hnodup : (next.versions ++ versions).Nodup := by
      rw [WrapperRegistry.versions, hadded, List.map_append, List.append_assoc]
      exact h
    obtain ⟨registry, hrest⟩ := ih hnodup
    exact ⟨registry, bind_eq_ok.mpr ⟨next, hnext, hrest⟩⟩

/-- Every class is registered, and nothing is loaded. -/
lemma wrappers_of_new {versions : List String} {registry : WrapperRegistry}
    (h : new versions = .ok registry) : registry.wrappers = unloaded versions :=
  wrappers_of_foldlM h

lemma versions_of_new {versions : List String} {registry : WrapperRegistry}
    (h : new versions = .ok registry) : registry.versions = versions := by
  rw [WrapperRegistry.versions, wrappers_of_new h, unloaded, List.map_map]
  exact List.map_id versions

/-- The registry can be made if no two classes have the same version. -/
lemma exists_new_iff {versions : List String} :
    (∃ registry, new versions = .ok registry) ↔ versions.Nodup := by
  constructor
  · rintro ⟨registry, hnew⟩
    rw [← versions_of_new hnew]
    exact registry.nodup
  · intro hnodup
    exact foldlM_of_nodup hnodup

end ModelRegistry
end InferenceApi
