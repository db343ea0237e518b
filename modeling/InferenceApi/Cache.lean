import InferenceApi.HttpAdapter
import InferenceApi.Lib.JsonText

/-!
# Cache keys

`SemanticCache.make_key` of `app/infra/cache.py` and the lock key of
`app/infra/request_collapsing.py`. The text that is hashed determines the request up to
the order of object keys in its config, and with it the body sent upstream.
-/

namespace InferenceApi

open Json

namespace SemanticCache

/-- A config as a JSON value: `None` is `null`. -/
def configJson : Option PyDict → Json
  | none => .null
  | some config => .obj config.fields

/-- The dict `make_key` serialises. -/
def keyPayload (req : InferRequest) : Json :=
  .obj [("model", .str req.model), ("input", .str req.input), ("config", configJson req.config)]

/-- The text `make_key` hashes: `json.dumps(..., sort_keys=True)`. -/
def keyText (R : FloatRepr) (req : InferRequest) : String := dumpsSorted R (keyPayload req)

/-- `make_key`; `sha256` is the hex digest of the encoded text. -/
def makeKey (sha256 : String → String) (R : FloatRepr) (req : InferRequest) : String :=
  "cache:" ++ sha256 (keyText R req)

end SemanticCache

namespace RequestCollapser

/-- `_lock_key`. -/
def lockKey (cacheKey : String) : String := "lock:" ++ cacheKey

end RequestCollapser

open SemanticCache RequestCollapser HttpLLMAdapter

/-- No lock key is a cache key. -/
lemma makeKey_ne_lockKey (sha256 : String → String) (R : FloatRepr) (req : InferRequest)
    (k : String) : makeKey sha256 R req ≠ lockKey k := by
  intro h
  have hlist := congrArg String.toList h
  simp [makeKey, lockKey] at hlist

/-- Configs with the same sorted form pass on the same fields, up to order. -/
lemma perm_configFields {config config' : Option PyDict}
    (h : sortKeys (configJson config) = sortKeys (configJson config')) :
    (sortFields (configFields config)).Perm (sortFields (configFields config')) := by
  cases config with
  | none =>
    cases config' with
    | none => exact .refl _
    | some config' => simp [configJson, sortKeys] at h
  | some config =>
    cases config' with
    | none => simp [configJson, sortKeys] at h
    | some config' =>
      simp only [configFields, sortFields_passedOn]
      exact (perm_of_sortKeys_obj_eq h).filter _

/-- Requests that are hashed as the same text have the same model and input, and configs
that agree up to key order. -/
lemma of_keyText_eq {R : FloatRepr} {req req' : InferRequest} (h : keyText R req = keyText R req') :
    req.model = req'.model ∧ req.input = req'.input ∧
      sortKeys (configJson req.config) = sortKeys (configJson req'.config) := by
  have hperm := perm_of_sortKeys_obj_eq (sortKeys_eq_of_dumpsSorted_eq R h)
  have hmem : ∀ kv, kv ∈ sortFields [("model", .str req.model), ("input", .str req.input),
      ("config", configJson req.config)] →
      kv ∈ sortFields [("model", .str req'.model), ("input", .str req'.input),
        ("config", configJson req'.config)] :=
    fun kv => hperm.mem_iff.mp
  -- the three keys differ, so each field can only be found under its own key
  simpa [sortFields, sortKeys] using hmem

/-- **The hashed text is canonical.** Two requests are hashed as the same text exactly if they
have the same model and input, and configs that agree up to key order. As long as the digest
tells the two texts apart, so do the keys. -/
theorem make_key_canonical (R : FloatRepr) (sha256 : String → String) (req req' : InferRequest)
    (hconfig : Distinct (configJson req.config)) :
    (keyText R req = keyText R req' ↔ req.model = req'.model ∧ req.input = req'.input ∧
      KeyEquiv (configJson req.config) (configJson req'.config)) ∧
    ((sha256 (keyText R req) = sha256 (keyText R req') → keyText R req = keyText R req') →
      (makeKey sha256 R req = makeKey sha256 R req' ↔
        req.model = req'.model ∧ req.input = req'.input ∧
          KeyEquiv (configJson req.config) (configJson req'.config))) := by
  have htext : keyText R req = keyText R req' ↔ req.model = req'.model ∧
      req.input = req'.input ∧ KeyEquiv (configJson req.config) (configJson req'.config) := by
    rw [keyEquiv_iff_sortKeys_eq hconfig]
    constructor
    · exact of_keyText_eq
    · rintro ⟨hmodel, hinput, hsorted⟩
      rw [keyText, keyText, dumpsSorted, dumpsSorted, keyPayload, keyPayload, hmodel, hinput]
      rw [sortKeys, sortKeys]
      simp only [sortFields, hsorted]
  refine ⟨htext, fun hfree => ?_⟩
  rw [← htext]
  constructor
  · intro hkey
    exact hfree (String.append_right_inj _ |>.mp hkey)
  · intro hkeys
    rw [makeKey, makeKey, hkeys]

/-- A config with an object inside. -/
def nestedConfig : PyDict :=
  ⟨[("stop", .null), ("meta", .obj [("a", .bool true), ("b", .str "\"")])], by decide⟩

/-- The same config with the keys of both objects in the other order. -/
def nestedConfigReordered : PyDict :=
  ⟨[("meta", .obj [("b", .str "\""), ("a", .bool true)]), ("stop", .null)], by decide⟩

/-- The digest of the text of both. -/
def nestedDigest : String := "01a519d1efe14a816b15812854ad9600b004a9a8e3915a92de72b22870723a07"

/-- Reordered at two depths, the config gives the same key. -/
theorem make_key_canonical_nestedConfig :
    makeKey (fun _ => nestedDigest) .coded ⟨"m", "hi", some nestedConfig⟩ =
      makeKey (fun _ => nestedDigest) .coded ⟨"m", "hi", some nestedConfigReordered⟩ := by
  have hdistinct : Distinct (configJson (some nestedConfig)) := by
    simp [configJson, nestedConfig, Distinct, DistinctFields]
  have hequiv : KeyEquiv (configJson (some nestedConfig))
      (configJson (some nestedConfigReordered)) :=
    (KeyEquiv.field [("stop", .null)] [] "meta" (.perm (List.Perm.swap ..))).trans
      (.perm (List.Perm.swap ..))
  obtain ⟨htext, hkey⟩ := make_key_canonical .coded (fun _ => nestedDigest)
    ⟨"m", "hi", some nestedConfig⟩ ⟨"m", "hi", some nestedConfigReordered⟩ hdistinct
  exact (hkey fun _ => htext.mpr ⟨rfl, rfl, hequiv⟩).mpr ⟨rfl, rfl, hequiv⟩

/-- **The cache key determines the upstream request.** Requests hashed as the same text
send the same body to the provider, up to key order. -/
theorem keyEquiv_buildPayload_of_keyText_eq {R : FloatRepr} {req req' : InferRequest}
    (stream : Bool) (h : keyText R req = keyText R req') :
    req.model = req'.model ∧
      KeyEquiv (.obj (buildPayload req.model req.input req.config stream))
        (.obj (buildPayload req'.model req'.input req'.config stream)) := by
  obtain ⟨hmodel, hinput, hconfig⟩ := of_keyText_eq h
  refine ⟨hmodel, ?_⟩
  rw [hmodel, hinput]
  exact keyEquiv_buildPayload stream (perm_configFields hconfig)

end InferenceApi
