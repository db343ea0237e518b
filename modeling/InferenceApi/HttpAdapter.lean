import InferenceApi.Schemas

/-!
# The upstream request

`HttpLLMAdapter._build_payload` of `app/adapters/http.py`: the JSON body sent to the
provider for a request. Bodies of requests that differ only in the order of object keys
are the same up to key order.
-/

namespace InferenceApi
namespace HttpLLMAdapter

open Json

/-- `_RESERVED_CONFIG_KEYS`. -/
def reservedConfigKeys : List String := ["messages", "model", "stream"]

/-- The literal that `payload` starts from. -/
def basePayload (model input : String) : List (String × Json) :=
  [("model", .str model),
    ("messages", .arr [.obj [("role", .str "user"), ("content", .str input)]])]

/-- The fields of a config that are passed on. -/
def passedOn (fields : List (String × Json)) : List (String × Json) :=
  fields.filter fun kv => kv.1 ∉ reservedConfigKeys

/-- `_build_payload`. An empty config is falsy. -/
def buildPayload (model input : String) (config : Option PyDict) (stream : Bool) :
    List (String × Json) :=
  let payload := basePayload model input
  let payload :=
    match config with
    | none => payload
    | some config =>
      if config.fields = [] then payload else update payload (passedOn config.fields)
  setItem payload "stream" (.bool stream)

/-- The fields a config contributes. -/
def configFields : Option PyDict → List (String × Json)
  | none => []
  | some config => passedOn config.fields

lemma notMem_reserved {fields : List (String × Json)} {k : String}
    (h : k ∈ (passedOn fields).map Prod.fst) : k ∉ reservedConfigKeys := by
  obtain ⟨kv, hkv, rfl⟩ := List.mem_map.mp h
  simpa using (List.mem_filter.mp hkv).2

/-- The payload spelled out: the reserved fields come from the request, the rest from
the config. -/
theorem buildPayload_eq (model input : String) (config : Option PyDict) (stream : Bool) :
    buildPayload model input config stream =
      basePayload model input ++ configFields config ++ [("stream", .bool stream)] := by
  have hbase : "stream" ∉ (basePayload model input).map Prod.fst := by
    simp [basePayload]
  cases config with
  | none => exact setItem_of_notMem _ hbase
  | some config =>
    have hnew : ∀ k ∈ (passedOn config.fields).map Prod.fst,
        k ∉ (basePayload model input).map Prod.fst := by
      intro k hk hmem
      have hres := notMem_reserved hk
      simp only [basePayload, List.map_cons, List.map_nil, List.mem_cons, List.not_mem_nil,
        or_false] at hmem
      rcases hmem with rfl | rfl <;> exact hres (by simp [reservedConfigKeys])
    have hnodup : ((passedOn config.fields).map Prod.fst).Nodup :=
      config.nodup.sublist (List.filter_sublist.map _)
    have hupdate : (if config.fields = [] then basePayload model input
        else update (basePayload model input) (passedOn config.fields))
          = basePayload model input ++ passedOn config.fields := by
      split
      · next hnil => simp [hnil, passedOn]
      · exact update_of_disjoint hnodup hnew
    have hstream : "stream" ∉ (basePayload model input ++ passedOn config.fields).map Prod.fst := by
      rw [List.map_append, List.mem_append, not_or]
      exact ⟨hbase, fun hmem => notMem_reserved hmem (by simp [reservedConfigKeys])⟩
    have hstep : buildPayload model input (some config) stream
        = setItem (basePayload model input ++ passedOn config.fields) "stream" (.bool stream) := by
      rw [← hupdate]
      rfl
    rw [hstep, setItem_of_notMem _ hstream]
    rfl

/-- Dropping the reserved keys commutes with sorting inside the values. -/
lemma sortFields_passedOn (fields : List (String × Json)) :
    sortFields (passedOn fields) = passedOn (sortFields fields) := by
  rw [sortFields_eq_map, sortFields_eq_map, passedOn, passedOn, List.filter_map]
  rfl

lemma sortFields_append (fields fields' : List (String × Json)) :
    sortFields (fields ++ fields') = sortFields fields ++ sortFields fields' := by
  simp only [sortFields_eq_map, List.map_append]

/-- Payloads whose configs agree up to key order agree up to key order. -/
theorem keyEquiv_buildPayload {model input : String} {config config' : Option PyDict}
    (stream : Bool)
    (h : (sortFields (configFields config)).Perm (sortFields (configFields config'))) :
    KeyEquiv (.obj (buildPayload model input config stream))
      (.obj (buildPayload model input config' stream)) := by
  apply keyEquiv_obj_of_perm
  simp only [buildPayload_eq, sortFields_append]
  exact (h.append_left _).append_right _

end HttpLLMAdapter
end InferenceApi
