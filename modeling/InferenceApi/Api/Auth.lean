import InferenceApi.Api.ExceptionHandlers
import InferenceApi.TextProcessing

/-!
# API keys

`Settings.api_keys_set` of `app/core/settings.py` and `require_api_key` of
`app/api/middleware/auth.py`. The configured text is cut at its commas, and what is between them
counts without the white space around it, if anything is left.
-/

namespace InferenceApi

open Words

/-- `Settings.api_keys_set`. -/
def apiKeysSet (apiKeys : String) : Finset String :=
  ((((apiKeys.toList.splitOn ',').map (strip isSpace)).filter (· ≠ [])).map String.ofList).toFinset

/-- `require_api_key`: the client's id, or the exception. -/
def requireApiKey (apiKeys : String) (xApiKey : Option String) : Except AppExn String :=
  match xApiKey with
  | none => .error (.httpException 401 "invalid or missing API key")
  | some key =>
    if key = "" ∨ key ∉ apiKeysSet apiKeys then
      .error (.httpException 401 "invalid or missing API key")
    else .ok key

section ApiKeys

variable {apiKeys key client : String} {xApiKey : Option String}

lemma mem_apiKeysSet : key ∈ apiKeysSet apiKeys ↔ key ≠ "" ∧
    ∃ piece ∈ apiKeys.toList.splitOn ',', strip isSpace piece = key.toList := by
  have hempty : key ≠ "" ↔ key.toList ≠ [] := by simp
  rw [apiKeysSet, List.mem_toFinset, List.mem_map, hempty]
  constructor
  · rintro ⟨chars, hchars, rfl⟩
    obtain ⟨hmem, hne⟩ := List.mem_filter.mp hchars
    rw [String.toList_ofList]
    exact ⟨of_decide_eq_true hne, List.mem_map.mp hmem⟩
  · rintro ⟨hne, piece, hpiece, hstrip⟩
    refine ⟨key.toList, List.mem_filter.mpr ⟨?_, decide_eq_true hne⟩, String.ofList_toList⟩
    exact List.mem_map.mpr ⟨piece, hpiece, hstrip⟩

/-- A request is let through by a key of the set, which is its client's id. -/
lemma requireApiKey_eq_ok : requireApiKey apiKeys xApiKey = .ok client ↔
    xApiKey = some client ∧ client ∈ apiKeysSet apiKeys := by
  unfold requireApiKey
  cases xApiKey with
  | none => simp
  | some key =>
    dsimp only
    split
    · next h =>
      refine iff_of_false (by simp) ?_
      rintro ⟨hkey, hmem⟩
      cases hkey
      rcases h with h | h
      · exact (mem_apiKeysSet.mp hmem).1 h
      · exact h hmem
    · next h =>
      rw [not_or, not_not] at h
      constructor
      · intro hok
        cases hok
        exact ⟨rfl, h.2⟩
      · rintro ⟨hkey, -⟩
        cases hkey
        rfl

end ApiKeys

/-- A configured key with the white space around it. A key may be missing. -/
structure KeyEntry where
  left : List Char
  key : List Char
  right : List Char
  left_blank : ∀ c ∈ left, isSpace c = true
  right_blank : ∀ c ∈ right, isSpace c = true
  stripped : strip isSpace key = key
  no_comma : ',' ∉ key

/-- The entry as it is written. -/
def KeyEntry.text (entry : KeyEntry) : List Char := entry.left ++ (entry.key ++ entry.right)

lemma KeyEntry.comma_notMem_text (entry : KeyEntry) : ',' ∉ entry.text := by
  rw [KeyEntry.text, List.mem_append, List.mem_append, not_or, not_or]
  have hcomma : isSpace ',' = false := by decide
  refine ⟨fun h => ?_, entry.no_comma, fun h => ?_⟩
  · rw [entry.left_blank _ h] at hcomma
    cases hcomma
  · rw [entry.right_blank _ h] at hcomma
    cases hcomma

/-- **The configured keys are the accepted keys.** Whatever text is configured, a client that is
let through has shown what is between two of its commas without the white space around it, and this
is not empty and has no comma and no white space at its ends. And for every list of entries, with
any white space around them and also with nothing between two commas, the keys that are let through
are those of the entries. -/
theorem api_keys_accepted :
    (∀ (apiKeys : String) (xApiKey : Option String) (client : String),
      requireApiKey apiKeys xApiKey = .ok client → xApiKey = some client ∧ client ≠ "" ∧
        (∃ piece ∈ apiKeys.toList.splitOn ',', strip isSpace piece = client.toList) ∧
        ',' ∉ client.toList ∧ strip isSpace client.toList = client.toList) ∧
    ∀ (entries : List KeyEntry) (xApiKey : Option String) (client : String),
      requireApiKey (String.ofList ([','].intercalate (entries.map KeyEntry.text))) xApiKey =
        .ok client ↔
      xApiKey = some client ∧ client ≠ "" ∧ client.toList ∈ entries.map KeyEntry.key := by
  constructor
  · intro apiKeys xApiKey client hok
    obtain ⟨hkey, hmem⟩ := requireApiKey_eq_ok.mp hok
    obtain ⟨hne, piece, hpiece, hstrip⟩ := mem_apiKeysSet.mp hmem
    refine ⟨hkey, hne, ⟨piece, hpiece, hstrip⟩, fun hcomma => ?_, ?_⟩
    · -- a piece has no comma, and stripping adds none
      rw [← hstrip] at hcomma
      have hin : ',' ∈ piece := strip_isInfix.subset hcomma
      have hnot := (of_mem_splitOnP hpiece ',' hin).2
      exact absurd hnot (by decide)
    · rw [← hstrip, strip_strip]
  · intro entries xApiKey client
    rw [requireApiKey_eq_ok, mem_apiKeysSet, String.toList_ofList]
    refine and_congr_right fun _ => and_congr_right fun hne => ?_
    cases entries with
    | nil =>
      refine iff_of_false ?_ (by simp)
      rintro ⟨piece, hpiece, hstrip⟩
      have hnil : piece = [] := by simpa using hpiece
      subst hnil
      exact hne (String.toList_inj.mp hstrip.symm)
    | cons entry entries =>
      have hsplit : ([','].intercalate ((entry :: entries).map KeyEntry.text)).splitOn ',' =
          (entry :: entries).map KeyEntry.text := by
        refine List.splitOn_intercalate ',' (fun text htext => ?_) (by simp)
        obtain ⟨entry', -, rfl⟩ := List.mem_map.mp htext
        exact entry'.comma_notMem_text
      rw [hsplit]
      constructor
      · rintro ⟨text, htext, hstrip⟩
        obtain ⟨entry', hmem, rfl⟩ := List.mem_map.mp htext
        rw [KeyEntry.text, strip_pad entry'.left_blank entry'.right_blank entry'.stripped] at hstrip
        exact List.mem_map.mpr ⟨entry', hmem, hstrip⟩
      · intro hclient
        obtain ⟨entry', hmem, hkey⟩ := List.mem_map.mp hclient
        refine ⟨entry'.text, List.mem_map_of_mem hmem, ?_⟩
        rw [KeyEntry.text, strip_pad entry'.left_blank entry'.right_blank entry'.stripped, hkey]

/-- A key with spaces around it, and an entry that is missing. -/
def paddedKeys : List KeyEntry :=
  [⟨[' '], ['a', 'b'], [' ', '\t'], by simp [isSpace, blanks], by simp [isSpace, blanks], rfl,
      by decide⟩,
    ⟨[], [], [' '], by simp, by simp [isSpace, blanks], rfl, by decide⟩]

theorem api_keys_accepted_padded :
    requireApiKey (String.ofList ([','].intercalate (paddedKeys.map KeyEntry.text))) (some "ab") =
        .ok "ab" ∧
      ',' ∉ "ab".toList := by
  have hok := (api_keys_accepted.2 paddedKeys (some "ab") "ab").mpr ⟨rfl, by decide, by decide⟩
  exact ⟨hok, (api_keys_accepted.1 _ _ _ hok).2.2.2.1⟩

example : apiKeysSet " a , ,b" = {"a", "b"} := by decide +kernel

end InferenceApi
