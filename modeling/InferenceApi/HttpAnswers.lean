import InferenceApi.Python
import InferenceApi.Schemas

/-!
# The upstream answer

What `HttpLLMAdapter` of `app/adapters/http.py` makes of a response. `infer` gets the decoded
body: the content of the message is passed on as it is, whatever its type, and the three
numbers of the usage are integers. `stream` gets lines, until one of them is the terminator
or there are no more.
-/

namespace InferenceApi

open Json

/-- `value[0]` on a decoded value. -/
def subscriptZero (value : Json) : Except Exn Json :=
  match value with
  | .arr (v :: _) => .ok v
  | .arr [] => .error (.other "IndexError")
  | .str s =>
    match s.toList with
    | c :: _ => .ok (.str (String.singleton c))
    | [] => .error (.other "IndexError")
  | .obj _ => .error (.keyError "0")
  | _ => .error .typeError

/-- `bool(value)`. -/
def truthy : Json → Bool
  | .null => false
  | .bool b => b
  | .num (.int z) => z ≠ 0
  | .num (.float (.rat q)) => q ≠ 0
  | .num (.float .negZero) => false
  | .num (.float _) => true
  | .str s => s ≠ ""
  | .arr xs => !xs.isEmpty
  | .obj fields => !fields.isEmpty

/-- `int(value)`. -/
def intOf : Json → Except Exn ℤ
  | .bool b => .ok (if b then 1 else 0)
  | .num (.int z) => .ok z
  | .num (.float (.rat q)) => .ok (pyInt q)
  | .num (.float .negZero) => .ok 0
  | .num (.float .nan) => .error (.other "ValueError")
  | .num (.float (.inf _)) => .error (.other "OverflowError")
  | .str s =>
    match intOfString s with
    | some z => .ok z
    | none => .error (.other "ValueError")
  | _ => .error .typeError

namespace HttpLLMAdapter

/-- `body["choices"][0]["message"]["content"]`. -/
def messageContent (body : Json) : Except Exn Json := do
  let choices ← subscript body "choices"
  let choice ← subscriptZero choices
  let message ← subscript choice "message"
  subscript message "content"

/-- `_extract_usage`. -/
def extractUsage (body : Json) : Except Exn Json := do
  let given ← dictGet body "usage" .null
  -- `body.get("usage") or {}`
  let usage := if truthy given then given else .obj []
  let promptTokens ← intOf (← dictGet usage "prompt_tokens" (.num (.int 0)))
  let completionTokens ← intOf (← dictGet usage "completion_tokens" (.num (.int 0)))
  let totalTokens ←
    intOf (← dictGet usage "total_tokens" (.num (.int (promptTokens + completionTokens))))
  return .obj
    [("prompt_tokens", .num (.int promptTokens)),
      ("completion_tokens", .num (.int completionTokens)),
      ("total_tokens", .num (.int totalTokens))]

/-- `infer`, from the decoded body on. -/
def infer (body : Json) : Except Exn Json := do
  let output ← messageContent body
  let usage ← extractUsage body
  return .obj [("output", output), ("usage", usage)]

/-- The usage is three integers, of which this is where they come from. -/
lemma extractUsage_spec {body counts : Json} (h : extractUsage body = .ok counts) :
    ∃ (fields usage : List (String × Json)) (prompt completion total : ℤ), body = .obj fields ∧
      (if truthy ((lookup fields "usage").getD .null) then
        (lookup fields "usage").getD .null else .obj []) = .obj usage ∧
      intOf ((lookup usage "prompt_tokens").getD (.num (.int 0))) = .ok prompt ∧
      intOf ((lookup usage "completion_tokens").getD (.num (.int 0))) = .ok completion ∧
      intOf ((lookup usage "total_tokens").getD (.num (.int (prompt + completion)))) =
        .ok total ∧
      counts = .obj
        [("prompt_tokens", .num (.int prompt)), ("completion_tokens", .num (.int completion)),
          ("total_tokens", .num (.int total))] := by
  obtain ⟨given, hgiven, hprompt⟩ := bind_eq_ok.mp h
  obtain ⟨promptValue, hpromptValue, hprompt'⟩ := bind_eq_ok.mp hprompt
  obtain ⟨prompt, hpromptOf, hcompletion⟩ := bind_eq_ok.mp hprompt'
  obtain ⟨completionValue, hcompletionValue, hcompletion'⟩ := bind_eq_ok.mp hcompletion
  obtain ⟨completion, hcompletionOf, htotal⟩ := bind_eq_ok.mp hcompletion'
  obtain ⟨totalValue, htotalValue, htotal'⟩ := bind_eq_ok.mp htotal
  obtain ⟨total, htotalOf, hcounts⟩ := bind_eq_ok.mp htotal'
  obtain ⟨fields, rfl, rfl⟩ := dictGet_eq_ok.mp hgiven
  obtain ⟨usage, husage, rfl⟩ := dictGet_eq_ok.mp hpromptValue
  rw [husage] at hcompletionValue htotalValue
  cases hcompletionValue
  cases htotalValue
  cases hcounts
  exact ⟨fields, usage, prompt, completion, total, rfl, husage, hpromptOf, hcompletionOf, htotalOf,
    rfl⟩

/-- A result has the content that was received, and three integers. -/
theorem infer_eq_ok {body result : Json} (h : infer body = .ok result) :
    ∃ (output : Json) (prompt completion total : ℤ), messageContent body = .ok output ∧
      result = .obj [("output", output), ("usage", .obj
        [("prompt_tokens", .num (.int prompt)), ("completion_tokens", .num (.int completion)),
          ("total_tokens", .num (.int total))])] := by
  obtain ⟨output, houtput, h⟩ := bind_eq_ok.mp h
  obtain ⟨usage, husage, h⟩ := bind_eq_ok.mp h
  obtain ⟨_, _, prompt, completion, total, -, -, -, -, -, rfl⟩ := extractUsage_spec husage
  cases h
  exact ⟨output, prompt, completion, total, houtput, rfl⟩

/-! ## `stream` -/

/-- The exceptions that `httpx` raises while lines are read, and any other. -/
inductive HttpxError
  | timeoutException
  | httpStatusError (statusCode : ℕ)
  | httpError
  | other (e : Exn)

/-- The `except` clauses. -/
def HttpxError.mapped : HttpxError → Exn
  | .timeoutException => .timeoutError
  | .httpStatusError statusCode => .upstreamProviderError (some statusCode)
  | .httpError => .upstreamProviderError none
  | .other e => e

/-- What is left of an upstream response: the lines to come, and whether `aiter_lines` ends
after them or raises. -/
structure Upstream where
  lines : List String
  ending : Except HttpxError Unit

/-- What the loop does with a line. -/
inductive LineCase
  | skip
  | terminator
  | chunk (chunk : String)
  | raises (e : Exn)

section Lines

variable (loads : String → Except Exn Json) (str : Json → String)

/-- `body["choices"][0]["delta"].get("content")` of a `data` line. -/
def deltaContent (data : String) : Except Exn Json := do
  let body ← loads data
  let choices ← subscript body "choices"
  let choice ← subscriptZero choices
  let delta ← subscript choice "delta"
  dictGet delta "content" .null

/-- The body of the loop. -/
def readLine (line : String) : LineCase :=
  if "data: ".toList.isPrefixOf line.toList then
    let data := String.ofList (line.toList.drop 6)
    if data = "[DONE]" then .terminator
    else
      match deltaContent loads data with
      | .error e => .raises e
      | .ok content => if truthy content then .chunk (str content) else .skip
  else .skip

/-- The generator runs to its next `yield`, to its end (`none`), or raises. -/
def next (ending : Except HttpxError Unit) : List String → Except Exn (Option String) × Upstream
  -- `async for` is over: nothing tells this end from the terminator's
  | [] =>
    match ending with
    | .ok () => (.ok none, ⟨[], ending⟩)
    | .error e => (.error e.mapped, ⟨[], ending⟩)
  | line :: lines =>
    match readLine loads str line with
    | .skip => next ending lines
    | .terminator => (.ok none, ⟨lines, ending⟩)
    | .chunk chunk => (.ok (some chunk), ⟨lines, ending⟩)
    | .raises e => (.error e, ⟨lines, ending⟩)

/-- How the generator ends after all its chunks. -/
def outcome (ending : Except HttpxError Unit) : List String → Except Exn Unit
  | [] => ending.mapError HttpxError.mapped
  | line :: lines =>
    match readLine loads str line with
    | .terminator => .ok ()
    | .raises e => .error e
    | _ => outcome ending lines

end Lines

/-- The line that ends a stream. -/
def terminatorLine : String := "data: [DONE]"

section Outcome

variable {loads : String → Except Exn Json} {str : Json → String}
  {ending : Except HttpxError Unit} {lines : List String}

/-- A line with the prefix is read without it. -/
lemma readLine_data (data : String) : readLine loads str ("data: " ++ data) =
    if data = "[DONE]" then .terminator
    else
      match deltaContent loads data with
      | .error e => .raises e
      | .ok content => if truthy content then .chunk (str content) else .skip := by
  have hprefix : "data: ".toList.isPrefixOf ("data: " ++ data).toList = true := by
    rw [List.isPrefixOf_iff_prefix, String.toList_append]
    exact List.prefix_append _ _
  have hdata : String.ofList (("data: " ++ data).toList.drop 6) = data := by
    rw [String.toList_append]
    exact String.ofList_toList
  rw [readLine, if_pos hprefix, hdata]

/-- Any other line is skipped. -/
lemma readLine_other {line : String} (h : ∀ data, line ≠ "data: " ++ data) :
    readLine loads str line = .skip := by
  have hprefix : ¬ "data: ".toList.isPrefixOf line.toList = true := by
    rw [List.isPrefixOf_iff_prefix]
    rintro ⟨rest, hrest⟩
    refine h (String.ofList rest) (String.toList_inj.mp ?_)
    rw [← hrest, String.toList_append]
    exact congrArg _ String.toList_ofList.symm
  rw [readLine, if_neg hprefix]

lemma readLine_eq_terminator {line : String} :
    readLine loads str line = .terminator ↔ line = terminatorLine := by
  constructor
  · intro h
    by_cases hline : ∃ data, line = "data: " ++ data
    · obtain ⟨data, rfl⟩ := hline
      rw [readLine_data] at h
      split at h
      · next hdata => rw [hdata]; rfl
      · split at h
        · cases h
        · split at h <;> cases h
    · rw [readLine_other (not_exists.mp hline)] at h
      cases h
  · rintro rfl
    rfl

/-- The rest of a stream ends as the whole does. -/
lemma outcome_next_some {chunk : String} {rest : Upstream}
    (h : next loads str ending lines = (.ok (some chunk), rest)) :
    rest.ending = ending ∧
      outcome loads str ending rest.lines = outcome loads str ending lines := by
  induction lines with
  | nil =>
    unfold next at h
    split at h <;> cases h
  | cons line lines ih =>
    rw [next] at h
    rw [outcome]
    split at h
    · next hline => rw [hline]; exact ih h
    · cases h
    · next hline => cases h; rw [hline]; exact ⟨rfl, rfl⟩
    · cases h

/-- After the last chunk there is the end. -/
lemma outcome_next_none {rest : Upstream} (h : next loads str ending lines = (.ok none, rest)) :
    outcome loads str ending lines = .ok () := by
  induction lines with
  | nil =>
    unfold next at h
    split at h
    · rfl
    · cases h
  | cons line lines ih =>
    rw [next] at h
    rw [outcome]
    split at h
    · next hline => rw [hline]; exact ih h
    · next hline => rw [hline]
    · cases h
    · cases h

/-- Without the terminator a stream ends normally exactly if its lines are well formed and
there are simply no more of them. -/
theorem outcome_eq_ok_iff (hno : terminatorLine ∉ lines) :
    outcome loads str ending lines = .ok () ↔
      (∀ line ∈ lines, ∀ e, readLine loads str line ≠ .raises e) ∧ ∀ e, ending ≠ .error e := by
  induction lines with
  | nil =>
    rw [outcome]
    cases ending with
    | ok => simp [Except.mapError]
    | error e => simp [Except.mapError]
  | cons line lines ih =>
    rw [List.mem_cons, not_or] at hno
    have hline : readLine loads str line ≠ .terminator :=
      fun h => hno.1 (readLine_eq_terminator.mp h).symm
    rw [outcome]
    split
    · next h => exact absurd h hline
    · next e h => exact iff_of_false (by simp) fun hall => hall.1 line List.mem_cons_self e h
    · next hterm hraises =>
      rw [ih hno.2, List.forall_mem_cons, and_assoc]
      exact (and_iff_right hraises).symm

end Outcome

end HttpLLMAdapter
end InferenceApi
