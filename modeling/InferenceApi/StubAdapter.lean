import InferenceApi.Schemas
import InferenceApi.TextProcessing

/-!
# The stub adapter

`StubLLMAdapter` of `app/adapters/stub.py`, the adapter the application is shipped with. What
`random.random()` gives is an argument; the sleeps before an answer are left to whoever waits.
-/

namespace InferenceApi

open Json Words

/-- `StubLLMAdapter.__init__`, with its default. `Settings.stub_failure_rate` has `ge=0, le=1`. -/
structure StubLLMAdapter where
  failureRate : ℚ := 0

namespace StubLLMAdapter

/-- `_build_usage`. -/
def buildUsage (input : String) : Json :=
  let promptTokens : ℤ := (words isSpace input.toList).length
  let completionTokens : ℤ := 10
  .obj [("prompt_tokens", .num (.int promptTokens)),
    ("completion_tokens", .num (.int completionTokens)),
    ("total_tokens", .num (.int (promptTokens + completionTokens)))]

/-- The dict `infer` returns. -/
def answer (input : String) : Json :=
  .obj [("output", .str ("[stub] " ++ input)), ("usage", buildUsage input)]

/-- `infer`, with the number it draws. -/
def infer (stub : StubLLMAdapter) (draw : ℚ) (input : String) : Except Exn Json :=
  if draw < stub.failureRate then .error .timeoutError else .ok (answer input)

/-- The tokens `stream` yields. -/
def tokens : List String := (List.range 10).map fun i => "token_" ++ toString i

/-- `stream`, asked for a token after it has yielded `index` of them. The number is drawn when it
starts. -/
def stream (stub : StubLLMAdapter) (draw : ℚ) (index : ℕ) : Except Exn (Option String) :=
  if index = 0 ∧ draw < stub.failureRate then .error .timeoutError
  else .ok tokens[index]?

/-- The first token. -/
example : (({} : StubLLMAdapter).stream 0 0) = .ok (some "token_0") := by rfl

variable {stub : StubLLMAdapter} {draw : ℚ} {input : String} {index : ℕ} {given : List String}
  {token : String}

/-- What is returned does not depend on the draw. -/
lemma eq_answer_of_infer {result : Json} (h : stub.infer draw input = .ok result) :
    result = answer input := by
  unfold infer at h
  split at h
  · cases h
  · exact (Except.ok.inj h).symm

/-- The next token continues what was yielded. -/
lemma prefix_of_stream (hgiven : given <+: tokens)
    (h : stub.stream draw given.length = .ok (some token)) : given ++ [token] <+: tokens := by
  unfold stream at h
  split at h
  · cases h
  · obtain ⟨rest, hrest⟩ := hgiven
    have htoken := Except.ok.inj h
    rw [← hrest, List.getElem?_append_right le_rfl, Nat.sub_self] at htoken
    cases rest with
    | nil => cases htoken
    | cons t rest =>
      cases htoken
      exact ⟨rest, by rw [← hrest, List.append_assoc]; rfl⟩

/-- The stream ends when all tokens were yielded. -/
lemma eq_tokens_of_stream (hgiven : given <+: tokens)
    (h : stub.stream draw given.length = .ok none) : given = tokens := by
  unfold stream at h
  split at h
  · cases h
  · have hlength := List.getElem?_eq_none_iff.mp (Except.ok.inj h)
    exact hgiven.eq_of_length_le hlength

end StubLLMAdapter
end InferenceApi
