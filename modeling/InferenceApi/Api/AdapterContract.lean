import InferenceApi.HttpAnswers
import InferenceApi.Services.StreamingService

/-!
# What a malformed upstream answer becomes

Callers of `HttpLLMAdapter` know `TimeoutError` and `UpstreamProviderError`: a 504 or 502, or
an error frame of a stream. The `except` clauses turn the exceptions of `httpx` into these.
What is raised while an answer is taken apart, by `json` or by the built-in types, they let
through: a 500, or a stream that breaks off.
-/

namespace InferenceApi
namespace HttpLLMAdapter

open Json

/-! ## The exchange -/

/-- The ways in which `httpx` fails to deliver a 2xx response. The last is none of its
`HTTPError`s: a request that cannot be encoded is not sent. -/
inductive Failure
  | timeoutException
  | httpStatusError (statusCode : ℕ)
  | httpError
  | unsent (name : String)

/-- The exception of a failure. -/
def Failure.raised : Failure → HttpxError
  | .timeoutException => .timeoutException
  | .httpStatusError statusCode => .httpStatusError statusCode
  | .httpError => .httpError
  | .unsent name => .other (.other name)

/-- How the exchange of `infer` goes: a failure, or a 2xx response with what `response.json()`
makes of its body, where it raises the name of the exception. -/
inductive Exchange
  | failed (failure : Failure)
  | answered (decoded : Except String Json)

/-- `infer`, from the response on. -/
def inferExchange : Exchange → Except Exn Json
  | .failed failure => .error failure.raised.mapped
  | .answered (.error name) => .error (.other name)
  | .answered (.ok body) => infer body

/-- `json.loads` with its exceptions by their names. -/
def named (loads : String → Except String Json) (data : String) : Except Exn Json :=
  (loads data).mapError .other

/-! ## The contract -/

/-- The exceptions that callers know. -/
def Declared (e : Exn) : Prop :=
  e = .timeoutError ∨ ∃ statusCode, e = .upstreamProviderError statusCode

/-- A result with a text and three integers, or a declared exception. -/
def InferContract : Except Exn Json → Prop
  | .ok result => ∃ (output : String) (prompt completion total : ℤ), result =
      .obj [("output", .str output), ("usage", .obj
        [("prompt_tokens", .num (.int prompt)), ("completion_tokens", .num (.int completion)),
          ("total_tokens", .num (.int total))])]
  | .error e => Declared e

/-- A normal end, or a declared exception. -/
def StreamContract : Except Exn Unit → Prop
  | .ok () => True
  | .error e => Declared e

/-- What the reader of the stream gets: wherever the exception arrives, it is followed by an
error frame. -/
def StreamAnswered : Except Exn Unit → Prop
  | .ok () => True
  | .error e => ∀ c now cb tokens, ∃ frame ∈ [Frame.timeout, Frame.upstreamError],
      .yielded frame ∈ (StreamingService.handle c now cb tokens e).events

/-! ## Well-formed answers -/

/-- The body has a text where the first choice has its message. -/
def HasText (body : Json) : Prop :=
  ∃ fields choice choices message text, body = .obj fields ∧
    lookup fields "choices" = some (.arr (.obj choice :: choices)) ∧
    lookup choice "message" = some (.obj message) ∧ lookup message "content" = some (.str text)

/-- The values that `int` accepts: numbers that are finite, and texts of integers. -/
def Countable : Json → Prop
  | .bool _ => True
  | .num (.int _) => True
  | .num (.float .nan) => False
  | .num (.float (.inf _)) => False
  | .num (.float _) => True
  | .str s => (intOfString s).isSome
  | _ => False

/-- A usage that is missing or empty, or a dict whose counts are missing or countable. -/
def HasCounts (body : Json) : Prop :=
  ∃ fields, body = .obj fields ∧
    (truthy ((lookup fields "usage").getD .null) = false ∨
      ∃ usage, lookup fields "usage" = some (.obj usage) ∧
        ∀ key ∈ ["prompt_tokens", "completion_tokens", "total_tokens"],
          ∀ v, lookup usage key = some v → Countable v)

/-- One of the exceptions that the `except` clauses name. -/
def Failure.Handled : Failure → Prop
  | .unsent _ => False
  | _ => True

/-- A failure of the exchange, or a body that decodes and has what `infer` reads. -/
def Exchange.WellFormed : Exchange → Prop
  | .failed failure => failure.Handled
  | .answered (.error _) => False
  | .answered (.ok body) => HasText body ∧ HasCounts body

/-- A line without `data: `, or with a chunk whose first choice has a delta. -/
def Readable (loads : String → Except String Json) (line : String) : Prop :=
  ∀ data, line = "data: " ++ data → ∃ fields choice choices delta,
    loads data = .ok (.obj fields) ∧
    lookup fields "choices" = some (.arr (.obj choice :: choices)) ∧
    lookup choice "delta" = some (.obj delta)

/-- The lines up to the terminator. -/
def untilTerminator (lines : List String) : List String := lines.takeWhile (· ≠ terminatorLine)

/-- Lines that are read up to the terminator, or up to an end or a failure that is handled. -/
structure ReadToEnd (loads : String → Except String Json) (lines : List String)
    (ending : Except Failure Unit) : Prop where
  readable : ∀ line ∈ untilTerminator lines, Readable loads line
  handled : terminatorLine ∉ lines → ∀ failure, ending = .error failure → failure.Handled

/-! ## What taking an answer apart raises -/

/-- An exception of `json` or of a built-in type. -/
inductive Malformed : Exn → Prop
  | keyError (key : String) : Malformed (.keyError key)
  | attributeError : Malformed .attributeError
  | typeError : Malformed .typeError
  | other (name : String) : Malformed (.other name)

section Infer

variable {value body : Json} {key : String} {e : Exn}

lemma Malformed.not_declared (h : Malformed e) : ¬ Declared e := by
  cases h <;> simp [Declared]

/-- Whatever the computation raises is one of these. -/
def RaisesMalformed {α : Type} (x : Except Exn α) : Prop := ∀ e, x = .error e → Malformed e

lemma RaisesMalformed.bind {α β : Type} {x : Except Exn α} {f : α → Except Exn β}
    (hx : RaisesMalformed x) (hf : ∀ a, RaisesMalformed (f a)) : RaisesMalformed (x >>= f) := by
  intro e h
  rcases bind_eq_error.mp h with h | ⟨a, -, h⟩
  · exact hx e h
  · exact hf a e h

lemma raisesMalformed_ok {α : Type} (a : α) : RaisesMalformed (.ok a) := fun _ h => nomatch h

lemma raisesMalformed_subscript (value : Json) (key : String) :
    RaisesMalformed (subscript value key) := by
  intro e h
  unfold subscript at h
  split at h
  · split at h
    · cases h
    · cases h
      exact .keyError key
  · cases h
    exact .typeError

lemma raisesMalformed_subscriptZero (value : Json) : RaisesMalformed (subscriptZero value) := by
  intro e h
  unfold subscriptZero at h
  split at h
  · cases h
  · cases h
    exact .other _
  · split at h
    · cases h
    · cases h
      exact .other _
  · cases h
    exact .keyError _
  · cases h
    exact .typeError

lemma raisesMalformed_dictGet (value : Json) (key : String) (default : Json) :
    RaisesMalformed (dictGet value key default) := by
  intro e h
  unfold dictGet at h
  split at h
  · cases h
  · cases h
    exact .attributeError

lemma raisesMalformed_intOf (value : Json) : RaisesMalformed (intOf value) := by
  intro e h
  unfold intOf at h
  split at h
  · cases h
  · cases h
  · cases h
  · cases h
  · cases h; exact .other _
  · cases h; exact .other _
  · split at h
    · cases h
    · cases h; exact .other _
  · cases h; exact .typeError

lemma raisesMalformed_messageContent (body : Json) : RaisesMalformed (messageContent body) :=
  (raisesMalformed_subscript _ _).bind fun choices =>
    (raisesMalformed_subscriptZero choices).bind fun choice =>
      (raisesMalformed_subscript choice _).bind fun message => raisesMalformed_subscript message _

lemma raisesMalformed_extractUsage (body : Json) : RaisesMalformed (extractUsage body) :=
  (raisesMalformed_dictGet _ _ _).bind fun _ =>
    (raisesMalformed_dictGet _ _ _).bind fun prompt => (raisesMalformed_intOf prompt).bind fun _ =>
      (raisesMalformed_dictGet _ _ _).bind fun completion =>
        (raisesMalformed_intOf completion).bind fun _ =>
          (raisesMalformed_dictGet _ _ _).bind fun total =>
            (raisesMalformed_intOf total).bind fun _ => raisesMalformed_ok _

/-- Whatever `infer` raises about a body, its callers do not know. -/
lemma raisesMalformed_infer (body : Json) : RaisesMalformed (infer body) :=
  (raisesMalformed_messageContent body).bind fun _ =>
    (raisesMalformed_extractUsage body).bind fun _ => raisesMalformed_ok _

/-! ## When it raises nothing -/

/-- The first element is an object in lists only: of a text it is a text. -/
lemma subscriptZero_eq_obj {fields : List (String × Json)}
    (h : subscriptZero value = .ok (.obj fields)) : ∃ rest, value = .arr (.obj fields :: rest) := by
  unfold subscriptZero at h
  split at h
  · cases h
    exact ⟨_, rfl⟩
  · cases h
  · split at h <;> cases h
  · cases h
  · cases h

lemma countable_iff : Countable value ↔ ∃ n, intOf value = .ok n := by
  cases value with
  | num n =>
    cases n with
    | int z => simp [Countable, intOf]
    | float f => cases f <;> simp [Countable, intOf]
  | str s => cases h : intOfString s <;> simp [Countable, intOf, h]
  | _ => simp [Countable, intOf]

lemma hasText_iff : HasText body ↔ ∃ text, messageContent body = .ok (.str text) := by
  constructor
  · rintro ⟨fields, choice, choices, message, text, rfl, hchoices, hmessage, htext⟩
    refine ⟨text, ?_⟩
    simp only [messageContent, subscript, subscriptZero, hchoices, hmessage, htext, bind,
      Except.bind]
  · rintro ⟨text, h⟩
    obtain ⟨choices, hchoices, hrest⟩ := bind_eq_ok.mp h
    obtain ⟨choice, hchoice, hrest'⟩ := bind_eq_ok.mp hrest
    obtain ⟨message, hmessage, hcontent⟩ := bind_eq_ok.mp hrest'
    obtain ⟨fields, rfl, hlook⟩ := subscript_eq_ok.mp hchoices
    obtain ⟨choiceFields, rfl, hlook'⟩ := subscript_eq_ok.mp hmessage
    obtain ⟨messageFields, rfl, htext⟩ := subscript_eq_ok.mp hcontent
    obtain ⟨others, rfl⟩ := subscriptZero_eq_obj hchoice
    exact ⟨fields, choiceFields, others, messageFields, text, rfl, hlook, hlook', htext⟩

/-- A count with its default. -/
lemma intOf_getD {usage : List (String × Json)} {key : String} {n : ℤ} :
    (∃ k, intOf ((lookup usage key).getD (.num (.int n))) = .ok k) ↔
      ∀ v, lookup usage key = some v → Countable v := by
  cases lookup usage key with
  | none => simp [intOf]
  | some v => simp [countable_iff]

/-- `given or {}` is a dict if `given` is one, or if it is falsy. -/
lemma orEmpty_eq_obj {given : Json} {usage : List (String × Json)} :
    (if truthy given then given else .obj []) = .obj usage ↔
      (truthy given = false ∧ usage = []) ∨ given = .obj usage := by
  constructor
  · intro h
    by_cases hgiven : truthy given = true
    · rw [if_pos hgiven] at h
      exact .inr h
    · rw [if_neg hgiven] at h
      cases h
      exact .inl ⟨by simpa using hgiven, rfl⟩
  · rintro (⟨hgiven, rfl⟩ | rfl)
    · simp [hgiven]
    · cases usage <;> simp [truthy]

/-- `_extract_usage` returns exactly if there is a dict, with its three numbers. -/
lemma extractUsage_iff : (∃ counts, extractUsage body = .ok counts) ↔
    ∃ fields usage, body = .obj fields ∧
      (if truthy ((lookup fields "usage").getD .null) then
        (lookup fields "usage").getD .null else .obj []) = .obj usage ∧
      ∀ key ∈ ["prompt_tokens", "completion_tokens", "total_tokens"],
        ∀ v, lookup usage key = some v → Countable v := by
  constructor
  · rintro ⟨counts, h⟩
    obtain ⟨fields, usage, prompt, completion, total, rfl, husage, hprompt, hcompletion, htotal,
      -⟩ := extractUsage_spec h
    refine ⟨fields, usage, rfl, husage, ?_⟩
    simp only [List.forall_mem_cons]
    exact ⟨intOf_getD.mp ⟨prompt, hprompt⟩, intOf_getD.mp ⟨completion, hcompletion⟩,
      intOf_getD.mp ⟨total, htotal⟩, List.forall_mem_nil _⟩
  · rintro ⟨fields, usage, rfl, husage, hcounts⟩
    simp only [List.forall_mem_cons] at hcounts
    obtain ⟨hprompt, hcompletion, htotal, -⟩ := hcounts
    obtain ⟨prompt, hprompt⟩ := intOf_getD.mpr hprompt
    obtain ⟨completion, hcompletion⟩ := intOf_getD.mpr hcompletion
    obtain ⟨total, htotal⟩ := intOf_getD.mpr htotal
    refine ⟨_, bind_eq_ok.mpr ⟨_, rfl, bind_eq_ok.mpr ⟨_, dictGet_eq_ok.mpr ⟨usage, husage, rfl⟩,
      bind_eq_ok.mpr ⟨prompt, hprompt, bind_eq_ok.mpr ⟨_, dictGet_eq_ok.mpr ⟨usage, husage, rfl⟩,
      bind_eq_ok.mpr ⟨completion, hcompletion, bind_eq_ok.mpr
        ⟨_, dictGet_eq_ok.mpr ⟨usage, husage, rfl⟩, bind_eq_ok.mpr ⟨total, htotal, rfl⟩⟩⟩⟩⟩⟩⟩⟩

lemma hasCounts_iff : HasCounts body ↔ ∃ counts, extractUsage body = .ok counts := by
  rw [extractUsage_iff]
  constructor
  · rintro ⟨fields, rfl, hfalsy | ⟨usage, husage, hcounts⟩⟩
    · exact ⟨fields, [], rfl, orEmpty_eq_obj.mpr (.inl ⟨hfalsy, rfl⟩), by simp [lookup]⟩
    · exact ⟨fields, usage, rfl, orEmpty_eq_obj.mpr (.inr (by simp [husage])), hcounts⟩
  · rintro ⟨fields, usage, rfl, husage, hcounts⟩
    refine ⟨fields, rfl, ?_⟩
    rcases orEmpty_eq_obj.mp husage with ⟨hfalsy, -⟩ | hgiven
    · exact .inl hfalsy
    · refine .inr ⟨usage, ?_, hcounts⟩
      cases hlook : lookup fields "usage" with
      | none => simp [hlook] at hgiven
      | some v => simpa [hlook] using hgiven

/-- What a declared exception becomes in a stream, and any other of an answer. -/
lemma declared_iff_framed (h : Declared e ∨ Malformed e) :
    Declared e ↔ ∀ c now cb tokens, ∃ frame ∈ [Frame.timeout, Frame.upstreamError],
      .yielded frame ∈ (StreamingService.handle c now cb tokens e).events := by
  rcases h with hdeclared | hmalformed
  · refine iff_of_true hdeclared fun c now cb tokens => ?_
    rcases hdeclared with rfl | ⟨statusCode, rfl⟩
    · exact ⟨.timeout, by simp, List.mem_cons_self⟩
    · exact ⟨.upstreamError, by simp, List.mem_cons_self⟩
  · refine iff_of_false hmalformed.not_declared fun hframe => ?_
    obtain ⟨frame, -, hmem⟩ := hframe {} 0 {} []
    cases hmalformed <;> simp [StreamingService.handle, StreamingService.finish] at hmem

/-- The `except` clauses turn the failures they name into what callers know. -/
lemma mapped_failure (failure : Failure) :
    Declared failure.raised.mapped ∧ failure.Handled ∨
      Malformed failure.raised.mapped ∧ ¬ failure.Handled := by
  cases failure with
  | timeoutException => exact .inl ⟨.inl rfl, trivial⟩
  | httpStatusError statusCode => exact .inl ⟨.inr ⟨_, rfl⟩, trivial⟩
  | httpError => exact .inl ⟨.inr ⟨_, rfl⟩, trivial⟩
  | unsent name => exact .inr ⟨.other name, not_false⟩

/-- `infer` raises what its callers know, or what taking the body apart raises. -/
lemma inferExchange_error {x : Exchange} (h : inferExchange x = .error e) :
    Declared e ∧ x.WellFormed ∨ Malformed e ∧ ¬ x.WellFormed := by
  cases x with
  | failed failure =>
    cases h
    exact mapped_failure failure
  | answered decoded =>
    cases decoded with
    | error name =>
      cases h
      exact .inr ⟨.other name, not_false⟩
    | ok body =>
      refine .inr ⟨raisesMalformed_infer body e h, ?_⟩
      rintro ⟨htext, hcounts⟩
      obtain ⟨text, htext⟩ := hasText_iff.mp htext
      obtain ⟨counts, hcounts⟩ := hasCounts_iff.mp hcounts
      rcases bind_eq_error.mp h with h | ⟨output, -, h⟩
      · rw [htext] at h
        cases h
      rcases bind_eq_error.mp h with h | ⟨usage, -, h⟩
      · rw [hcounts] at h
        cases h
      · cases h

/-- What `infer` returns has a text exactly if the answer is well formed. -/
lemma inferExchange_ok {x : Exchange} {result : Json} (h : inferExchange x = .ok result) :
    ∃ (output : Json) (prompt completion total : ℤ), result =
      .obj [("output", output), ("usage", .obj
        [("prompt_tokens", .num (.int prompt)), ("completion_tokens", .num (.int completion)),
          ("total_tokens", .num (.int total))])] ∧
      (x.WellFormed ↔ ∃ text, output = .str text) := by
  cases x with
  | failed failure => cases h
  | answered decoded =>
    cases decoded with
    | error name => cases h
    | ok body =>
      obtain ⟨output, prompt, completion, total, houtput, rfl⟩ := infer_eq_ok h
      refine ⟨output, prompt, completion, total, rfl, ?_⟩
      obtain ⟨_, -, hrest⟩ := bind_eq_ok.mp h
      obtain ⟨counts, hcounts, -⟩ := bind_eq_ok.mp hrest
      constructor
      · rintro ⟨htext, -⟩
        obtain ⟨text, htext⟩ := hasText_iff.mp htext
        exact ⟨text, Except.ok.inj (houtput.symm.trans htext)⟩
      · rintro ⟨text, rfl⟩
        exact ⟨hasText_iff.mpr ⟨text, houtput⟩, hasCounts_iff.mpr ⟨counts, hcounts⟩⟩

lemma inferContract_iff (x : Exchange) : InferContract (inferExchange x) ↔ x.WellFormed := by
  cases h : inferExchange x with
  | error e =>
    rcases inferExchange_error h with ⟨hdeclared, hwell⟩ | ⟨hmalformed, hwell⟩
    · exact iff_of_true hdeclared hwell
    · exact iff_of_false hmalformed.not_declared hwell
  | ok result =>
    obtain ⟨output, prompt, completion, total, rfl, hwell⟩ := inferExchange_ok h
    rw [hwell]
    constructor
    · rintro ⟨text, _, _, _, heq⟩
      cases heq
      exact ⟨text, rfl⟩
    · rintro ⟨text, rfl⟩
      exact ⟨text, prompt, completion, total, rfl⟩

end Infer

/-! ## Streams -/

section Stream

variable {loads : String → Except String Json} {str : Json → String} {line : String} {e : Exn}

lemma named_eq_ok {data : String} {body : Json} :
    named loads data = .ok body ↔ loads data = .ok body := by
  unfold named
  cases loads data <;> simp [Except.mapError]

lemma raisesMalformed_named (data : String) : RaisesMalformed (named loads data) := by
  intro e h
  unfold named at h
  cases hloads : loads data with
  | error name =>
    rw [hloads] at h
    cases h
    exact .other name
  | ok body =>
    rw [hloads] at h
    cases h

lemma raisesMalformed_deltaContent (data : String) :
    RaisesMalformed (deltaContent (named loads) data) :=
  (raisesMalformed_named data).bind fun body =>
    (raisesMalformed_subscript body _).bind fun choices =>
      (raisesMalformed_subscriptZero choices).bind fun choice =>
        (raisesMalformed_subscript choice _).bind fun delta => raisesMalformed_dictGet delta _ _

lemma deltaContent_of_delta {data : String} {fields choice delta : List (String × Json)}
    {choices : List Json} (hloads : loads data = .ok (.obj fields))
    (hchoices : lookup fields "choices" = some (.arr (.obj choice :: choices)))
    (hdelta : lookup choice "delta" = some (.obj delta)) :
    deltaContent (named loads) data = .ok ((lookup delta "content").getD .null) := by
  simp only [deltaContent, named, hloads, Except.mapError, subscript, subscriptZero, hchoices,
    hdelta, dictGet, bind, Except.bind]

/-- A chunk is read exactly if there is a delta. -/
lemma deltaContent_iff {data : String} :
    (∃ content, deltaContent (named loads) data = .ok content) ↔
    ∃ fields choice choices delta, loads data = .ok (.obj fields) ∧
      lookup fields "choices" = some (.arr (.obj choice :: choices)) ∧
      lookup choice "delta" = some (.obj delta) := by
  constructor
  · rintro ⟨content, h⟩
    obtain ⟨body, hbody, hrest⟩ := bind_eq_ok.mp h
    obtain ⟨choices, hchoices, hrest'⟩ := bind_eq_ok.mp hrest
    obtain ⟨choice, hchoice, hrest''⟩ := bind_eq_ok.mp hrest'
    obtain ⟨delta, hdelta, hcontent⟩ := bind_eq_ok.mp hrest''
    obtain ⟨fields, rfl, hlook⟩ := subscript_eq_ok.mp hchoices
    obtain ⟨choiceFields, rfl, hlook'⟩ := subscript_eq_ok.mp hdelta
    obtain ⟨deltaFields, rfl, -⟩ := dictGet_eq_ok.mp hcontent
    obtain ⟨others, rfl⟩ := subscriptZero_eq_obj hchoice
    exact ⟨fields, choiceFields, others, deltaFields, named_eq_ok.mp hbody, hlook, hlook'⟩
  · rintro ⟨fields, choice, choices, delta, hloads, hchoices, hdelta⟩
    exact ⟨_, deltaContent_of_delta hloads hchoices hdelta⟩

/-- What the loop does with a line: it stops, goes on or raises. -/
lemma readLine_cases (loads : String → Except String Json) (str : Json → String) (line : String) :
    line = terminatorLine ∨
    ((∀ e, readLine (named loads) str line ≠ .raises e) ∧ Readable loads line) ∨
    ∃ e, readLine (named loads) str line = .raises e ∧ Malformed e ∧ ¬ Readable loads line := by
  by_cases hdata : ∃ data, line = "data: " ++ data
  · obtain ⟨data, rfl⟩ := hdata
    have hreadable : Readable loads ("data: " ++ data) ↔
        ∃ content, deltaContent (named loads) data = .ok content := by
      rw [deltaContent_iff]
      constructor
      · intro h
        exact h data rfl
      · intro h data' hdata'
        have htail := congrArg String.toList hdata'
        rw [String.toList_append, String.toList_append, List.append_cancel_left_eq,
          String.toList_inj] at htail
        exact htail ▸ h
    by_cases hdone : data = "[DONE]"
    · exact .inl (by rw [hdone]; rfl)
    · rw [readLine_data, if_neg hdone, hreadable]
      cases h : deltaContent (named loads) data with
      | error e => exact .inr (.inr ⟨e, rfl, raisesMalformed_deltaContent data e h, by simp⟩)
      | ok content =>
        refine .inr (.inl ⟨fun e => ?_, content, rfl⟩)
        dsimp only
        split <;> simp
  · have hother := not_exists.mp hdata
    rw [readLine_other hother]
    exact .inr (.inl ⟨by simp, fun data h => absurd h (hother data)⟩)

variable {ending : Except Failure Unit}

/-- A stream raises what its callers know, or what taking a line apart raises. -/
lemma outcome_error {lines : List String}
    (h : outcome (named loads) str (ending.mapError Failure.raised) lines = .error e) :
    Declared e ∨ Malformed e := by
  induction lines with
  | nil =>
    cases ending with
    | ok _ => cases h
    | error failure =>
      cases h
      exact (mapped_failure failure).imp And.left And.left
  | cons line lines ih =>
    rw [outcome] at h
    split at h
    · cases h
    · next e' hline =>
      cases h
      rcases readLine_cases loads str line with hterm | ⟨hno, -⟩ | ⟨e', hraises, hmalformed, -⟩
      · rw [readLine_eq_terminator.mpr hterm] at hline
        cases hline
      · exact absurd hline (hno e)
      · rw [hline] at hraises
        cases hraises
        exact .inr hmalformed
    · exact ih h

lemma untilTerminator_cons {lines : List String} (h : line ≠ terminatorLine) :
    untilTerminator (line :: lines) = line :: untilTerminator lines :=
  List.takeWhile_cons_of_pos (by simpa using h)

/-- A line that is read is followed by the others. -/
lemma readToEnd_cons {lines : List String} (hterm : line ≠ terminatorLine) :
    ReadToEnd loads (line :: lines) ending ↔
      Readable loads line ∧ ReadToEnd loads lines ending := by
  have hnot : terminatorLine ∉ line :: lines ↔ terminatorLine ∉ lines := by
    rw [List.mem_cons, or_iff_right hterm.symm]
  constructor
  · rintro ⟨hreadable, hhandled⟩
    rw [untilTerminator_cons hterm, List.forall_mem_cons] at hreadable
    exact ⟨hreadable.1, hreadable.2, fun h => hhandled (hnot.mpr h)⟩
  · rintro ⟨hline, hreadable, hhandled⟩
    refine ⟨?_, fun h => hhandled (hnot.mp h)⟩
    rw [untilTerminator_cons hterm, List.forall_mem_cons]
    exact ⟨hline, hreadable⟩

/-- The lines up to the terminator decide, and the end if there is none. -/
lemma streamContract_iff (lines : List String) :
    StreamContract (outcome (named loads) str (ending.mapError Failure.raised) lines) ↔
      ReadToEnd loads lines ending := by
  induction lines with
  | nil =>
    cases ending with
    | ok _ => exact iff_of_true trivial ⟨List.forall_mem_nil _, fun _ _ h => nomatch h⟩
    | error failure =>
      rcases mapped_failure failure with ⟨hdeclared, hhandled⟩ | ⟨hmalformed, hnot⟩
      · refine iff_of_true hdeclared ⟨List.forall_mem_nil _, fun _ failure' h => ?_⟩
        cases h
        exact hhandled
      · exact iff_of_false hmalformed.not_declared fun h =>
          hnot (h.handled List.not_mem_nil failure rfl)
  | cons line lines ih =>
    by_cases hterm : line = terminatorLine
    · subst hterm
      refine iff_of_true ?_ ⟨?_, fun h => absurd List.mem_cons_self h⟩
      · rw [outcome, readLine_eq_terminator.mpr rfl]
        exact trivial
      · simp [untilTerminator]
    · rw [readToEnd_cons hterm]
      rcases (readLine_cases loads str line).resolve_left hterm with
        ⟨hno, hreadable⟩ | ⟨e, hraises, hmalformed, hunreadable⟩
      · rw [and_iff_right hreadable, ← ih, outcome]
        split
        · next hline => exact absurd (readLine_eq_terminator.mp hline) hterm
        · next e hline => exact absurd hline (hno e)
        · rfl
      · rw [outcome, hraises]
        exact iff_of_false hmalformed.not_declared fun h => hunreadable h.1

/-- The readers of the stream see the difference. -/
lemma streamAnswered_iff (lines : List String) :
    StreamAnswered (outcome (named loads) str (ending.mapError Failure.raised) lines) ↔
      ReadToEnd loads lines ending := by
  have hcontract :
      StreamContract (outcome (named loads) str (ending.mapError Failure.raised) lines) ↔
        ReadToEnd loads lines ending := streamContract_iff lines
  rw [← hcontract]
  cases h : outcome (named loads) str (ending.mapError Failure.raised) lines with
  | ok _ => exact iff_of_true trivial trivial
  | error e => exact (declared_iff_framed (outcome_error h)).symm

end Stream

end HttpLLMAdapter
end InferenceApi
