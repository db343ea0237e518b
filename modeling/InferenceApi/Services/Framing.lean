import InferenceApi.Lib.JsonDecode
import InferenceApi.Lib.Sse
import InferenceApi.Services.Drained

/-!
# The text of a stream

What the frames of `StreamingService.stream` look like on the wire, and what a client reads
there: it takes the body apart by the rules of server-sent events and decodes every payload
but the literal `[DONE]`.
-/

namespace InferenceApi

open Json

/-! ## Writing -/

/-- The payload of `[DONE]`, which is no JSON. -/
def donePayload : List Char := ['[', 'D', 'O', 'N', 'E', ']']

variable (R : FloatRepr)

/-- What a frame has after `data: `. Two of the errors are literals in the source. -/
def Frame.payload : Frame → List Char
  | .rejected retryAfterS =>
    render R (.obj
      [("error", .str "service unavailable"), ("retry_after_s", .num (.int retryAfterS))])
  | .token chunk index => render R (.obj [("token", .str chunk), ("index", .num (.int index))])
  | .done => donePayload
  | .timeout => "\x7b\"error\": \"LLM provider timeout\"\x7d".toList
  | .upstreamError => "\x7b\"error\": \"upstream provider error\"\x7d".toList

/-- `f"data: {payload}\n\n"`. -/
def Frame.text (frame : Frame) : List Char :=
  "data: ".toList ++ frame.payload R ++ "\n\n".toList

/-- The body of the response. -/
def StreamingService.body (own : Log) : List Char := (frames own).flatMap (Frame.text R)

/-! ## Reading -/

/-- What a client understands of an event. -/
inductive Received
  | terminator
  | token (text : String) (index : ℤ)
  | error (text : String)
  | unknown
deriving DecidableEq, Repr

/-- What a client understands of a decoded payload. -/
def Received.ofJson : Json → Received
  | .obj fields =>
    match lookup fields "token", lookup fields "index", lookup fields "error" with
    | some (.str text), some (.num (.int index)), none => .token text index
    | none, none, some (.str text) => .error text
    | _, _, _ => .unknown
  | _ => .unknown

variable (toFloat : List Char → PyFloat)

/-- How a client reads a payload. -/
def Received.ofPayload (payload : List Char) : Received :=
  if payload = donePayload then .terminator
  else
    match loads toFloat payload with
    | some v => .ofJson v
    | none => .unknown

/-- What a client makes of the body of a stream. -/
def received (body : List Char) : List Received :=
  (Sse.events body).map (Received.ofPayload toFloat)

/-- What a frame is for. -/
def Frame.meaning : Frame → Received
  | .rejected _ => .error "service unavailable"
  | .token chunk index => .token chunk index
  | .done => .terminator
  | .timeout => .error "LLM provider timeout"
  | .upstreamError => .error "upstream provider error"

/-! ## Reading what was written -/

/-- The value in a frame, if it has one. -/
def Frame.value? : Frame → Option Json
  | .rejected retryAfterS =>
    some (.obj [("error", .str "service unavailable"), ("retry_after_s", .num (.int retryAfterS))])
  | .token chunk index => some (.obj [("token", .str chunk), ("index", .num (.int index))])
  | .done => none
  | .timeout => some (.obj [("error", .str "LLM provider timeout")])
  | .upstreamError => some (.obj [("error", .str "upstream provider error")])

section Frames

variable {R toFloat} {frame : Frame} {v : Json}

/-- The literals of the source are the JSON text of their values. -/
lemma payload_of_value (h : frame.value? = some v) : frame.payload R = render R v := by
  cases frame <;> cases h <;> rfl

lemma floatless_of_value (h : frame.value? = some v) : Floatless v := by
  cases frame <;> cases h <;> simp [Floatless, FloatlessFields]

lemma distinct_of_value (h : frame.value? = some v) : Distinct v := by
  cases frame <;> cases h <;> simp [Distinct, DistinctFields]

lemma ofJson_of_value (h : frame.value? = some v) : Received.ofJson v = frame.meaning := by
  cases frame <;> cases h <;> rfl

/-- An object does not start like `[DONE]`. -/
lemma payload_ne_done (h : frame.value? = some v) : frame.payload R ≠ donePayload := by
  rw [payload_of_value h]
  intro hdone
  have hhead := congrArg List.head? hdone
  cases frame <;> cases h <;> simp [render, donePayload] at hhead

lemma eq_done_of_value (h : frame.value? = none) : frame = .done := by
  cases frame with
  | done => rfl
  | _ => exact absurd h (Option.some_ne_none _)

lemma unbroken_payload : Sse.Unbroken (frame.payload R) := by
  cases h : frame.value? with
  | none =>
    rw [eq_done_of_value h]
    change Sse.Unbroken donePayload
    simp [donePayload, Sse.Unbroken]
  | some v =>
    rw [payload_of_value h]
    intro c hc
    have hprintable := printable_render R v (floatless_of_value h) c hc
    constructor
    · rintro rfl
      exact absurd hprintable (by decide)
    · rintro rfl
      exact absurd hprintable (by decide)

/-- A client understands a payload as it was meant. -/
lemma ofPayload_payload (frame : Frame) :
    Received.ofPayload toFloat (frame.payload R) = frame.meaning := by
  cases h : frame.value? with
  | none =>
    rw [eq_done_of_value h]
    rfl
  | some v =>
    rw [Received.ofPayload, if_neg (payload_ne_done h), payload_of_value h,
      loads_render R toFloat (floatless_of_value h) (distinct_of_value h)]
    exact ofJson_of_value h

/-- And all of them. -/
theorem received_text (fs : List Frame) :
    received toFloat (fs.flatMap (Frame.text R)) = fs.map Frame.meaning := by
  have htexts : fs.flatMap (Frame.text R) = (fs.map (Frame.payload R)).flatMap Sse.frame := by
    rw [List.flatMap_map]
    rfl
  have hunbroken : ∀ p ∈ fs.map (Frame.payload R), Sse.Unbroken p := by
    intro p hp
    obtain ⟨frame, -, rfl⟩ := List.mem_map.mp hp
    exact unbroken_payload
  rw [received, htexts, Sse.events_frames hunbroken, List.map_map]
  exact List.map_congr_left fun frame _ => ofPayload_payload frame

end Frames

namespace StreamingService

section Body

variable {c : CircuitBreaker.Config} {pid : ℕ} {call : StreamCall} {own : Log} {req : InferRequest}

/-- What a client should understand of tokens. -/
def tokensRead (tokens : List String) : List Received :=
  tokens.zipIdx.map fun token => .token token.1 token.2

lemma map_meaning_tokenFrames (tokens : List String) :
    (tokenFrames tokens).map Frame.meaning = tokensRead tokens := by
  rw [tokenFrames, List.map_map]
  rfl

/-- The last frame of a stream, if it has one that is no token. -/
def LastFrame (last : List Frame) : Prop :=
  last = [] ∨ last = [.done] ∨ last = [.timeout] ∨ last = [.upstreamError] ∨
    ∃ retryAfterS, last = [.rejected retryAfterS]

lemma Conclusion.lastFrame {es : List Event} {status : StreamStatus} {out : Except Exn Unit}
    (h : Conclusion es status out) : LastFrame (es.filterMap Event.frame?) := by
  cases h with
  | disconnected => exact Or.inl rfl
  | cancelled => exact Or.inl rfl
  | done => exact Or.inr (Or.inl rfl)
  | timeout => exact Or.inr (Or.inr (Or.inl rfl))
  | upstreamError => exact Or.inr (Or.inr (Or.inr (Or.inl rfl)))
  | failed => exact Or.inl rfl

/-- At every place of a stream: numbered tokens, and at most one other frame after them. -/
theorem frames_of_traced {status : Status} {t : List Event} (h : Traced req status t) :
    ∃ tokens last, t.filterMap Event.frame? = tokenFrames tokens ++ last ∧ LastFrame last := by
  cases h with
  | created => exact ⟨[], [], rfl, Or.inl rfl⟩
  | atRejection r => exact ⟨[], [.rejected r], rfl, Or.inr (Or.inr (Or.inr (Or.inr ⟨r, rfl⟩)))⟩
  | awaitChunk tokens => exact ⟨tokens, [], by simp [filterMap_frame?_relayed], Or.inl rfl⟩
  | awaitPoll chunk tokens => exact ⟨tokens, [], by simp [filterMap_frame?_relayed], Or.inl rfl⟩
  | atToken chunk tokens =>
    exact ⟨tokens ++ [chunk], [], by simp [filterMap_frame?_relayed], Or.inl rfl⟩
  | atDone tokens =>
    refine ⟨tokens, _, ?_, Conclusion.done.lastFrame⟩
    rw [List.filterMap_append, filterMap_frame?_relayed]
  | atTimeout tokens =>
    refine ⟨tokens, _, ?_, Conclusion.timeout.lastFrame⟩
    rw [List.filterMap_append, filterMap_frame?_relayed]
  | atUpstreamError tokens =>
    refine ⟨tokens, _, ?_, Conclusion.upstreamError.lastFrame⟩
    rw [List.filterMap_append, filterMap_frame?_relayed]
  | unstarted => exact ⟨[], [], rfl, Or.inl rfl⟩
  | rejected r => exact ⟨[], [.rejected r], rfl, Or.inr (Or.inr (Or.inr (Or.inr ⟨r, rfl⟩)))⟩
  | concluded tokens hes =>
    refine ⟨tokens, _, ?_, hes.lastFrame⟩
    rw [List.filterMap_append, List.filterMap_append, filterMap_frame?_relayed]
    exact congrArg _ (List.append_nil _)
  | closed chunk tokens =>
    refine ⟨tokens ++ [chunk], [], ?_, Or.inl rfl⟩
    rw [List.filterMap_append, filterMap_frame?_relayed]
    rfl

/-- With a connected client every chunk is sent. -/
lemma sentCount_connected (chunks : List String) (ending : Except Exn Unit) :
    Feed.sentCount ⟨chunks, ending, fun _ => false⟩ = chunks.length := by
  induction chunks with
  | nil => rfl
  | cons chunk chunks ih => rw [sentCount_cons, if_neg Bool.false_ne_true, ih, List.length_cons]

/-- **The framing is unambiguous.** For all tokens whatever: a client that takes the body of a
stream apart by the rules of server-sent events and decodes the payloads gets the tokens that
were sent, numbered in their order, and then what the last frame was for, and nothing else. And
every list of tokens is sent so, up to the terminator, by a stream that is drained. -/
theorem framing_unambiguous (R : FloatRepr) (toFloat : List Char → PyFloat) :
    (∀ (c : CircuitBreaker.Config) (pid : ℕ) (call : StreamCall) (own : Log),
      StreamRun c pid call own → ∃ last, LastFrame last ∧
        frames own = tokenFrames (delivered own) ++ last ∧
          received toFloat (body R own) = tokensRead (delivered own) ++ last.map Frame.meaning) ∧
    ∀ (c : CircuitBreaker.Config) (pid : ℕ) (env : ℕ → ℚ × CircuitBreaker) (req : InferRequest)
      (tokens : List String), (CircuitBreaker.isOpen c (env 0).1 (env 0).2).1 = false →
        ∃ n, ∀ m, n ≤ m → received toFloat
          (body R (drained c pid env ⟨tokens, .ok (), fun _ => false⟩ req m).own) =
            tokensRead tokens ++ [.terminator] := by
  constructor
  · intro c pid call own h
    obtain ⟨tokens, last, hframes, hlast⟩ := frames_of_traced h.traced
    rw [← frames_eq_filterMap] at hframes
    have htokens : delivered own = tokens := by
      have hnone : last.filterMap Frame.token? = [] := by
        rcases hlast with rfl | rfl | rfl | rfl | ⟨r, rfl⟩ <;> rfl
      rw [delivered, hframes, List.filterMap_append, filterMap_token?_tokenFrames, hnone,
        List.append_nil]
    refine ⟨last, hlast, by rw [htokens, hframes], ?_⟩
    rw [body, received_text, hframes, List.map_append, map_meaning_tokenFrames, htokens]
  · intro c pid env req tokens hadmitted
    obtain ⟨n, hends⟩ := @drained_ends c pid env ⟨tokens, .ok (), fun _ => false⟩ req hadmitted
    refine ⟨n, fun m hm => ?_⟩
    obtain ⟨-, htrace⟩ := hends m hm
    dsimp only at htrace
    rw [sentCount_connected, List.take_length] at htrace
    have hclosing : Feed.closing ⟨tokens, .ok (), fun _ => false⟩ = closingOf (.ok ()) := by
      rw [Feed.closing, sentCount_connected, if_neg (lt_irrefl _)]
    rw [body, received_text, frames_of_trace htrace, hclosing, List.map_append,
      map_meaning_tokenFrames]
    rfl

end Body

/-- Tokens that look like the framing itself. -/
theorem framing_unambiguous_hostile : ∃ n, ∀ m, n ≤ m →
    received (fun _ => .nan) (body .coded (drained {} 0 (fun _ => (0, {}))
      ⟨["[DONE]", "\n\ndata: [DONE]\n\n", "\r\"\\"], .ok (), fun _ => false⟩
      ⟨"gpt-4o-mini", "hi", none⟩ m).own) =
        [.token "[DONE]" 0, .token "\n\ndata: [DONE]\n\n" 1, .token "\r\"\\" 2, .terminator] := by
  exact (framing_unambiguous .coded fun _ => .nan).2 {} 0 (fun _ => (0, {}))
    ⟨"gpt-4o-mini", "hi", none⟩ ["[DONE]", "\n\ndata: [DONE]\n\n", "\r\"\\"] rfl

end StreamingService
end InferenceApi
