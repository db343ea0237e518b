import InferenceApi.Python
import InferenceApi.Services.Events

/-!
# `StreamingService.stream`

`stream` of `app/services/streaming_service.py`: an async generator, suspended either at
a `yield` until its consumer asks for more or closes it, or at an `await` of the adapter's
next chunk or of `request.is_disconnected()`. The breaker check and the start of
`adapter.stream` happen without a suspension in between.
-/

namespace InferenceApi

open CircuitBreaker

namespace StreamingService

/-- Where a stream is suspended. `tokens` and `index` are the source's variables. -/
inductive Status
  /-- Created, not started. -/
  | created
  /-- At the `yield` of the rejection. -/
  | atRejection
  /-- Waiting for the adapter's next chunk. -/
  | awaitChunk (tokens : List String) (index : ℕ)
  /-- At `await request.is_disconnected()`. -/
  | awaitPoll (chunk : String) (tokens : List String) (index : ℕ)
  /-- At the `yield` of a token. -/
  | atToken (chunk : String) (tokens : List String) (index : ℕ)
  /-- At the `yield` of `[DONE]`. -/
  | atDone (tokens : List String)
  /-- At the `yield` of an error event. -/
  | atError (status : StreamStatus) (tokens : List String)
  /-- The generator ended or raised. -/
  | finished (out : Except Exn Unit)

/-- What resumes a stream. -/
inductive Input
  /-- The consumer asks for the next frame. -/
  | pull
  /-- The consumer closes the generator at a `yield`. -/
  | close
  /-- The adapter yields a chunk, or ends with `none`. -/
  | chunk (chunk : Option String)
  /-- `is_disconnected` answers. -/
  | poll (disconnected : Bool)
  /-- The awaited adapter or `is_disconnected` raises, or the task is cancelled. -/
  | raise (e : Exn)

variable (c : Config) (now : ℚ) (req : InferRequest) (cb : CircuitBreaker)

/-- The `finally` clause, and the end of the generator. -/
def finish (events : List Event) (status : StreamStatus) (tokens : List String)
    (out : Except Exn Unit) : Block Status :=
  ⟨cb, .finished out, .streamEnded out :: .audited status tokens :: events⟩

/-- From the start to the first suspension. -/
def start : Block Status :=
  let (isOpen, cb) := isOpen c now cb
  if isOpen then
    let retryAfter := pyInt (getRetryAfter c now cb)
    ⟨cb, .atRejection, [.yielded (.rejected retryAfter), .isOpen isOpen]⟩
  else ⟨cb, .awaitChunk [] 0, [.providerStart req, .isOpen isOpen]⟩

/-- The `except` clauses. -/
def handle (tokens : List String) (e : Exn) : Block Status :=
  match e with
  | .cancelledError => finish cb [] .cancelled tokens (.error e)
  | .timeoutError =>
    ⟨recordFailure c now cb, .atError .timeout tokens, [.yielded .timeout, .recordFailure]⟩
  | .upstreamProviderError _ =>
    ⟨recordFailure c now cb, .atError .upstreamError tokens,
      [.yielded .upstreamError, .recordFailure]⟩
  -- `except Exception`: no frame is sent, the exception goes on
  | e => finish (recordFailure c now cb) [.recordFailure] .error tokens (.error e)

/-- A stream of a request: its argument and where it is suspended. -/
structure StreamCall where
  req : InferRequest
  status : Status

/-- The stream runs until it suspends again. -/
def StreamCall.run (call : StreamCall) (input : Input) : Option (Block Status) :=
  match call.status, input with
  | .created, .pull => some (start c now call.req cb)
  -- closed before it ran: the body of the generator is never entered
  | .created, .close => some ⟨cb, .finished (.ok ()), [.streamEnded (.ok ())]⟩
  -- the `return` of a rejection is outside of the `try`: nothing is audited
  | .atRejection, .pull => some ⟨cb, .finished (.ok ()), [.streamEnded (.ok ())]⟩
  | .atRejection, .close => some ⟨cb, .finished (.ok ()), [.streamEnded (.ok ())]⟩
  | .awaitChunk tokens index, .chunk (some chunk) => some ⟨cb, .awaitPoll chunk tokens index, []⟩
  -- the end of the adapter, for whatever reason
  | .awaitChunk tokens _, .chunk none =>
    some ⟨recordSuccess cb, .atDone tokens, [.yielded .done, .recordSuccess]⟩
  | .awaitChunk tokens _, .raise e => some (handle c now cb tokens e)
  | .awaitPoll _ tokens _, .poll true => some (finish cb [] .cancelled tokens (.ok ()))
  | .awaitPoll chunk tokens index, .poll false =>
    some ⟨cb, .atToken chunk tokens index, [.yielded (.token chunk index)]⟩
  | .awaitPoll _ tokens _, .raise e => some (handle c now cb tokens e)
  | .atToken chunk tokens index, .pull =>
    some ⟨cb, .awaitChunk (tokens ++ [chunk]) (index + 1), []⟩
  | .atToken _ tokens _, .close => some (finish cb [] .cancelled tokens (.ok ()))
  -- the success is settled: closing the generator here does not change it
  | .atDone tokens, .pull => some (finish cb [] .success tokens (.ok ()))
  | .atDone tokens, .close => some (finish cb [] .success tokens (.ok ()))
  | .atError status tokens, .pull => some (finish cb [] status tokens (.ok ()))
  | .atError status tokens, .close => some (finish cb [] status tokens (.ok ()))
  | _, _ => none

/-- The runs of one stream in any environment, with its own events. -/
inductive StreamRun (c : Config) (pid : ℕ) : StreamCall → Log → Prop
  | create (req : InferRequest) : StreamRun c pid ⟨req, .created⟩ []
  | run {call : StreamCall} {own : Log} {now : ℚ} {cb : CircuitBreaker} {input : Input}
      {b : Block Status} :
      StreamRun c pid call own → call.run c now cb input = some b →
      StreamRun c pid { call with status := b.status } (stamp pid now b.events ++ own)

/-- The kinds of events a stream can have: none of Redis, none of `infer`. -/
def OfStream : Event → Prop
  | .isOpen _ => True
  | .recordFailure => True
  | .recordSuccess => True
  | .providerStart _ => True
  | .yielded _ => True
  | .audited _ _ => True
  | .streamEnded _ => True
  | _ => False

/-- A turn of a stream has stream events only. -/
theorem ofStream_of_mem {c : Config} {now : ℚ} {cb : CircuitBreaker} {call : StreamCall}
    {input : Input} {b : Block Status} (h : call.run c now cb input = some b) :
    ∀ e ∈ b.events, OfStream e := by
  have hfinish : ∀ {cb es status tokens out}, (∀ e ∈ es, OfStream e) →
      ∀ e ∈ (finish cb es status tokens out).events, OfStream e := fun hes =>
    List.forall_mem_cons.mpr ⟨trivial, List.forall_mem_cons.mpr ⟨trivial, hes⟩⟩
  have hhandle : ∀ tokens e', ∀ e ∈ (handle c now cb tokens e').events, OfStream e := by
    intro tokens e'
    unfold handle
    split
    · exact hfinish (List.forall_mem_nil _)
    · simp [OfStream]
    · simp [OfStream]
    · exact hfinish (by simp [OfStream])
  unfold StreamCall.run at h
  split at h
  case h_1 =>
    cases h
    unfold start
    dsimp only
    split <;> simp [OfStream]
  case h_7 => cases h; exact hhandle _ _
  case h_10 => cases h; exact hhandle _ _
  case h_17 => cases h
  all_goals
    cases h
    simp [finish, OfStream]

end StreamingService
end InferenceApi
