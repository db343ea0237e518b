import InferenceApi.CircuitBreaker.Theorems
import InferenceApi.Schemas

/-!
# What a request does between two awaits

The services run on one event loop: from one `await` that suspends to the next, a request
runs alone. Such a stretch is a `Block`: the circuit breaker it leaves, where the request
is suspended next, and what it did that others can tell, as `Event`s. Commands executed
by Redis leave events as well. The log of all events is for the specification only; no
function of the source reads it.
-/

namespace InferenceApi

/-- The usage dict of the API: `{"tokens_in": ..., "tokens_out": ...}`. -/
structure Usage where
  tokensIn : Json
  tokensOut : Json

/-- The usage as a JSON object. -/
def Usage.toJson (usage : Usage) : Json :=
  .obj [("tokens_in", usage.tokensIn), ("tokens_out", usage.tokensOut)]

/-- The commands `infer` sends to Redis. -/
inductive RedisOp
  | cacheGet
  | lockSet
  | pollGet
  | cacheSet
  | lockDel
deriving DecidableEq, Repr

/-- What a stream sends to its client. -/
inductive Frame
  | rejected (retryAfterS : ℤ)
  | token (chunk : String) (index : ℕ)
  | done
  | timeout
  | upstreamError
deriving DecidableEq, Repr

/-- `stream_status` of the audit record. -/
inductive StreamStatus
  | cancelled
  | success
  | timeout
  | upstreamError
  | error
deriving DecidableEq, Repr

/-- The observable actions of a request. -/
inductive Event
  /-- `is_open` was called and answered. -/
  | isOpen (answer : Bool)
  | recordFailure
  | recordSuccess
  /-- `adapter.infer` or `adapter.stream` was started. -/
  | providerStart (req : InferRequest)
  /-- `adapter.infer` returned or raised. -/
  | providerEnd (req : InferRequest) (result : Except Exn Json)
  /-- The usage recorder was called. -/
  | usageRecorded (model : String) (usage : Usage)
  /-- Redis executed a `SET NX` and stored the lock. -/
  | acquired (lockKey : String)
  /-- `try_acquire` returned `True`. -/
  | tryAcquired
  /-- Redis executed a `DEL`; `victim` is the request whose lock was there. -/
  | released (lockKey : String) (victim : Option ℕ)
  /-- Redis executed a `SETEX`. -/
  | cacheStored (cacheKey : String)
  /-- A command raised. -/
  | redisError (op : RedisOp) (e : RedisError)
  /-- `infer` returned or raised. -/
  | returned (out : Except Exn InferResponse)
  /-- A stream yielded a frame. -/
  | yielded (frame : Frame)
  /-- A stream dispatched its audit record. -/
  | audited (status : StreamStatus) (tokens : List String)
  /-- A stream ended or raised. -/
  | streamEnded (out : Except Exn Unit)

/-- An event with the request it belongs to and the time at which it happened. -/
structure Entry where
  pid : ℕ
  time : ℚ
  event : Event

/-- Everything that happened so far, newest first. -/
abbrev Log := List Entry

/-- The events of a block as log entries. -/
def stamp (pid : ℕ) (now : ℚ) (events : List Event) : Log := events.map fun e => ⟨pid, now, e⟩

lemma mem_stamp {pid pid' : ℕ} {now t : ℚ} {es : List Event} {e : Event} :
    (⟨pid', t, e⟩ : Entry) ∈ stamp pid now es ↔ pid' = pid ∧ t = now ∧ e ∈ es := by
  constructor
  · intro h
    obtain ⟨_, he, heq⟩ := List.mem_map.mp h
    cases heq
    exact ⟨rfl, rfl, he⟩
  · rintro ⟨rfl, rfl, he⟩
    exact List.mem_map_of_mem he

/-- The event is in the log. -/
def Happened (log : Log) (e : Event) : Prop := ∃ entry ∈ log, entry.event = e

lemma happened_stamp_append {pid : ℕ} {now : ℚ} {es : List Event} {log : Log} {e : Event} :
    Happened (stamp pid now es ++ log) e ↔ e ∈ es ∨ Happened log e := by
  simp only [Happened, stamp, List.mem_append, List.mem_map]
  constructor
  · rintro ⟨entry, ⟨e', he', rfl⟩ | hmem, rfl⟩
    · exact Or.inl he'
    · exact Or.inr ⟨entry, hmem, rfl⟩
  · rintro (he | ⟨entry, hmem, rfl⟩)
    · exact ⟨_, Or.inl ⟨e, he, rfl⟩, rfl⟩
    · exact ⟨entry, Or.inr hmem, rfl⟩

lemma Happened.append {log : Log} {e : Event} (h : Happened log e) (new : Log) :
    Happened (new ++ log) e := by
  obtain ⟨entry, hmem, he⟩ := h
  exact ⟨entry, List.mem_append_right _ hmem, he⟩

/-- A stretch of a request between two awaits; events newest first. -/
structure Block (σ : Type) where
  cb : CircuitBreaker
  status : σ
  events : List Event := []

/-! ## The breaker calls in a log -/

open CircuitBreaker SlidingWindow

/-- The breaker method an event is a call of. -/
def Event.op : Event → Option Op
  | .isOpen _ => some .isOpen
  | .recordFailure => some .recordFailure
  | .recordSuccess => some .recordSuccess
  | _ => none

/-- The history of the breaker. -/
def breakerCalls (log : Log) : History :=
  log.filterMap fun entry => entry.event.op.map fun op => ⟨op, entry.time⟩

lemma breakerCalls_append (log log' : Log) :
    breakerCalls (log ++ log') = breakerCalls log ++ breakerCalls log' := List.filterMap_append

lemma breakerCalls_cons_of_none {entry : Entry} (h : entry.event.op = none) (log : Log) :
    breakerCalls (entry :: log) = breakerCalls log := by
  rw [breakerCalls, List.filterMap_cons_none (by rw [h]; rfl)]
  rfl

lemma breakerCalls_cons_of_some {entry : Entry} {op : Op} (h : entry.event.op = some op)
    (log : Log) : breakerCalls (entry :: log) = ⟨op, entry.time⟩ :: breakerCalls log := by
  rw [breakerCalls, List.filterMap_cons_some (by rw [h]; rfl)]
  rfl

/-- Calls in the log happened when their entries say. -/
lemma mem_breakerCalls {log : Log} {call : Call} (h : call ∈ breakerCalls log) :
    ∃ entry ∈ log, entry.time = call.time := by
  obtain ⟨entry, hmem, hcall⟩ := List.mem_filterMap.mp h
  obtain ⟨op, -, rfl⟩ := Option.map_eq_some_iff.mp hcall
  exact ⟨entry, hmem, rfl⟩

/-- The breaker calls of a log in order are in order. -/
lemma newestFirst_breakerCalls {log : Log} (h : NewestFirst Entry.time log) :
    NewestFirst Call.time (breakerCalls log) := by
  refine List.Pairwise.filterMap _ (fun e older hle call hcall call' hcall' => ?_) h
  obtain ⟨_, -, rfl⟩ := Option.map_eq_some_iff.mp hcall
  obtain ⟨_, -, rfl⟩ := Option.map_eq_some_iff.mp hcall'
  exact hle

lemma before_breakerCalls {log : Log} {t : ℚ} (h : Before Entry.time t log) :
    Before Call.time t (breakerCalls log) := by
  intro call hcall
  obtain ⟨e, he, ht⟩ := mem_breakerCalls hcall
  exact ht ▸ h e he

/-- Every `is_open` in the log answered as the breaker of that moment did. -/
def AnswersFaithful (c : Config) : Log → Prop
  | [] => True
  | entry :: log =>
    (∀ answer, entry.event = .isOpen answer →
      answer = (isOpen c entry.time (replay c (breakerCalls log))).1) ∧ AnswersFaithful c log

/-- A block's events explain how it changed the breaker: each method that was called is
there, with the answer it gave. -/
inductive Explains (c : Config) (now : ℚ) (cb : CircuitBreaker) : List Event → CircuitBreaker → Prop
  | nil : Explains c now cb [] cb
  | isOpen {es : List Event} {cb' : CircuitBreaker} : Explains c now cb es cb' →
      Explains c now cb (.isOpen (isOpen c now cb').1 :: es) (isOpen c now cb').2
  | recordFailure {es : List Event} {cb' : CircuitBreaker} : Explains c now cb es cb' →
      Explains c now cb (.recordFailure :: es) (recordFailure c now cb')
  | recordSuccess {es : List Event} {cb' : CircuitBreaker} : Explains c now cb es cb' →
      Explains c now cb (.recordSuccess :: es) (recordSuccess cb')
  | other {es : List Event} {cb' : CircuitBreaker} {e : Event} : Explains c now cb es cb' →
      e.op = none → Explains c now cb (e :: es) cb'

variable {c : Config} {now : ℚ} {pid : ℕ} {cb cb' : CircuitBreaker} {es : List Event} {log : Log}

lemma stamp_cons_append (e : Event) :
    stamp pid now (e :: es) ++ log = ⟨pid, now, e⟩ :: (stamp pid now es ++ log) := rfl

/-- Replaying the log stays in step with the breaker. -/
theorem Explains.replay (h : Explains c now cb es cb')
    (hlog : CircuitBreaker.replay c (breakerCalls log) = cb) :
    CircuitBreaker.replay c (breakerCalls (stamp pid now es ++ log)) = cb' := by
  induction h with
  | nil => exact hlog
  | isOpen _ ih =>
    rw [stamp_cons_append, breakerCalls_cons_of_some rfl]
    exact congrArg (fun cb => (CircuitBreaker.isOpen c now cb).2) ih
  | recordFailure _ ih =>
    rw [stamp_cons_append, breakerCalls_cons_of_some rfl]
    exact congrArg (CircuitBreaker.recordFailure c now) ih
  | recordSuccess _ ih =>
    rw [stamp_cons_append, breakerCalls_cons_of_some rfl]
    exact congrArg CircuitBreaker.recordSuccess ih
  | other _ hop ih =>
    rw [stamp_cons_append, breakerCalls_cons_of_none hop]
    exact ih

/-- The answers a block got stay faithful in the log. -/
theorem Explains.faithful (h : Explains c now cb es cb')
    (hlog : CircuitBreaker.replay c (breakerCalls log) = cb) (hf : AnswersFaithful c log) :
    AnswersFaithful c (stamp pid now es ++ log) := by
  induction h with
  | nil => exact hf
  | isOpen hes ih =>
    rw [stamp_cons_append]
    refine And.intro (fun answer hans => ?_) ih
    rw [hes.replay hlog]
    exact (Event.isOpen.inj hans).symm
  | recordFailure _ ih =>
    rw [stamp_cons_append]
    exact And.intro (fun _ hans => by cases hans) ih
  | recordSuccess _ ih =>
    rw [stamp_cons_append]
    exact And.intro (fun _ hans => by cases hans) ih
  | other _ hop ih =>
    rw [stamp_cons_append]
    refine And.intro (fun answer hans => ?_) ih
    have hnone : Event.op (.isOpen answer) = none := (congrArg Event.op hans.symm).trans hop
    cases hnone

end InferenceApi
