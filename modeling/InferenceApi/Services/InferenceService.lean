import InferenceApi.Cache
import InferenceApi.Lib.TtlStore
import InferenceApi.Python
import InferenceApi.Services.Events

/-!
# `InferenceService.infer`

`infer` of `app/services/inference_service.py` with `RequestCollapser` and the Redis side
of `SemanticCache`. The coroutine is cut at its awaits: `Status` says where a call is
suspended, `InferCall.exec` what Redis does with the command it is waiting for, and
`InferCall.run` what the call does when it is resumed. Calls on the circuit breaker do
not suspend. Logging and tracing are left out.
-/

namespace InferenceApi

open TtlStore CircuitBreaker

/-! ## Redis -/

/-- A value in Redis. `writer` is the request that stored it; no function reads it back. -/
structure Stored where
  value : Json
  writer : ℕ

/-- The part of the keyspace with cache entries and locks. -/
abbrev Redis := Store String ℚ Stored

/-- What becomes of a command: it is executed and answered, executed with the answer
lost, or not executed. -/
inductive Fate
  | ok
  | lost (e : RedisError)
  | failed (e : RedisError)

/-- What the caller sees of a command that would answer `x`. -/
def Fate.reply {α : Type} (fate : Fate) (x : α) : Except RedisError α :=
  match fate with
  | .ok => .ok x
  | .lost e => .error e
  | .failed e => .error e

/-- What is left behind: `after` if the command was executed, else `before`. -/
def Fate.effect {α : Type} (fate : Fate) (before after : α) : α :=
  match fate with
  | .ok => after
  | .lost _ => after
  | .failed _ => before

/-- The event of a command that raised. -/
def Fate.events (fate : Fate) (op : RedisOp) : List Event :=
  match fate with
  | .ok => []
  | .lost e => [.redisError op e]
  | .failed e => [.redisError op e]

/-- The command was executed. -/
def Fate.Executed : Fate → Prop
  | .ok => True
  | .lost _ => True
  | .failed _ => False

/-- The command raised `err`. -/
def Fate.Raised (fate : Fate) (err : RedisError) : Prop := fate = .lost err ∨ fate = .failed err

lemma Fate.mem_effect {fate : Fate} {es : List Event} {e : Event} :
    e ∈ fate.effect [] es ↔ fate.Executed ∧ e ∈ es := by
  cases fate <;> simp [effect, Executed]

lemma Fate.mem_events {fate : Fate} {op : RedisOp} {e : Event} :
    e ∈ fate.events op ↔ ∃ err, fate.Raised err ∧ e = .redisError op err := by
  cases fate <;> simp [events, Raised]

/-- What a command does not touch it leaves alone, whatever becomes of it. -/
lemma Fate.effect_frame {fate : Fate} {before after : Redis} {key : String}
    (h : after key = before key) : fate.effect before after key = before key := by
  cases fate with
  | ok => exact h
  | lost _ => exact h
  | failed _ => rfl

/-- `RequestCollapser.__init__`, with its defaults. -/
structure RequestCollapser where
  lockTtlS : ℚ := 10
  waitTimeoutS : ℚ := 15
  pollIntervalS : ℚ := 1 / 20

/-- `InferenceService.__init__` with what it is given: the breaker's parameters, the
cache's `ttl` (`Settings.cache_ttl` has `gt=0`), the collapser if the cache has a Redis
client, the usage recorder, and the library functions underneath. -/
structure InferenceService where
  breaker : Config := {}
  cacheTtl : ℕ := 300
  cacheTtl_pos : 1 ≤ cacheTtl := by decide
  collapser : Option RequestCollapser := some {}
  recordUsageMetrics : Option (String → Usage → Except Exn Unit) := none
  sha256 : String → String
  floatRepr : Json.FloatRepr
  ints : IntParser := .strict

/-- `self._cache.make_key`. -/
def InferenceService.makeKey (svc : InferenceService) (req : InferRequest) : String :=
  SemanticCache.makeKey svc.sha256 svc.floatRepr req

/-- `self._collapser._lock_key` of the cache key. -/
def InferenceService.lockKey (svc : InferenceService) (req : InferRequest) : String :=
  RequestCollapser.lockKey (svc.makeKey req)

/-- No entry is stored under the key of a lock. -/
lemma InferenceService.makeKey_ne_lockKey (svc : InferenceService) (req req' : InferRequest) :
    svc.makeKey req ≠ svc.lockKey req' := InferenceApi.makeKey_ne_lockKey _ _ _ _

/-- The value `infer` caches. -/
structure Completion where
  output : Json
  usage : Usage

/-- The dict `payload`. -/
def Completion.payload (done : Completion) (req : InferRequest) : Json :=
  .obj [("output", done.output), ("model", .str req.model), ("usage", done.usage.toJson)]

/-- `SemanticCache.get`. -/
def SemanticCache.get (svc : InferenceService) (now : ℚ) (redis : Redis) (req : InferRequest) :
    Option Json :=
  (TtlStore.get redis now (svc.makeKey req)).map Stored.value

/-- `SemanticCache.set`. -/
def SemanticCache.set (svc : InferenceService) (now : ℚ) (pid : ℕ) (redis : Redis)
    (req : InferRequest) (value : Json) : Redis :=
  setEx redis (svc.makeKey req) ⟨value, pid⟩ (now + svc.cacheTtl)

/-- `RequestCollapser.try_acquire`: `SET NX EX`. -/
def RequestCollapser.tryAcquire (rc : RequestCollapser) (now : ℚ) (pid : ℕ) (redis : Redis)
    (key : String) : Bool × Redis :=
  setNx redis now key ⟨.str "1", pid⟩ (now + rc.lockTtlS)

/-- `RequestCollapser.release`: `DEL`, whoever holds the lock. -/
def RequestCollapser.release (redis : Redis) (key : String) : Redis := del redis key

lemma SemanticCache.set_of_ne {svc : InferenceService} {now : ℚ} {pid : ℕ} {redis : Redis}
    {req : InferRequest} {value : Json} {key : String} (h : key ≠ svc.makeKey req) :
    SemanticCache.set svc now pid redis req value key = redis key := setEx_of_ne h

lemma RequestCollapser.release_of_ne {redis : Redis} {key key' : String} (h : key' ≠ key) :
    RequestCollapser.release redis key key' = redis key' := del_of_ne h

/-- A `SET NX` stores a lock only where none is live. -/
lemma RequestCollapser.tryAcquire_cases (rc : RequestCollapser) (now : ℚ) (pid : ℕ)
    (redis : Redis) (key : String) :
    (TtlStore.get redis now key = none ∧
      rc.tryAcquire now pid redis key =
        (true, setEx redis key ⟨.str "1", pid⟩ (now + rc.lockTtlS))) ∨
    ((∃ w, TtlStore.get redis now key = some w) ∧
      rc.tryAcquire now pid redis key = (false, redis)) := by
  unfold RequestCollapser.tryAcquire
  cases h : TtlStore.get redis now key with
  | none => exact Or.inl ⟨rfl, setNx_of_none h⟩
  | some w => exact Or.inr ⟨⟨w, rfl⟩, setNx_of_some h⟩

/-- A `SET NX` stores nothing under other keys. -/
lemma RequestCollapser.tryAcquire_of_ne {rc : RequestCollapser} {now : ℚ} {pid : ℕ}
    {redis : Redis} {key key' : String} (h : key' ≠ key) :
    (rc.tryAcquire now pid redis key).2 key' = redis key' := by
  rcases rc.tryAcquire_cases now pid redis key with ⟨-, hT⟩ | ⟨-, hT⟩
  · rw [hT]
    exact Function.update_of_ne h _ _
  · rw [hT]

/-! ## Where a call can be suspended -/

/-- The awaits of `infer` that suspend. A command is first sent (`reply` is `none`), then
executed and answered. -/
inductive Status
  /-- `self._cache.get`. -/
  | cacheGet (reply : Option (Except RedisError (Option Json)))
  /-- `self._collapser.try_acquire`. -/
  | lockSet (reply : Option (Except RedisError Bool))
  /-- `cache.get` in `wait_for_value`. -/
  | pollGet (deadline : ℚ) (reply : Option (Except RedisError (Option Json)))
  /-- `asyncio.sleep` in `wait_for_value`. -/
  | sleeping (deadline wakeAt : ℚ)
  /-- `self._adapter.infer`. -/
  | provider (hasLock : Bool)
  /-- `self._cache.set`. -/
  | cacheSet (hasLock : Bool) (done : Completion) (reply : Option (Except RedisError Unit))
  /-- `self._collapser.release` in the `finally`, with what is to happen after it. -/
  | lockDel (pending : Except Exn Completion) (reply : Option (Except RedisError Unit))
  /-- `infer` returned or raised. -/
  | finished (out : Except Exn InferResponse)

/-- A call of `infer`: its arguments, `t0`, and where it is suspended. `since` is the time
at which it got there; only schedules speak of it. -/
structure InferCall where
  requestId : String
  req : InferRequest
  t0 : ℚ
  status : Status
  since : ℚ

/-- A new call, up to its first await. -/
def InferCall.start (now : ℚ) (requestId : String) (req : InferRequest) : InferCall :=
  ⟨requestId, req, now, .cacheGet none, now⟩

/-- The call, suspended somewhere else. -/
def InferCall.goto (call : InferCall) (now : ℚ) (status : Status) : InferCall :=
  { call with status, since := now }

@[simp] lemma InferCall.goto_req (call : InferCall) (now : ℚ) (status : Status) :
    (call.goto now status).req = call.req := rfl

@[simp] lemma InferCall.goto_status (call : InferCall) (now : ℚ) (status : Status) :
    (call.goto now status).status = status := rfl

/-! ## What Redis does -/

/-- What executing a command leaves: the keyspace, the answered call, events. -/
structure Executed where
  redis : Redis
  status : Status
  events : List Event

/-- Redis deals with the command the call has sent. -/
def InferCall.exec (svc : InferenceService) (now : ℚ) (pid : ℕ) (fate : Fate) (redis : Redis)
    (call : InferCall) : Option Executed :=
  match call.status, svc.collapser with
  | .cacheGet none, _ =>
    some
      { redis
        status := .cacheGet (some (fate.reply (SemanticCache.get svc now redis call.req)))
        events := fate.events .cacheGet }
  -- a lost answer leaves the lock behind: the call will not know that it has it
  | .lockSet none, some rc =>
    let (acquired, redis') := rc.tryAcquire now pid redis (svc.lockKey call.req)
    some
      { redis := fate.effect redis redis'
        status := .lockSet (some (fate.reply acquired))
        events := fate.effect [] (if acquired then [.acquired (svc.lockKey call.req)] else [])
          ++ fate.events .lockSet }
  | .pollGet deadline none, _ =>
    some
      { redis
        status := .pollGet deadline (some (fate.reply (SemanticCache.get svc now redis call.req)))
        events := fate.events .pollGet }
  | .cacheSet hasLock done none, _ =>
    some
      { redis := fate.effect redis
          (SemanticCache.set svc now pid redis call.req (done.payload call.req))
        status := .cacheSet hasLock done (some (fate.reply ()))
        events := fate.effect [] [.cacheStored (svc.makeKey call.req)] ++ fate.events .cacheSet }
  | .lockDel pending none, _ =>
    some
      { redis := fate.effect redis (RequestCollapser.release redis (svc.lockKey call.req))
        status := .lockDel pending (some (fate.reply ()))
        -- the release does not look whose lock it deletes; the event records it
        events := fate.effect []
            [.released (svc.lockKey call.req)
              ((TtlStore.get redis now (svc.lockKey call.req)).map Stored.writer)]
          ++ fate.events .lockDel }
  | _, _ => none

/-! ## What the call does -/

section Blocks

variable (svc : InferenceService) (now : ℚ) (call : InferCall) (cb : CircuitBreaker)

/-- `infer` returns or raises. -/
def finish (events : List Event) (out : Except Exn InferResponse) : Block Status :=
  ⟨cb, .finished out, .returned out :: events⟩

/-- The call of `self._adapter.infer`. -/
def startProvider (events : List Event) (hasLock : Bool) : Block Status :=
  ⟨cb, .provider hasLock, .providerStart call.req :: events⟩

/-- `_build_response`. -/
def buildResponse (output model usage : Json) (cacheHit : Bool) : Except Exn InferResponse :=
  InferResponse.validate svc.ints call.requestId output model usage ((now - call.t0) * 1000)
    cacheHit

/-- The response to a value from the cache. -/
def respondCached (cached : Json) : Except Exn InferResponse := do
  let output ← subscript cached "output"
  let model ← subscript cached "model"
  let usage ← subscript cached "usage"
  buildResponse svc now call output model usage true

/-- The circuit breaker check and, when it lets the call through, the way to the lock or,
without a collapser, to the provider. -/
def circuitBreakerCheck : Block Status :=
  let (isOpen, cb) := isOpen svc.breaker now cb
  if isOpen then
    finish cb [.isOpen isOpen]
      (.error (.circuitOpenError (pyInt (getRetryAfter svc.breaker now cb))))
  else
    match svc.collapser with
    | none => startProvider call cb [.isOpen isOpen] false
    | some _ => ⟨cb, .lockSet none, [.isOpen isOpen]⟩

/-- After `self._cache.get`. -/
def afterCacheGet (reply : Except RedisError (Option Json)) : Block Status :=
  match reply with
  | .ok (some cached) => finish cb [] (respondCached svc now call cached)
  | .ok none => circuitBreakerCheck svc now call cb
  -- a cache that cannot be reached counts as a miss
  | .error .connectionError => circuitBreakerCheck svc now call cb
  | .error e => finish cb [] (.error (.redis e))

/-- The head of the `while` loop of `wait_for_value`; past the deadline it returns `None`
and the call goes to the provider by itself. -/
def pollLoop (deadline : ℚ) : Block Status :=
  if now < deadline then ⟨cb, .pollGet deadline none, []⟩ else startProvider call cb [] false

/-- After `try_acquire`. -/
def afterLockSet (rc : RequestCollapser) (reply : Except RedisError Bool) : Block Status :=
  match reply with
  | .ok true => startProvider call cb [.tryAcquired] true
  | .ok false => pollLoop now call cb (now + rc.waitTimeoutS)
  -- `has_lock` is still `False`, so the call waits, though perhaps for nobody
  | .error .connectionError => pollLoop now call cb (now + rc.waitTimeoutS)
  | .error e => finish cb [] (.error (.redis e))

/-- After `cache.get` in `wait_for_value`. -/
def afterPollGet (rc : RequestCollapser) (deadline : ℚ)
    (reply : Except RedisError (Option Json)) : Block Status :=
  match reply with
  | .ok (some value) => finish cb [] (respondCached svc now call value)
  | .ok none => ⟨cb, .sleeping deadline (now + rc.pollIntervalS), []⟩
  -- the wait as a whole is given up, not only this look
  | .error .connectionError => startProvider call cb [] false
  | .error e => finish cb [] (.error (.redis e))

/-- `raw_usage` and `usage`. -/
def mappedUsage (result : Json) : Except Exn Usage := do
  let rawUsage ← dictGet result "usage" (.obj [])
  let tokensIn ← dictGet rawUsage "prompt_tokens" (.num (.int 0))
  let tokensOut ← dictGet rawUsage "completion_tokens" (.num (.int 0))
  return ⟨tokensIn, tokensOut⟩

/-- The call of the usage recorder, if there is one. -/
def recordUsage (usage : Usage) : List Event × Except Exn Unit :=
  match svc.recordUsageMetrics with
  | none => ([], .ok ())
  | some record => ([.usageRecorded call.req.model usage], record call.req.model usage)

/-- From `record_success` to the cache write. -/
def afterResult (hasLock : Bool) (result : Json) : Block Status :=
  -- the success is recorded before anything of the result is looked at
  let cb := recordSuccess cb
  let events : List Event := [.recordSuccess, .providerEnd call.req (.ok result)]
  match mappedUsage result with
  | .error e => finish cb events (.error e)
  | .ok usage =>
    let (recorded, outcome) := recordUsage svc call usage
    let events := recorded ++ events
    match outcome with
    | .error e => finish cb events (.error e)
    | .ok () =>
      match subscript result "output" with
      | .error e => finish cb events (.error e)
      | .ok output => ⟨cb, .cacheSet hasLock ⟨output, usage⟩ none, events⟩

/-- After `self._adapter.infer`. -/
def afterProvider (hasLock : Bool) (result : Except Exn Json) : Block Status :=
  match result with
  | .error e =>
    -- cancellation passes by `except TimeoutError` and `except Exception`
    if e.isException then
      finish (recordFailure svc.breaker now cb) [.recordFailure, .providerEnd call.req (.error e)]
        (.error e)
    else finish cb [.providerEnd call.req (.error e)] (.error e)
  | .ok result => afterResult svc call cb hasLock result

/-- After the `try` around the cache write: the response, or the exception that was
pending. -/
def conclude (pending : Except Exn Completion) : Block Status :=
  match pending with
  -- the `finally` has run; what was raised goes on
  | .error e => finish cb [] (.error e)
  | .ok done =>
    finish cb []
      (buildResponse svc now call done.output (.str call.req.model) done.usage.toJson false)

/-- After `self._cache.set`: the `finally` releases the lock if the call holds one. -/
def afterCacheSet (hasLock : Bool) (done : Completion) (reply : Except RedisError Unit) :
    Block Status :=
  let pending : Except Exn Completion :=
    match reply with
    | .ok () => .ok done
    | .error .connectionError => .ok done
    | .error e => .error (.redis e)
  -- the `finally` runs with an exception pending as well
  if hasLock && svc.collapser.isSome then ⟨cb, .lockDel pending none, []⟩
  else conclude svc now call cb pending

/-- After `self._collapser.release`. -/
def afterLockDel (pending : Except Exn Completion) (reply : Except RedisError Unit) :
    Block Status :=
  match reply with
  | .ok () => conclude svc now call cb pending
  | .error .connectionError => conclude svc now call cb pending
  -- an exception raised in the `finally` replaces the pending one
  | .error e => finish cb [] (.error (.redis e))

end Blocks

/-- What resumes a call: the answer or the wake-up it waits for, or its adapter. -/
inductive Input
  | resume
  | adapter (result : Except Exn Json)

/-- The call runs until it suspends again. -/
def InferCall.run (svc : InferenceService) (now : ℚ) (cb : CircuitBreaker) (call : InferCall)
    (input : Input) : Option (Block Status) :=
  match input, call.status, svc.collapser with
  | .resume, .cacheGet (some reply), _ => some (afterCacheGet svc now call cb reply)
  | .resume, .lockSet (some reply), some rc => some (afterLockSet now call cb rc reply)
  | .resume, .pollGet deadline (some reply), some rc =>
    some (afterPollGet svc now call cb rc deadline reply)
  | .resume, .sleeping deadline wakeAt, some _ =>
    -- the sleeper may wake up late, and looks at the clock before it polls again
    if wakeAt ≤ now then some (pollLoop now call cb deadline) else none
  | .resume, .cacheSet hasLock done (some reply), _ =>
    some (afterCacheSet svc now call cb hasLock done reply)
  | .resume, .lockDel pending (some reply), _ => some (afterLockDel svc now call cb pending reply)
  | .adapter result, .provider hasLock, _ => some (afterProvider svc now call cb hasLock result)
  | _, _, _ => none

end InferenceApi
