import InferenceApi.Services.InferenceService

/-!
# The turns of a call, case by case

`exec` and `run` are taken apart here and nowhere else: `exec_case` and `run_case` give
the place a call was in, `exec_event` and `run_event` what an event says about it, and
`afterResult_status` where a result leads. `InferRun` is a run of one call in an arbitrary
environment.
-/

namespace InferenceApi

open TtlStore CircuitBreaker

/-! ## The cases of `exec` and `run` -/

section Cases

variable {svc : InferenceService} {now : ℚ} {pid : ℕ} {fate : Fate} {redis : Redis}
  {call : InferCall} {cb cb' : CircuitBreaker}

/-- What Redis does with each command. -/
inductive ExecCase (svc : InferenceService) (now : ℚ) (pid : ℕ) (fate : Fate) (redis : Redis)
    (call : InferCall) : Executed → Prop
  | cacheGet : call.status = .cacheGet none →
      ExecCase svc now pid fate redis call
        { redis
          status := .cacheGet (some (fate.reply (SemanticCache.get svc now redis call.req)))
          events := fate.events .cacheGet }
  | lockSet {rc : RequestCollapser} : call.status = .lockSet none → svc.collapser = some rc →
      ExecCase svc now pid fate redis call
        { redis := fate.effect redis (rc.tryAcquire now pid redis (svc.lockKey call.req)).2
          status := .lockSet
            (some (fate.reply (rc.tryAcquire now pid redis (svc.lockKey call.req)).1))
          events := fate.effect []
              (if (rc.tryAcquire now pid redis (svc.lockKey call.req)).1
                then [.acquired (svc.lockKey call.req)] else [])
            ++ fate.events .lockSet }
  | pollGet {deadline : ℚ} : call.status = .pollGet deadline none →
      ExecCase svc now pid fate redis call
        { redis
          status := .pollGet deadline
            (some (fate.reply (SemanticCache.get svc now redis call.req)))
          events := fate.events .pollGet }
  | cacheSet {hasLock : Bool} {done : Completion} : call.status = .cacheSet hasLock done none →
      ExecCase svc now pid fate redis call
        { redis := fate.effect redis
            (SemanticCache.set svc now pid redis call.req (done.payload call.req))
          status := .cacheSet hasLock done (some (fate.reply ()))
          events := fate.effect [] [.cacheStored (svc.makeKey call.req)] ++ fate.events .cacheSet }
  | lockDel {pending : Except Exn Completion} : call.status = .lockDel pending none →
      ExecCase svc now pid fate redis call
        { redis := fate.effect redis (RequestCollapser.release redis (svc.lockKey call.req))
          status := .lockDel pending (some (fate.reply ()))
          events := fate.effect []
              [.released (svc.lockKey call.req)
                ((TtlStore.get redis now (svc.lockKey call.req)).map Stored.writer)]
            ++ fate.events .lockDel }

/-- The one place where `exec` is taken apart. -/
theorem exec_case {x : Executed} (h : call.exec svc now pid fate redis = some x) :
    ExecCase svc now pid fate redis call x := by
  unfold InferCall.exec at h
  split at h
  · next hst => cases h; exact .cacheGet hst
  · next hst hrc => cases h; exact .lockSet hst hrc
  · next hst => cases h; exact .pollGet hst
  · next hst => cases h; exact .cacheSet hst
  · next hst => cases h; exact .lockDel hst
  · cases h

/-- The command a status waits for. -/
def Status.Awaits : Status → RedisOp → Prop
  | .cacheGet none, .cacheGet => True
  | .lockSet none, .lockSet => True
  | .pollGet _ none, .pollGet => True
  | .cacheSet _ _ none, .cacheSet => True
  | .lockDel _ none, .lockDel => True
  | _, _ => False

/-- What an event of a command says about it. -/
inductive ExecEvent (svc : InferenceService) (now : ℚ) (pid : ℕ) (fate : Fate) (redis : Redis)
    (call : InferCall) : Event → Prop
  | acquired {rc : RequestCollapser} : call.status = .lockSet none → svc.collapser = some rc →
      fate.Executed → (rc.tryAcquire now pid redis (svc.lockKey call.req)).1 = true →
      ExecEvent svc now pid fate redis call (.acquired (svc.lockKey call.req))
  | cacheStored {hasLock : Bool} {done : Completion} :
      call.status = .cacheSet hasLock done none → fate.Executed →
      ExecEvent svc now pid fate redis call (.cacheStored (svc.makeKey call.req))
  | released {pending : Except Exn Completion} : call.status = .lockDel pending none →
      fate.Executed →
      ExecEvent svc now pid fate redis call (.released (svc.lockKey call.req)
        ((TtlStore.get redis now (svc.lockKey call.req)).map Stored.writer))
  | redisError {op : RedisOp} {err : RedisError} : call.status.Awaits op → fate.Raised err →
      ExecEvent svc now pid fate redis call (.redisError op err)

/-- The events of a command, one by one. -/
theorem exec_event {x : Executed} (h : call.exec svc now pid fate redis = some x) {e : Event}
    (he : e ∈ x.events) : ExecEvent svc now pid fate redis call e := by
  -- each command may also have failed, whether or not it was executed
  have hraised : ∀ {op}, call.status.Awaits op → e ∈ fate.events op →
      ExecEvent svc now pid fate redis call e := by
    intro op hop he
    obtain ⟨err, hraised, rfl⟩ := Fate.mem_events.mp he
    exact .redisError hop hraised
  cases exec_case h with
  | cacheGet hst => exact hraised (by rw [hst]; trivial) he
  | lockSet hst hrc =>
    rcases List.mem_append.mp he with he | he
    · obtain ⟨hexec, he⟩ := Fate.mem_effect.mp he
      split at he
      · next hacq =>
        rw [List.mem_singleton.mp he]
        exact .acquired hst hrc hexec hacq
      · cases he
    · exact hraised (by rw [hst]; trivial) he
  | pollGet hst => exact hraised (by rw [hst]; trivial) he
  | cacheSet hst =>
    rcases List.mem_append.mp he with he | he
    · obtain ⟨hexec, he⟩ := Fate.mem_effect.mp he
      rw [List.mem_singleton.mp he]
      exact .cacheStored hst hexec
    · exact hraised (by rw [hst]; trivial) he
  | lockDel hst =>
    rcases List.mem_append.mp he with he | he
    · obtain ⟨hexec, he⟩ := Fate.mem_effect.mp he
      rw [List.mem_singleton.mp he]
      exact .released hst hexec
    · exact hraised (by rw [hst]; trivial) he

/-- What a call does in each place. -/
inductive RunCase (svc : InferenceService) (now : ℚ) (cb : CircuitBreaker) (call : InferCall) :
    Input → Block Status → Prop
  | cacheGet {reply : Except RedisError (Option Json)} :
      call.status = .cacheGet (some reply) →
      RunCase svc now cb call .resume (afterCacheGet svc now call cb reply)
  | lockSet {rc : RequestCollapser} {reply : Except RedisError Bool} :
      call.status = .lockSet (some reply) → svc.collapser = some rc →
      RunCase svc now cb call .resume (afterLockSet now call cb rc reply)
  | pollGet {rc : RequestCollapser} {deadline : ℚ} {reply : Except RedisError (Option Json)} :
      call.status = .pollGet deadline (some reply) → svc.collapser = some rc →
      RunCase svc now cb call .resume (afterPollGet svc now call cb rc deadline reply)
  | sleeping {deadline wakeAt : ℚ} : call.status = .sleeping deadline wakeAt → wakeAt ≤ now →
      RunCase svc now cb call .resume (pollLoop now call cb deadline)
  | cacheSet {hasLock : Bool} {done : Completion} {reply : Except RedisError Unit} :
      call.status = .cacheSet hasLock done (some reply) →
      RunCase svc now cb call .resume (afterCacheSet svc now call cb hasLock done reply)
  | lockDel {pending : Except Exn Completion} {reply : Except RedisError Unit} :
      call.status = .lockDel pending (some reply) →
      RunCase svc now cb call .resume (afterLockDel svc now call cb pending reply)
  | provider {hasLock : Bool} {result : Except Exn Json} : call.status = .provider hasLock →
      RunCase svc now cb call (.adapter result) (afterProvider svc now call cb hasLock result)

/-- The one place where `run` is taken apart. -/
theorem run_case {input : Input} {b : Block Status} (h : call.run svc now cb input = some b) :
    RunCase svc now cb call input b := by
  unfold InferCall.run at h
  split at h
  · next hst => cases h; exact .cacheGet hst
  · next hst hrc => cases h; exact .lockSet hst hrc
  · next hst hrc => cases h; exact .pollGet hst hrc
  · next hst _ =>
    split at h
    · next hwake => cases h; exact .sleeping hst hwake
    · cases h
  · next hst => cases h; exact .cacheSet hst
  · next hst => cases h; exact .lockDel hst
  · next hst => cases h; exact .provider hst
  · cases h

/-- What an event of a turn says about the turn. -/
inductive EventCase (svc : InferenceService) (now : ℚ) (cb : CircuitBreaker) (call : InferCall)
    (input : Input) (b : Block Status) : Event → Prop
  | isOpen {reply : Except RedisError (Option Json)} : call.status = .cacheGet (some reply) →
      EventCase svc now cb call input b (.isOpen (isOpen svc.breaker now cb).1)
  | tryAcquired : call.status = .lockSet (some (.ok true)) → b.status = .provider true →
      EventCase svc now cb call input b .tryAcquired
  | providerStart {hasLock : Bool} : b.status = .provider hasLock →
      EventCase svc now cb call input b (.providerStart call.req)
  | providerEnd {hasLock : Bool} {result : Except Exn Json} : call.status = .provider hasLock →
      input = .adapter result → EventCase svc now cb call input b (.providerEnd call.req result)
  | recordSuccess {hasLock : Bool} {result : Json} : call.status = .provider hasLock →
      input = .adapter (.ok result) → EventCase svc now cb call input b .recordSuccess
  | recordFailure {hasLock : Bool} {e : Exn} : call.status = .provider hasLock →
      input = .adapter (.error e) → EventCase svc now cb call input b .recordFailure
  | usageRecorded {hasLock : Bool} {result : Json} {usage : Usage} :
      call.status = .provider hasLock → input = .adapter (.ok result) →
      mappedUsage result = .ok usage →
      EventCase svc now cb call input b (.usageRecorded call.req.model usage)
  | returned {out : Except Exn InferResponse} : b.status = .finished out →
      EventCase svc now cb call input b (.returned out)

section EventCases

variable {input : Input}

lemma events_finish {es : List Event} {out : Except Exn InferResponse}
    (hes : ∀ e ∈ es, EventCase svc now cb call input (finish cb' es out) e) :
    ∀ e ∈ (finish cb' es out).events, EventCase svc now cb call input (finish cb' es out) e :=
  List.forall_mem_cons.mpr ⟨.returned rfl, hes⟩

lemma events_startProvider {es : List Event} {hasLock : Bool}
    (hes : ∀ e ∈ es, EventCase svc now cb call input (startProvider call cb' es hasLock) e) :
    ∀ e ∈ (startProvider call cb' es hasLock).events,
      EventCase svc now cb call input (startProvider call cb' es hasLock) e :=
  List.forall_mem_cons.mpr ⟨.providerStart rfl, hes⟩

lemma events_circuitBreakerCheck {reply : Except RedisError (Option Json)}
    (hst : call.status = .cacheGet (some reply)) :
    ∀ e ∈ (circuitBreakerCheck svc now call cb).events,
      EventCase svc now cb call input (circuitBreakerCheck svc now call cb) e := by
  -- the check is asked on both branches
  have hcheck : ∀ b, ∀ e ∈ [Event.isOpen (isOpen svc.breaker now cb).1],
      EventCase svc now cb call input b e :=
    fun b => List.forall_mem_singleton.mpr (.isOpen hst)
  unfold circuitBreakerCheck
  dsimp only
  split
  · exact events_finish (hcheck _)
  · split
    · exact events_startProvider (hcheck _)
    · exact hcheck _

lemma events_pollLoop (deadline : ℚ) :
    ∀ e ∈ (pollLoop now call cb deadline).events,
      EventCase svc now cb call input (pollLoop now call cb deadline) e := by
  unfold pollLoop
  split
  · exact List.forall_mem_nil _
  · exact events_startProvider (List.forall_mem_nil _)

lemma events_conclude (pending : Except Exn Completion) :
    ∀ e ∈ (conclude svc now call cb pending).events,
      EventCase svc now cb call input (conclude svc now call cb pending) e := by
  unfold conclude
  split <;> exact events_finish (List.forall_mem_nil _)

lemma events_afterResult {hasLock : Bool} {result : Json} (hst : call.status = .provider hasLock)
    (hin : input = .adapter (.ok result)) :
    ∀ e ∈ (afterResult svc call cb hasLock result).events,
      EventCase svc now cb call input (afterResult svc call cb hasLock result) e := by
  -- the success is recorded before the usage is read, so it is there on every branch
  have hsuccess : ∀ b, ∀ e ∈ [Event.recordSuccess, .providerEnd call.req (.ok result)],
      EventCase svc now cb call input b e := fun b =>
    List.forall_mem_cons.mpr
      ⟨.recordSuccess hst hin, List.forall_mem_singleton.mpr (.providerEnd hst hin)⟩
  unfold afterResult
  dsimp only
  split
  · exact events_finish (hsuccess _)
  · next usage husage =>
    have hrecorded : ∀ b, ∀ e ∈ (recordUsage svc call usage).1 ++
        [Event.recordSuccess, .providerEnd call.req (.ok result)],
        EventCase svc now cb call input b e := by
      intro b
      unfold recordUsage
      split
      · exact hsuccess b
      · exact List.forall_mem_cons.mpr ⟨.usageRecorded hst hin husage, hsuccess b⟩
    split
    · exact events_finish (hrecorded _)
    · split
      · exact events_finish (hrecorded _)
      · exact hrecorded _

/-- The events of a turn, one by one. -/
theorem run_event {b : Block Status} (h : call.run svc now cb input = some b) :
    ∀ e ∈ b.events, EventCase svc now cb call input b e := by
  cases run_case h with
  | cacheGet hst =>
    unfold afterCacheGet
    split
    · exact events_finish (List.forall_mem_nil _)
    · exact events_circuitBreakerCheck hst
    · exact events_circuitBreakerCheck hst
    · exact events_finish (List.forall_mem_nil _)
  | lockSet hst =>
    unfold afterLockSet
    split
    · exact events_startProvider (List.forall_mem_singleton.mpr (.tryAcquired hst rfl))
    · exact events_pollLoop _
    · exact events_pollLoop _
    · exact events_finish (List.forall_mem_nil _)
  | pollGet =>
    unfold afterPollGet
    split
    · exact events_finish (List.forall_mem_nil _)
    · exact List.forall_mem_nil _
    · exact events_startProvider (List.forall_mem_nil _)
    · exact events_finish (List.forall_mem_nil _)
  | sleeping => exact events_pollLoop _
  | cacheSet =>
    unfold afterCacheSet
    dsimp only
    split
    · exact List.forall_mem_nil _
    · exact events_conclude _
  | lockDel =>
    unfold afterLockDel
    split
    · exact events_conclude _
    · exact events_conclude _
    · exact events_finish (List.forall_mem_nil _)
  | provider hst =>
    unfold afterProvider
    split
    · split
      · exact events_finish (List.forall_mem_cons.mpr
          ⟨.recordFailure hst rfl, List.forall_mem_singleton.mpr (.providerEnd hst rfl)⟩)
      · exact events_finish (List.forall_mem_singleton.mpr (.providerEnd hst rfl))
    · exact events_afterResult hst rfl

end EventCases

end Cases

/-! ## From a result to the cache write -/

/-- `infer` gets from the adapter's result to the cache write, with this completion. -/
structure Completes (svc : InferenceService) (req : InferRequest) (result : Json)
    (done : Completion) : Prop where
  usage : mappedUsage result = .ok done.usage
  recorded : ∀ record, svc.recordUsageMetrics = some record → record req.model done.usage = .ok ()
  output : subscript result "output" = .ok done.output

/-- A result completes in one way only. -/
lemma Completes.unique {svc : InferenceService} {req : InferRequest} {result : Json}
    {done done' : Completion} (h : Completes svc req result done)
    (h' : Completes svc req result done') : done = done' := by
  have houtput := Except.ok.inj (h.output.symm.trans h'.output)
  have husage := Except.ok.inj (h.usage.symm.trans h'.usage)
  cases done
  cases done'
  simp_all

/-- After a result, the call is at the cache write or has raised. -/
theorem afterResult_status (svc : InferenceService) (call : InferCall) (cb : CircuitBreaker)
    (hasLock : Bool) (result : Json) :
    (∃ done, Completes svc call.req result done ∧
      (afterResult svc call cb hasLock result).status = .cacheSet hasLock done none) ∨
    ((∀ done, ¬ Completes svc call.req result done) ∧
      ∃ e, (afterResult svc call cb hasLock result).status = .finished (.error e)) := by
  unfold afterResult
  dsimp only
  cases husage : mappedUsage result with
  | error e =>
    refine Or.inr ⟨fun done h => ?_, e, rfl⟩
    rw [h.usage] at husage
    cases husage
  | ok usage =>
    -- the recorder is called before the output is read, and may raise
    cases hrec : (recordUsage svc call usage).2 with
    | error e =>
      simp only [hrec]
      refine Or.inr ⟨fun done h => ?_, e, rfl⟩
      obtain rfl : done.usage = usage := Except.ok.inj (h.usage.symm.trans husage)
      unfold recordUsage at hrec
      split at hrec
      · cases hrec
      · next record hrecord =>
        rw [h.recorded record hrecord] at hrec
        cases hrec
    | ok =>
      simp only [hrec]
      cases houtput : subscript result "output" with
      | error e =>
        refine Or.inr ⟨fun done h => ?_, e, rfl⟩
        rw [h.output] at houtput
        cases houtput
      | ok output =>
        refine Or.inl ⟨⟨output, usage⟩, ⟨husage, fun record hrecord => ?_, houtput⟩, rfl⟩
        unfold recordUsage at hrec
        rw [hrecord] at hrec
        exact hrec

/-- A result is a success, whatever comes of it. -/
lemma afterResult_cb {svc : InferenceService} {call : InferCall} {cb : CircuitBreaker}
    {hasLock : Bool} {result : Json} :
    (afterResult svc call cb hasLock result).cb = recordSuccess cb := by
  unfold afterResult
  dsimp only
  split
  · rfl
  · split
    · rfl
    · split <;> rfl

/-- The result is logged, whatever comes of it. -/
lemma providerEnd_mem_afterResult {svc : InferenceService} {call : InferCall}
    {cb : CircuitBreaker} {hasLock : Bool} {result : Json} :
    .providerEnd call.req (.ok result) ∈ (afterResult svc call cb hasLock result).events := by
  unfold afterResult
  dsimp only
  split
  · simp [finish]
  · split
    · simp [finish]
    · split <;> simp [finish]

/-! ## Where a turn leaves a call -/

/-- The value the cache has just shown a call. -/
def Status.found : Status → Option Json
  | .cacheGet (some (.ok value)) => value
  | .pollGet _ (some (.ok value)) => value
  | _ => none

/-- A value is found by an answer that has one. -/
lemma Status.found_eq_some {status : Status} {value : Json} :
    status.found = some value ↔ status = .cacheGet (some (.ok (some value))) ∨
      ∃ deadline, status = .pollGet deadline (some (.ok (some value))) := by
  unfold found
  split <;> simp_all

/-- Where a turn can leave a call, with what has to be known of it there. -/
inductive StatusCase (svc : InferenceService) (now : ℚ) (call : InferCall) (input : Input) :
    Status → Prop
  | raised (e : Exn) : StatusCase svc now call input (.finished (.error e))
  | cached {value : Json} {resp : InferResponse} : call.status.found = some value →
      respondCached svc now call value = .ok resp →
      StatusCase svc now call input (.finished (.ok resp))
  | completed {output model usage : Json} {resp : InferResponse} :
      buildResponse svc now call output model usage false = .ok resp →
      StatusCase svc now call input (.finished (.ok resp))
  | lockSet : StatusCase svc now call input (.lockSet none)
  | pollGet (deadline : ℚ) : StatusCase svc now call input (.pollGet deadline none)
  | sleeping {rc : RequestCollapser} (deadline : ℚ) : svc.collapser = some rc →
      StatusCase svc now call input (.sleeping deadline (now + rc.pollIntervalS))
  | provider (hasLock : Bool) : StatusCase svc now call input (.provider hasLock)
  | cacheSet {hasLock : Bool} {result : Json} {done : Completion} :
      call.status = .provider hasLock → input = .adapter (.ok result) →
      Completes svc call.req result done →
      StatusCase svc now call input (.cacheSet hasLock done none)
  | lockDel (pending : Except Exn Completion) :
      StatusCase svc now call input (.lockDel pending none)

section StatusCases

variable {svc : InferenceService} {now : ℚ} {cb : CircuitBreaker} {call : InferCall}
  {input : Input}

lemma statusCase_circuitBreakerCheck :
    StatusCase svc now call input (circuitBreakerCheck svc now call cb).status := by
  unfold circuitBreakerCheck
  dsimp only
  split
  · exact .raised _
  · split
    · exact .provider _
    · exact .lockSet

lemma statusCase_pollLoop (deadline : ℚ) :
    StatusCase svc now call input (pollLoop now call cb deadline).status := by
  unfold pollLoop
  split
  · exact .pollGet _
  · exact .provider _

lemma statusCase_cached {value : Json} (h : call.status.found = some value) :
    StatusCase svc now call input (.finished (respondCached svc now call value)) := by
  cases hresp : respondCached svc now call value with
  | error e => exact .raised e
  | ok resp => exact .cached h hresp

lemma statusCase_conclude (pending : Except Exn Completion) :
    StatusCase svc now call input (conclude svc now call cb pending).status := by
  unfold conclude
  split
  · exact .raised _
  · next done =>
    cases hresp : buildResponse svc now call done.output (.str call.req.model)
        done.usage.toJson false with
    | error e => exact .raised e
    | ok resp => exact .completed hresp

/-- The statuses after a turn. -/
theorem run_status {b : Block Status} (h : call.run svc now cb input = some b) :
    StatusCase svc now call input b.status := by
  cases run_case h with
  | cacheGet hst =>
    unfold afterCacheGet
    split
    · exact statusCase_cached (by rw [hst]; rfl)
    · exact statusCase_circuitBreakerCheck
    · exact statusCase_circuitBreakerCheck
    · exact .raised _
  | lockSet =>
    unfold afterLockSet
    split
    · exact .provider _
    · exact statusCase_pollLoop _
    · exact statusCase_pollLoop _
    · exact .raised _
  | pollGet hst hrc =>
    unfold afterPollGet
    split
    · exact statusCase_cached (by rw [hst]; rfl)
    · exact .sleeping _ hrc
    · exact .provider _
    · exact .raised _
  | sleeping => exact statusCase_pollLoop _
  | cacheSet =>
    unfold afterCacheSet
    dsimp only
    split
    · exact .lockDel _
    · exact statusCase_conclude _
  | lockDel =>
    unfold afterLockDel
    split
    · exact statusCase_conclude _
    · exact statusCase_conclude _
    · exact .raised _
  | @provider hasLock result hst =>
    cases result with
    | error e =>
      unfold afterProvider
      dsimp only
      split <;> exact .raised e
    | ok result =>
      -- only here is it of interest what the result was: it is what the cache write writes
      change StatusCase svc now call _ (afterResult svc call cb hasLock result).status
      rcases afterResult_status svc call cb hasLock result with ⟨done, hdone, hst'⟩ | ⟨-, e, hst'⟩
      · rw [hst']
        exact .cacheSet hst rfl hdone
      · rw [hst']
        exact .raised e

end StatusCases

/-! ## Runs of one call -/

/-- The runs of one call of `infer` in any environment: whatever Redis holds, whatever
state the breaker is in, whatever the adapter answers. The log has its own events. -/
inductive InferRun (svc : InferenceService) (pid : ℕ) : InferCall → Log → Prop
  | start (now : ℚ) (requestId : String) (req : InferRequest) :
      InferRun svc pid (.start now requestId req) []
  | exec {call : InferCall} {own : Log} {now : ℚ} {fate : Fate} {redis : Redis} {x : Executed} :
      InferRun svc pid call own → call.exec svc now pid fate redis = some x →
      InferRun svc pid (call.goto now x.status) (stamp pid now x.events ++ own)
  | run {call : InferCall} {own : Log} {now : ℚ} {cb : CircuitBreaker} {input : Input}
      {b : Block Status} :
      InferRun svc pid call own → call.run svc now cb input = some b →
      InferRun svc pid (call.goto now b.status) (stamp pid now b.events ++ own)

end InferenceApi
