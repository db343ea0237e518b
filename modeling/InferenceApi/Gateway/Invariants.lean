import InferenceApi.Gateway.System

/-!
# What holds in every reachable state of the gateway

* The log is in order, replaying its breaker calls gives the breaker, and its `is_open`
  entries have the answers the breaker gave (`LogInv`).
* Every request's own events are those of a run of its coroutine (`OwnInv`), so that what
  is proved about `InferRun` and `StreamRun` holds under every interleaving.
-/

namespace InferenceApi

open Transition SlidingWindow CircuitBreaker

/-! ## Blocks account for what they do to the breaker -/

section Explains

variable {svc : InferenceService} {now : ℚ} {call : InferCall} {cb cb' : CircuitBreaker}
  {es : List Event}

lemma explains_finish {c : Config} (h : Explains c now cb es cb')
    (out : Except Exn InferResponse) :
    Explains c now cb (finish cb' es out).events (finish cb' es out).cb := h.other rfl

lemma explains_startProvider {c : Config} (h : Explains c now cb es cb') (hasLock : Bool) :
    Explains c now cb (startProvider call cb' es hasLock).events
      (startProvider call cb' es hasLock).cb := h.other rfl

lemma explains_circuitBreakerCheck :
    Explains svc.breaker now cb (circuitBreakerCheck svc now call cb).events
      (circuitBreakerCheck svc now call cb).cb := by
  have hcheck : Explains svc.breaker now cb [.isOpen (isOpen svc.breaker now cb).1]
      (isOpen svc.breaker now cb).2 := .isOpen .nil
  unfold circuitBreakerCheck
  dsimp only
  split
  · exact explains_finish hcheck _
  · split
    · exact explains_startProvider hcheck _
    · exact hcheck

lemma explains_pollLoop {c : Config} (deadline : ℚ) :
    Explains c now cb (pollLoop now call cb deadline).events
      (pollLoop now call cb deadline).cb := by
  unfold pollLoop
  split
  · exact .nil
  · exact explains_startProvider .nil _

lemma explains_conclude {c : Config} (pending : Except Exn Completion) :
    Explains c now cb (conclude svc now call cb pending).events
      (conclude svc now call cb pending).cb := by
  unfold conclude
  split <;> exact explains_finish .nil _

lemma explains_afterResult {c : Config} (hasLock : Bool) (result : Json) :
    Explains c now cb (afterResult svc call cb hasLock result).events
      (afterResult svc call cb hasLock result).cb := by
  -- every branch comes after the success, and none asks or reports again
  have hsuccess : Explains c now cb [.recordSuccess, .providerEnd call.req (.ok result)]
      (recordSuccess cb) := .recordSuccess (.other .nil rfl)
  unfold afterResult
  dsimp only
  split
  · exact explains_finish hsuccess _
  · next usage _ =>
    have hrecorded : Explains c now cb ((recordUsage svc call usage).1 ++
        [.recordSuccess, .providerEnd call.req (.ok result)]) (recordSuccess cb) := by
      unfold recordUsage
      split
      · exact hsuccess
      · exact hsuccess.other rfl
    split
    · exact explains_finish hrecorded _
    · split
      · exact explains_finish hrecorded _
      · exact hrecorded

/-- A turn of `infer` calls the breaker exactly as its events say. -/
theorem explains_run {input : Input} {b : Block Status}
    (h : call.run svc now cb input = some b) :
    Explains svc.breaker now cb b.events b.cb := by
  cases run_case h with
  | cacheGet =>
    unfold afterCacheGet
    split
    · exact explains_finish .nil _
    · exact explains_circuitBreakerCheck
    · exact explains_circuitBreakerCheck
    · exact explains_finish .nil _
  | lockSet =>
    unfold afterLockSet
    split
    · exact explains_startProvider (.other .nil rfl) _
    · exact explains_pollLoop _
    · exact explains_pollLoop _
    · exact explains_finish .nil _
  | pollGet =>
    unfold afterPollGet
    split
    · exact explains_finish .nil _
    · exact .nil
    · exact explains_startProvider .nil _
    · exact explains_finish .nil _
  | sleeping => exact explains_pollLoop _
  | cacheSet =>
    unfold afterCacheSet
    dsimp only
    split
    · exact .nil
    · exact explains_conclude _
  | lockDel =>
    unfold afterLockDel
    split
    · exact explains_conclude _
    · exact explains_conclude _
    · exact explains_finish .nil _
  | provider =>
    unfold afterProvider
    split
    · split
      · exact explains_finish (.recordFailure (.other .nil rfl)) _
      · exact explains_finish (.other .nil rfl) _
    · exact explains_afterResult _ _

/-- Events that are no breaker calls leave the breaker as it is. -/
lemma explains_of_op_eq_none {c : Config} : ∀ {es : List Event}, (∀ e ∈ es, e.op = none) →
    Explains c now cb es cb
  | [], _ => .nil
  | _ :: _, h => (explains_of_op_eq_none fun e he => h e (List.mem_cons_of_mem _ he)).other
      (h _ List.mem_cons_self)

/-- Redis does not touch the breaker. -/
lemma explains_exec {c : Config} {pid : ℕ} {fate : Fate} {redis : Redis} {x : Executed}
    (h : call.exec svc now pid fate redis = some x) : Explains c now cb x.events cb :=
  explains_of_op_eq_none fun e he => by cases exec_event h he <;> rfl

section Stream

open StreamingService

variable {c : Config}

lemma explains_streamFinish (h : Explains c now cb es cb') (status : StreamStatus)
    (tokens : List String) (out : Except Exn Unit) :
    Explains c now cb (StreamingService.finish cb' es status tokens out).events
      (StreamingService.finish cb' es status tokens out).cb :=
  (h.other rfl).other rfl

lemma explains_handle (tokens : List String) (e : Exn) :
    Explains c now cb (handle c now cb tokens e).events (handle c now cb tokens e).cb := by
  unfold handle
  split
  · exact explains_streamFinish .nil _ _ _
  · exact (Explains.recordFailure .nil).other rfl
  · exact (Explains.recordFailure .nil).other rfl
  · exact explains_streamFinish (.recordFailure .nil) _ _ _

/-- A turn of a stream calls the breaker exactly as its events say. -/
theorem explains_streamRun {call : StreamCall} {input : StreamingService.Input}
    {b : Block StreamingService.Status} (h : call.run c now cb input = some b) :
    Explains c now cb b.events b.cb := by
  unfold StreamCall.run at h
  split at h
  case h_1 =>
    cases h
    have hcheck : Explains c now cb [.isOpen (CircuitBreaker.isOpen c now cb).1]
        (CircuitBreaker.isOpen c now cb).2 := .isOpen .nil
    unfold start
    dsimp only
    split
    · exact hcheck.other rfl
    · exact hcheck.other rfl
  -- the normal end of the chunks, and the two places where the adapter may raise
  case h_6 => cases h; exact (Explains.recordSuccess .nil).other rfl
  case h_7 => cases h; exact explains_handle _ _
  case h_10 => cases h; exact explains_handle _ _
  all_goals cases h
  case h_8 => exact explains_streamFinish .nil _ _ _
  case h_12 => exact explains_streamFinish .nil _ _ _
  case h_13 => exact explains_streamFinish .nil _ _ _
  case h_14 => exact explains_streamFinish .nil _ _ _
  case h_15 => exact explains_streamFinish .nil _ _ _
  case h_16 => exact explains_streamFinish .nil _ _ _
  all_goals exact explains_of_op_eq_none (by simp [Event.op])

end Stream

end Explains

namespace Gateway

variable {svc : InferenceService} {s s' : Gateway} {a : Action}

/-! ## The log -/

/-- The log is in order and agrees with the breaker. -/
structure LogInv (svc : InferenceService) (s : Gateway) : Prop where
  newestFirst : NewestFirst Entry.time s.log
  before : Before Entry.time s.now s.log
  replay : replay svc.breaker (breakerCalls s.log) = s.cb
  faithful : AnswersFaithful svc.breaker s.log

lemma before_stamp {pid : ℕ} {now : ℚ} {es : List Event} {log : Log}
    (h : Before Entry.time now log) : Before Entry.time now (stamp pid now es ++ log) := by
  induction es with
  | nil => exact h
  | cons e es ih => exact ih.cons le_rfl

lemma newestFirst_stamp {pid : ℕ} {now : ℚ} {es : List Event} {log : Log}
    (h : NewestFirst Entry.time log) (hb : Before Entry.time now log) :
    NewestFirst Entry.time (stamp pid now es ++ log) := by
  induction es with
  | nil => exact h
  | cons e es ih => exact ih.cons (before_stamp hb)

/-- What a request does keeps the log in step. -/
lemma LogInv.act {pid : ℕ} {proc : Proc} {redis : Redis} {cb : CircuitBreaker}
    {es : List Event} (hs : LogInv svc s) (h : Explains svc.breaker s.now s.cb es cb) :
    LogInv svc (s.act pid proc redis cb es) where
  newestFirst := newestFirst_stamp hs.newestFirst hs.before
  before := before_stamp hs.before
  replay := h.replay hs.replay
  faithful := h.faithful hs.replay hs.faithful

lemma logInv_step (hs : LogInv svc s) (h : step svc s a = some s') : LogInv svc s' := by
  cases step_move h with
  | tick hd =>
    exact ⟨hs.newestFirst, hs.before.mono (le_add_of_nonneg_right hd), hs.replay, hs.faithful⟩
  | infer => exact hs.act .nil
  | stream => exact hs.act .nil
  | redis _ hx => exact hs.act (explains_exec hx)
  | input _ hb => exact hs.act (explains_run hb)
  | streamInput _ hb => exact hs.act (explains_streamRun hb)

theorem Reachable.logInv (h : Reachable svc s) : LogInv svc s :=
  Run.invariant h ⟨List.Pairwise.nil, fun _ he => (List.not_mem_nil he).elim, rfl, trivial⟩
    fun _ _ _ hs _ hstep => logInv_step hs hstep

/-! ## The requests -/

/-- The events of one request. -/
def own (pid : ℕ) (log : Log) : Log := log.filter fun e => e.pid = pid

lemma own_stamp_self {pid : ℕ} {now : ℚ} {es : List Event} {log : Log} :
    own pid (stamp pid now es ++ log) = stamp pid now es ++ own pid log := by
  have hstamp : own pid (stamp pid now es) = stamp pid now es := by
    refine List.filter_eq_self.mpr fun e he => ?_
    obtain ⟨_, _, rfl⟩ := List.mem_map.mp he
    simp
  rw [own, List.filter_append]
  exact congrArg (· ++ _) hstamp

lemma own_stamp_of_ne {pid pid' : ℕ} (hne : pid' ≠ pid) {now : ℚ} {es : List Event} {log : Log} :
    own pid' (stamp pid now es ++ log) = own pid' log := by
  have hstamp : own pid' (stamp pid now es) = [] := by
    refine List.filter_eq_nil_iff.mpr fun e he => ?_
    obtain ⟨_, _, rfl⟩ := List.mem_map.mp he
    simpa using hne.symm
  rw [own, List.filter_append]
  exact (congrArg (· ++ _) hstamp).trans (List.nil_append _)

lemma mem_own {pid : ℕ} {log : Log} {e : Entry} : e ∈ own pid log ↔ e ∈ log ∧ e.pid = pid := by
  rw [own, List.mem_filter, decide_eq_true_eq]

/-- What a request has done is in the log under its number. -/
lemma happened_own {pid : ℕ} {log : Log} {e : Event} :
    Happened (own pid log) e ↔ ∃ t, ⟨pid, t, e⟩ ∈ log := by
  constructor
  · rintro ⟨⟨pid', t, e'⟩, hmem, rfl⟩
    obtain ⟨hmem, hpid⟩ := mem_own.mp hmem
    exact ⟨t, hpid ▸ hmem⟩
  · rintro ⟨t, hmem⟩
    exact ⟨_, mem_own.mpr ⟨hmem, rfl⟩, rfl⟩

/-- A request's own events are those of a run of its coroutine. -/
def OwnRun (svc : InferenceService) (pid : ℕ) (log : Log) : Proc → Prop
  | .idle => log = []
  | .infer call => InferRun svc pid call log
  | .stream call => StreamingService.StreamRun svc.breaker pid call log

/-- Every request runs its own coroutine. -/
def OwnInv (svc : InferenceService) (s : Gateway) : Prop :=
  ∀ pid, OwnRun svc pid (own pid s.log) (s.procs pid)

/-- A step of one request leaves the runs of the others alone. -/
lemma OwnInv.act {pid : ℕ} {proc : Proc} {redis : Redis} {cb : CircuitBreaker}
    {es : List Event} (hs : OwnInv svc s)
    (h : OwnRun svc pid (stamp pid s.now es ++ own pid s.log) proc) :
    OwnInv svc (s.act pid proc redis cb es) := by
  intro pid'
  by_cases hne : pid' = pid
  · subst hne
    rw [act_procs_self, act_log, own_stamp_self]
    exact h
  · rw [act_procs_of_ne hne, act_log, own_stamp_of_ne hne]
    exact hs pid'

lemma ownInv_step (hs : OwnInv svc s) (h : step svc s a = some s') : OwnInv svc s' := by
  -- the run of the request that acts is extended by what it does
  have hown : ∀ {pid proc}, s.procs pid = proc → OwnRun svc pid (own pid s.log) proc :=
    fun hp => hp ▸ hs _
  cases step_move h with
  | tick => exact hs
  | infer hp =>
    refine hs.act ?_
    rw [show own _ s.log = [] from hown hp]
    exact .start ..
  | stream hp =>
    refine hs.act ?_
    rw [show own _ s.log = [] from hown hp]
    exact .create _
  | redis hp hx => exact hs.act (.exec (hown hp) hx)
  | input hp hb => exact hs.act (.run (hown hp) hb)
  | streamInput hp hb => exact hs.act (.run (hown hp) hb)

theorem Reachable.ownInv (h : Reachable svc s) : OwnInv svc s :=
  Run.invariant h (fun _ => rfl) fun _ _ _ hs _ hstep => ownInv_step hs hstep

/-- Every call of `infer` started in the past. -/
def StartedInPast (s : Gateway) : Prop := ∀ pid call, s.procs pid = .infer call → call.t0 ≤ s.now

lemma startedInPast_step (hs : StartedInPast s) (h : step svc s a = some s') :
    StartedInPast s' := by
  intro pid call hp
  cases callOrigin_of_step h hp with
  | kept hp => exact (hs pid call hp).trans (now_le_of_step h)
  | started => exact le_rfl
  | executed hp₀ _ =>
    have hstarted := hs _ _ hp₀
    exact hstarted
  | resumed hp₀ _ =>
    have hstarted := hs _ _ hp₀
    exact hstarted

theorem Reachable.startedInPast (h : Reachable svc s) : StartedInPast s :=
  Run.invariant h (fun _ _ hp => by cases hp) fun _ _ _ hs _ hstep => startedInPast_step hs hstep

end Gateway
end InferenceApi
