import InferenceApi.Gateway.Admission

/-!
# Whose success closes the circuit

The breaker does not know which request reports to it. What holds of a success that
closes the circuit is that its request was let through by some check of its own, and that
somebody's check came late enough after the latest trip to probe the provider.
-/

namespace InferenceApi

open Transition SlidingWindow CircuitBreaker

variable {c : Config} {log : Log} {entry : Entry} {u : ℚ}

/-! ## A probe in the log -/

/-- Somebody's check was let through a recovery timeout or more after the trip at `u`, and
nothing tripped since. -/
def ProbedBy (c : Config) (u : ℚ) (log : Log) : Prop :=
  ∃ mid prober t pre, log = mid ++ ⟨prober, t, .isOpen false⟩ :: pre ∧
    c.recoveryTimeout ≤ t - u ∧
    tripsAfter c (⟨.isOpen, t⟩ :: breakerCalls pre) (breakerCalls mid) = []

/-- A probe stays one until something trips. -/
lemma ProbedBy.cons (h : ProbedBy c u log)
    (hentry : entry.event.op = some .recordFailure →
      trips c (epoch c (breakerCalls log)) entry.time = false) : ProbedBy c u (entry :: log) := by
  obtain ⟨mid, prober, t, pre, rfl, hage, hnone⟩ := h
  -- the entry joins those after the probe: only a failure among them could trip
  refine ⟨entry :: mid, prober, t, pre, rfl, hage, ?_⟩
  rw [breakerCalls_append, breakerCalls_cons_of_some rfl] at hentry
  cases hop : entry.event.op with
  | none => rw [breakerCalls_cons_of_none hop, hnone]
  | some op =>
    rw [breakerCalls_cons_of_some hop]
    cases op with
    | isOpen => exact hnone
    | recordSuccess => exact hnone
    | recordFailure =>
      rw [tripsAfter, if_neg (Bool.eq_false_iff.mp (hentry hop))]
      exact hnone

lemma op_eq_isOpen {event : Event} (h : event.op = some .isOpen) :
    ∃ answer, event = .isOpen answer := by
  cases event <;> cases h
  exact ⟨_, rfl⟩

/-- A probed trip was probed by an entry of the log. -/
theorem probedBy_of_probed (hf : AnswersFaithful c log) (hh : NewestFirst Entry.time log)
    (hp : probed c (epoch c (breakerCalls log)) = true)
    (hu : latestTrip c (epoch c (breakerCalls log)) = some u) : ProbedBy c u log := by
  induction log with
  | nil => cases hp
  | cons entry log ih =>
    have ih := ih hf.2 hh.tail
    cases hop : entry.event.op with
    | none =>
      rw [breakerCalls_cons_of_none hop] at hp hu
      exact (ih hp hu).cons fun h => by rw [hop] at h; cases h
    | some op =>
      rw [breakerCalls_cons_of_some hop] at hp hu
      cases op with
      | isOpen =>
        rw [epoch, latestTrip] at hu
        rw [epoch, probed, hu, Bool.or_eq_true, decide_eq_true_eq] at hp
        -- either this check is the probe, or an older one was
        rcases hp with hage | hp
        · -- this check came late enough, so it was let through
          obtain ⟨answer, hanswer⟩ := op_eq_isOpen hop
          have hblock : ¬ Blocking c entry.time (replay c (breakerCalls log)) := by
            rw [blocking_replay_iff (newestFirst_breakerCalls hh.tail)
              (before_breakerCalls hh.before_head)]
            rintro ⟨v, hv, hlt⟩
            rw [hu, Option.some.injEq] at hv
            exact absurd hlt (not_lt.mpr (hv ▸ hage))
          have hfalse : answer = false := by
            rw [hf.1 answer hanswer, Bool.eq_false_iff]
            exact fun h => hblock (isOpen_eq_true_iff.mp h)
          obtain ⟨prober, t, event⟩ := entry
          exact ⟨[], prober, t, log, by rw [← hfalse, ← hanswer]; rfl, hage, rfl⟩
        · exact (ih hp hu).cons fun h => by rw [hop] at h; cases h
      | recordFailure =>
        rw [epoch, probed, Bool.and_eq_true, Bool.not_eq_true'] at hp
        rw [epoch, latestTrip, if_neg (Bool.eq_false_iff.mp hp.1)] at hu
        exact (ih hp.2 hu).cons fun _ => hp.1
      | recordSuccess =>
        rw [epoch] at hp hu
        split at hu
        · cases hu
        · next hreset =>
          rw [if_neg hreset] at hp
          exact (ih hp hu).cons fun h => by rw [hop] at h; cases h

/-! ## What closes the circuit -/

/-- Only a success closes the circuit. -/
lemma Explains.state_ne_closed {now : ℚ} {cb cb' : CircuitBreaker} {es : List Event}
    (h : Explains c now cb es cb') (hcb : cb.state ≠ .closed) (hes : .recordSuccess ∉ es) :
    cb'.state ≠ .closed := by
  induction h with
  | nil => exact hcb
  | @isOpen es cb' _ ih =>
    have hne := ih fun h => hes (List.mem_cons_of_mem _ h)
    unfold CircuitBreaker.isOpen
    split
    · split
      · exact hne
      · split
        · exact State.noConfusion
        · exact hne
    · exact hne
  | @recordFailure es cb' _ ih =>
    have hne := ih fun h => hes (List.mem_cons_of_mem _ h)
    unfold CircuitBreaker.recordFailure
    split
    · exact State.noConfusion
    · exact hne
  | recordSuccess => exact absurd List.mem_cons_self hes
  | other _ _ ih => exact ih fun h => hes (List.mem_cons_of_mem _ h)

namespace Gateway

variable {svc : InferenceService} {s s' : Gateway} {a : Action} {pid : ℕ}

/-- A step that records a success does nothing else to the breaker, and its request was
past the check. -/
lemma of_did_recordSuccess (hstep : step svc s a = some s') (h : Did s s' pid .recordSuccess) :
    (s.procs pid).Admitted ∧ s'.cb = recordSuccess s.cb := by
  cases deed_of_did hstep h with
  | redis _ hx he => cases exec_event hx he
  | input hp hb he =>
    rw [hp]
    exact run_recordSuccess hb he
  | streamInput hp hb he =>
    rw [hp]
    exact streamRun_recordSuccess hb he

/-- A step that closes the circuit records a success. -/
lemma did_recordSuccess_of_closing (hstep : step svc s a = some s')
    (hopen : s.cb.state ≠ .closed) (hclosed : s'.cb.state = .closed) :
    ∃ pid, Did s s' pid .recordSuccess := by
  have hact : ∀ {pid proc redis cb es}, Explains svc.breaker s.now s.cb es cb →
      s' = s.act pid proc redis cb es → ∃ pid, Did s s' pid .recordSuccess := by
    rintro pid proc redis cb es hes rfl
    -- without a success among its events the turn could not have closed it
    by_contra hnone
    refine hes.state_ne_closed hopen (fun hmem => hnone ⟨pid, did_act.mpr ⟨rfl, hmem⟩⟩) hclosed
  cases step_move hstep with
  | tick => exact absurd hclosed hopen
  | infer => exact hact .nil rfl
  | stream => exact hact .nil rfl
  | redis _ hx => exact hact (explains_exec hx) rfl
  | input _ hb => exact hact (explains_run hb) rfl
  | streamInput _ hb => exact hact (explains_streamRun hb) rfl

/-- **What closes the circuit.** The step from half-open to closed is the success of a
request that its own check had let through, after somebody's check probed the latest trip.
A success reported in any other state leaves the breaker and its failures as they are. -/
theorem closing_success (hs : Reachable svc s) (hstep : step svc s a = some s') :
    (s.cb.state = .halfOpen → s'.cb.state = .closed →
      ∃ pid, Did s s' pid .recordSuccess ∧ (∃ t, ⟨pid, t, .isOpen false⟩ ∈ s.log) ∧
        ∃ u, s.cb.openedAt = some u ∧ ProbedBy svc.breaker u s.log) ∧
    (∀ pid, Did s s' pid .recordSuccess → s.cb.state ≠ .halfOpen → s'.cb = s.cb) := by
  refine ⟨fun hhalf hclosed => ?_, fun pid hdid hne => ?_⟩
  · obtain ⟨pid, hdid⟩ := did_recordSuccess_of_closing hstep (by rw [hhalf]; simp) hclosed
    have hinv := hs.logInv
    have hr := replay_refines svc.breaker (newestFirst_breakerCalls hinv.newestFirst)
    rw [hinv.replay] at hr
    -- half-open is what the history calls a probed trip
    have hreset := phase_eq_halfOpen_iff.mp (hr.state.symm.trans hhalf)
    rw [resets, Bool.and_eq_true] at hreset
    obtain ⟨u, hu⟩ := Option.isSome_iff_exists.mp hreset.1
    exact ⟨pid, hdid, hs.checked (of_did_recordSuccess hstep hdid).1, u, hr.openedAt.trans hu,
      probedBy_of_probed hinv.faithful hinv.newestFirst hreset.2 hu⟩
  · rw [(of_did_recordSuccess hstep hdid).2]
    exact recordSuccess_of_not_halfOpen hne

/-- The times at which a request asked the breaker. -/
def checkTimes (pid : ℕ) (log : Log) : List ℚ :=
  log.filterMap fun entry =>
    match entry.event with
    | .isOpen _ => if entry.pid = pid then some entry.time else none
    | _ => none

/-- A stream admitted at 0 s that outlives a trip at 1 s and its recovery, and a second
one that is let through at 61 s. -/
def longStream : List Action :=
  ([.stream 0 sampleRequest, .streamInput 0 .pull] : List Action)
  ++ ([2, 3, 4, 5, 6].flatMap fun pid =>
    [.stream pid sampleRequest, .streamInput pid .pull] : List Action)
  ++ (.tick 1 :: [2, 3, 4, 5, 6].map fun pid => .streamInput pid (.raise .timeoutError) :
    List Action)
  ++ ([.tick 60, .stream 1 sampleRequest, .streamInput 1 .pull] : List Action)

/-- The state after the long stream ended. -/
def afterLongStream : Gateway := after sample (longStream ++ [.streamInput 0 (.chunk none)])

lemma step_longStream :
    step sample (after sample longStream) (.streamInput 0 (.chunk none)) = some afterLongStream :=
  step_after (by decide +kernel)

lemma longStream_cb :
    (after sample longStream).cb = ⟨.halfOpen, [1, 1, 1, 1, 1], some 1⟩ := by decide +kernel

lemma afterLongStream_cb : afterLongStream.cb = {} := by decide +kernel

lemma did_streamInput {input : StreamingService.Input} {e : Event} {pid' : ℕ}
    (h : step svc s (.streamInput pid input) = some s') (hd : Did s s' pid' e) : pid' = pid := by
  cases step_move h with
  | streamInput => exact (did_act.mp hd).1

/-- The success of the stream admitted before the trip closes the circuit. -/
theorem late_success_closes :
    ¬ ∀ (svc : InferenceService) (s s' : Gateway) (a : Action) (pid : ℕ) (u : ℚ),
      Reachable svc s → step svc s a = some s' → Did s s' pid .recordSuccess →
      s.cb.state = .halfOpen → s'.cb.state = .closed → s.cb.openedAt = some u →
        ∃ t ∈ checkTimes pid s.log, u ≤ t := by
  intro hall
  have hhalf : (after sample longStream).cb.state = .halfOpen := by rw [longStream_cb]
  have hclosed : afterLongStream.cb.state = .closed := by rw [afterLongStream_cb]
  obtain ⟨pid, hdid⟩ := did_recordSuccess_of_closing step_longStream (by rw [hhalf]; simp) hclosed
  obtain rfl := did_streamInput step_longStream hdid
  obtain ⟨t, ht, hle⟩ := hall sample _ _ _ 0 1 (reachable_after _ _) step_longStream hdid hhalf
    hclosed (by rw [longStream_cb])
  have hearly : ∀ t ∈ checkTimes 0 (after sample longStream).log, t < 1 := by decide +kernel
  exact absurd hle (not_le.mpr (hearly t ht))

theorem closing_success_longStream :
    ∃ pid, Did (after sample longStream) afterLongStream pid .recordSuccess ∧
      (∃ t, ⟨pid, t, .isOpen false⟩ ∈ (after sample longStream).log) ∧
      ∃ u, (after sample longStream).cb.openedAt = some u ∧
        ProbedBy {} u (after sample longStream).log :=
  (closing_success (reachable_after sample longStream) step_longStream).1
    (by rw [longStream_cb]) (by rw [afterLongStream_cb])

end Gateway
end InferenceApi
