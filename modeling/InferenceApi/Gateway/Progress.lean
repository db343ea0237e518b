import InferenceApi.Gateway.System
import InferenceApi.Lib.Ranking

/-!
# Does a request come to its end?

A call of `infer` that waits for another one polls the cache in a loop. Every poll is followed
by a sleep, so that the loop is left after finitely many turns at its deadline; no other part
of `infer` repeats. How many turns a call has left is its rank.
-/

namespace InferenceApi

open Transition CircuitBreaker

/-! ## Turns that are left -/

/-- The polls from `t` on, one at the start of every interval before the deadline. -/
def InferenceService.polls (svc : InferenceService) (deadline t : ℚ) : ℕ :=
  match svc.collapser with
  | none => 0
  | some rc => ⌈(deadline - t) / rc.pollIntervalS⌉₊

/-- The polls after the first one of a wait that starts now. -/
def InferenceService.laterPolls (svc : InferenceService) : ℕ :=
  match svc.collapser with
  | none => 0
  | some rc => svc.polls rc.waitTimeoutS rc.pollIntervalS

/-- When a sleep that starts now is over. -/
def InferenceService.afterSleep (svc : InferenceService) (now : ℚ) : ℚ :=
  match svc.collapser with
  | none => now
  | some rc => now + rc.pollIntervalS

/-- A call of `infer` has at most this many turns: its own, and those of Redis on its behalf. -/
def InferenceService.maxTurns (svc : InferenceService) : ℕ := 12 + 3 * svc.laterPolls

/-- The turns a call has left: a poll takes one of Redis and one of its own, a sleep one. -/
def Status.rank (svc : InferenceService) (now : ℚ) : Status → ℕ
  | .finished _ => 0
  | .lockDel _ (some _) => 1
  | .lockDel _ none => 2
  | .cacheSet _ _ (some _) => 3
  | .cacheSet _ _ none => 4
  | .provider _ => 5
  | .sleeping deadline wakeAt => 6 + 3 * svc.polls deadline wakeAt
  | .pollGet deadline (some _) => 7 + 3 * svc.polls deadline (svc.afterSleep now)
  | .pollGet deadline none => 8 + 3 * svc.polls deadline (svc.afterSleep now)
  | .lockSet (some _) => 9 + 3 * svc.laterPolls
  | .lockSet none => 10 + 3 * svc.laterPolls
  | .cacheGet (some _) => 11 + 3 * svc.laterPolls
  | .cacheGet none => 12 + 3 * svc.laterPolls

/-- Sleeping takes time. -/
def InferenceService.Sleeps (svc : InferenceService) : Prop :=
  ∀ rc, svc.collapser = some rc → 0 < rc.pollIntervalS

section Rank

variable {svc : InferenceService} {now now' deadline t : ℚ} {call : InferCall}
  {cb : CircuitBreaker} {status : Status}

/-- Later there are fewer. -/
lemma polls_le (hsleeps : svc.Sleeps) {t' : ℚ} (h : t ≤ t') :
    svc.polls deadline t' ≤ svc.polls deadline t := by
  unfold InferenceService.polls
  cases hrc : svc.collapser with
  | none => exact le_rfl
  | some rc =>
    have hpos := hsleeps rc hrc
    exact Nat.ceil_mono (div_le_div_of_nonneg_right (by linarith) hpos.le)

lemma afterSleep_le (h : now ≤ now') : svc.afterSleep now ≤ svc.afterSleep now' := by
  unfold InferenceService.afterSleep
  split
  · exact h
  · exact add_le_add_left h _

/-- Before the deadline, a sleep costs a poll. -/
lemma polls_afterSleep_lt (hsleeps : svc.Sleeps) {rc : RequestCollapser}
    (hrc : svc.collapser = some rc) (h : now < deadline) :
    svc.polls deadline (svc.afterSleep now) < svc.polls deadline now := by
  have hpos := hsleeps rc hrc
  have hleft : 0 < (deadline - now) / rc.pollIntervalS := div_pos (by linarith) hpos
  have hsub : (deadline - (now + rc.pollIntervalS)) / rc.pollIntervalS =
      (deadline - now) / rc.pollIntervalS - 1 := by
    field_simp
    ring
  simp only [InferenceService.polls, InferenceService.afterSleep, hrc]
  rw [hsub, ← Nat.add_one_le_iff, Nat.add_one_le_ceil_iff]
  -- in the last interval before the deadline the poll was the last one
  by_cases hlast : (deadline - now) / rc.pollIntervalS < 1
  · rw [Nat.ceil_eq_zero.mpr (by linarith), Nat.cast_zero]
    exact hleft
  · have hceil := Nat.ceil_lt_add_one (a := (deadline - now) / rc.pollIntervalS - 1) (by linarith)
    linarith

/-- The rank does not rise as time passes. -/
lemma rank_le_of_le (hsleeps : svc.Sleeps) (h : now ≤ now') :
    status.rank svc now' ≤ status.rank svc now := by
  have hpolls : ∀ deadline, svc.polls deadline (svc.afterSleep now') ≤
      svc.polls deadline (svc.afterSleep now) := fun _ => polls_le hsleeps (afterSleep_le h)
  unfold Status.rank
  split <;> first
    | exact le_rfl
    | exact Nat.add_le_add_left (Nat.mul_le_mul_left 3 (hpolls _)) _

/-! ## One turn -/

/-- Redis takes one. -/
lemma rank_exec {pid : ℕ} {fate : Fate} {redis : Redis} {x : Executed}
    (h : call.exec svc now pid fate redis = some x) :
    x.status.rank svc now + 1 ≤ call.status.rank svc now := by
  cases exec_case h with
  | cacheGet hst => rw [hst]; simp only [Status.rank]; omega
  | lockSet hst => rw [hst]; simp only [Status.rank]; omega
  | pollGet hst => rw [hst]; simp only [Status.rank]; omega
  | cacheSet hst => rw [hst]; simp only [Status.rank]; omega
  | lockDel hst => rw [hst]; simp only [Status.rank]; omega

lemma rank_finish (events : List Event) (out : Except Exn InferResponse) :
    (finish cb events out).status.rank svc now = 0 := rfl

lemma rank_startProvider (events : List Event) (hasLock : Bool) :
    (startProvider call cb events hasLock).status.rank svc now = 5 := rfl

lemma rank_circuitBreakerCheck :
    (circuitBreakerCheck svc now call cb).status.rank svc now ≤ 10 + 3 * svc.laterPolls := by
  unfold circuitBreakerCheck
  dsimp only
  split
  · exact Nat.zero_le _
  · split
    · rw [rank_startProvider]
      omega
    · exact le_rfl

lemma rank_pollLoop : (pollLoop now call cb deadline).status.rank svc now =
    if now < deadline then 8 + 3 * svc.polls deadline (svc.afterSleep now) else 5 := by
  unfold pollLoop
  split <;> rfl

lemma rank_conclude (pending : Except Exn Completion) :
    (conclude svc now call cb pending).status.rank svc now = 0 := by
  unfold conclude
  split <;> rfl

/-- A wait that starts now. -/
lemma rank_pollLoop_start {rc : RequestCollapser} (hrc : svc.collapser = some rc) :
    (pollLoop now call cb (now + rc.waitTimeoutS)).status.rank svc now ≤
      8 + 3 * svc.laterPolls := by
  have hlater : svc.polls (now + rc.waitTimeoutS) (svc.afterSleep now) = svc.laterPolls := by
    simp only [InferenceService.laterPolls, InferenceService.polls, InferenceService.afterSleep,
      hrc]
    rw [add_sub_add_left_eq_sub]
  rw [rank_pollLoop, hlater]
  split <;> omega

/-- Only a call with a collapser goes on after a sleep. -/
lemma collapser_of_sleeping {wakeAt : ℚ} {b : Block Status}
    (hst : call.status = .sleeping deadline wakeAt) (h : call.run svc now cb .resume = some b) :
    ∃ rc, svc.collapser = some rc := by
  cases hrc : svc.collapser with
  | none =>
    rw [InferCall.run.eq_def, hst, hrc] at h
    cases h
  | some rc => exact ⟨rc, rfl⟩

/-- The call takes one. -/
lemma rank_run (hsleeps : svc.Sleeps) {input : Input} {b : Block Status}
    (h : call.run svc now cb input = some b) :
    b.status.rank svc now + 1 ≤ call.status.rank svc now := by
  cases run_case h with
  | cacheGet hst =>
    have hrank : call.status.rank svc now = 11 + 3 * svc.laterPolls := by rw [hst]; rfl
    have hcheck := @rank_circuitBreakerCheck svc now call cb
    rw [hrank]
    unfold afterCacheGet
    split
    · rw [rank_finish]; omega
    · omega
    · omega
    · rw [rank_finish]; omega
  | lockSet hst hrc =>
    have hrank : call.status.rank svc now = 9 + 3 * svc.laterPolls := by rw [hst]; rfl
    have hstart := @rank_pollLoop_start svc now call cb _ hrc
    rw [hrank]
    unfold afterLockSet
    split
    · rw [rank_startProvider]; omega
    · omega
    · omega
    · rw [rank_finish]; omega
  | @pollGet rc deadline reply hst hrc =>
    have hrank : call.status.rank svc now =
        7 + 3 * svc.polls deadline (now + rc.pollIntervalS) := by
      rw [hst, Status.rank, InferenceService.afterSleep, hrc]
    rw [hrank]
    unfold afterPollGet
    split
    · rw [rank_finish]; omega
    · rw [Status.rank]; omega
    · rw [rank_startProvider]; omega
    · rw [rank_finish]; omega
  | @sleeping deadline wakeAt hst hwake =>
    have hrank : call.status.rank svc now = 6 + 3 * svc.polls deadline wakeAt := by rw [hst]; rfl
    obtain ⟨rc, hrc⟩ := collapser_of_sleeping hst h
    rw [hrank, rank_pollLoop]
    split
    · next hbefore =>
      -- the poll that starts now is the one the sleeper was counted for
      have hslept : svc.polls deadline now ≤ svc.polls deadline wakeAt := polls_le hsleeps hwake
      have hlater := polls_afterSleep_lt hsleeps hrc hbefore
      omega
    · omega
  | @cacheSet hasLock done reply hst =>
    have hrank : call.status.rank svc now = 3 := by rw [hst]; rfl
    rw [hrank]
    unfold afterCacheSet
    dsimp only
    split
    · exact le_rfl
    · rw [rank_conclude]; omega
  | lockDel hst =>
    have hrank : call.status.rank svc now = 1 := by rw [hst]; rfl
    rw [hrank]
    unfold afterLockDel
    split
    · rw [rank_conclude]
    · rw [rank_conclude]
    · rw [rank_finish]
  | @provider hasLock result hst =>
    have hrank : call.status.rank svc now = 5 := by rw [hst]; rfl
    rw [hrank]
    cases result with
    | error e =>
      unfold afterProvider
      dsimp only
      split <;> rw [rank_finish] <;> omega
    | ok result =>
      change (afterResult svc call cb hasLock result).status.rank svc now + 1 ≤ 5
      rcases afterResult_status svc call cb hasLock result with ⟨done, -, hst'⟩ | ⟨-, e, hst'⟩
      · rw [hst']
        exact le_rfl
      · rw [hst', Status.rank]
        omega

end Rank

/-! ## The places of a collapser -/

/-- Where only a call with a collapser can be. -/
def Status.Collapses : Status → Prop
  | .lockSet _ => True
  | .pollGet _ _ => True
  | .sleeping _ _ => True
  | _ => False

section Collapses

variable {svc : InferenceService} {now : ℚ} {call : InferCall} {cb : CircuitBreaker}

lemma collapser_of_circuitBreakerCheck
    (h : (circuitBreakerCheck svc now call cb).status.Collapses) :
    ∃ rc, svc.collapser = some rc := by
  unfold circuitBreakerCheck at h
  dsimp only at h
  split at h
  · cases h
  · split at h
    · cases h
    · next rc hrc => exact ⟨rc, hrc⟩

lemma not_collapses_conclude (pending : Except Exn Completion) :
    ¬ (conclude svc now call cb pending).status.Collapses := by
  unfold conclude
  split <;> exact id

/-- A turn takes no call without a collapser there. -/
lemma collapser_of_run {input : Input} {b : Block Status} (hb : call.run svc now cb input = some b)
    (h : b.status.Collapses) : ∃ rc, svc.collapser = some rc := by
  cases run_case hb with
  | cacheGet =>
    unfold afterCacheGet at h
    split at h
    · cases h
    · exact collapser_of_circuitBreakerCheck h
    · exact collapser_of_circuitBreakerCheck h
    · cases h
  | lockSet _ hrc => exact ⟨_, hrc⟩
  | pollGet _ hrc => exact ⟨_, hrc⟩
  | sleeping hst => exact collapser_of_sleeping hst hb
  | cacheSet =>
    unfold afterCacheSet at h
    dsimp only at h
    split at h
    · cases h
    · exact absurd h (not_collapses_conclude _)
  | lockDel =>
    unfold afterLockDel at h
    split at h
    · exact absurd h (not_collapses_conclude _)
    · exact absurd h (not_collapses_conclude _)
    · cases h
  | @provider hasLock result =>
    cases result with
    | error e =>
      unfold afterProvider at h
      dsimp only at h
      split at h <;> cases h
    | ok result =>
      change (afterResult svc call cb hasLock result).status.Collapses at h
      rcases afterResult_status svc call cb hasLock result with ⟨done, -, hst⟩ | ⟨-, e, hst⟩
      · rw [hst] at h
        cases h
      · rw [hst] at h
        cases h

lemma collapser_of_exec {pid : ℕ} {fate : Fate} {redis : Redis} {x : Executed}
    (hold : call.status.Collapses → ∃ rc, svc.collapser = some rc)
    (hx : call.exec svc now pid fate redis = some x) (h : x.status.Collapses) :
    ∃ rc, svc.collapser = some rc := by
  cases exec_case hx with
  | lockSet _ hrc => exact ⟨_, hrc⟩
  | pollGet hst => exact hold (by rw [hst]; trivial)
  | cacheGet => cases h
  | cacheSet => cases h
  | lockDel => cases h

end Collapses

/-- The turns a request has left as a call of `infer`. -/
def Proc.turnsLeft (svc : InferenceService) (now : ℚ) : Proc → ℕ
  | .idle => svc.maxTurns
  | .infer call => call.status.rank svc now
  | .stream _ => 0

/-- How long to wait for a call that sleeps. -/
lemma exists_slept (status : Status) (now : ℚ) : ∃ d, 0 ≤ d ∧
    ∀ deadline wakeAt, status = .sleeping deadline wakeAt → wakeAt ≤ now + d := by
  cases status with
  | sleeping deadline wakeAt =>
    refine ⟨max 0 (wakeAt - now), le_max_left _ _, ?_⟩
    intro deadline' wakeAt' h
    cases h
    have hmax := le_max_right 0 (wakeAt - now)
    linarith
  | _ => exact ⟨0, le_rfl, fun _ _ => Status.noConfusion⟩

namespace Gateway

variable {svc : InferenceService} {s : Gateway}

/-- In every run, only calls with a collapser are there. -/
theorem Reachable.collapser (hs : Reachable svc s) {pid : ℕ} {call : InferCall}
    (hp : s.procs pid = .infer call) (h : call.status.Collapses) :
    ∃ rc, svc.collapser = some rc := by
  induction hs generalizing call with
  | refl => cases hp
  | tail _ _ hstep ih =>
    cases callOrigin_of_step hstep hp with
    | kept hp₀ => exact ih hp₀ h
    | started => cases h
    | executed hp₀ hx => exact collapser_of_exec (ih hp₀) hx h
    | resumed _ hb => exact collapser_of_run hb h

/-! ## Every call comes to its end -/

/-- Redis, or the call itself, has a turn on behalf of request `pid`. -/
def Action.turnOf (pid : ℕ) : Action → Bool
  | .redis pid' _ => pid' = pid
  | .input pid' _ => pid' = pid
  | _ => false

/-- The turns request `pid` has left. -/
def turnsLeft (svc : InferenceService) (pid : ℕ) (s : Gateway) : ℕ :=
  (s.procs pid).turnsLeft svc s.now

/-- What a request does takes turns from that request only. -/
lemma turnsLeft_act {pid pid' : ℕ} {proc : Proc} {redis : Redis} {cb : CircuitBreaker}
    {es : List Event} (turn : ℕ)
    (h : proc.turnsLeft svc s.now + turn ≤ (s.procs pid').turnsLeft svc s.now) :
    turnsLeft svc pid (s.act pid' proc redis cb es) + (if pid' = pid then turn else 0) ≤
      turnsLeft svc pid s := by
  unfold turnsLeft
  by_cases hpid : pid' = pid
  · subst hpid
    rw [act_procs_self, if_pos rfl]
    exact h
  · rw [act_procs_of_ne (Ne.symm hpid), if_neg hpid]
    exact le_rfl

/-- Each turn leaves one less. -/
theorem turnsLeft_ranks (hsleeps : svc.Sleeps) (pid : ℕ) :
    Ranks (step svc) (Action.turnOf pid) (turnsLeft svc pid) := by
  intro s a s' hstep
  cases step_move hstep with
  | tick hd =>
    show (s.procs pid).turnsLeft svc _ ≤ (s.procs pid).turnsLeft svc s.now
    cases s.procs pid with
    | infer call => exact rank_le_of_le hsleeps (le_add_of_nonneg_right hd)
    | _ => exact le_rfl
  | @infer pid' requestId req hp =>
    have hstart := @turnsLeft_act svc s pid pid' (.infer (.start s.now requestId req)) s.redis s.cb
      [] 0 (by rw [hp]; exact le_rfl)
    rw [ite_self] at hstart
    exact hstart
  | @stream pid' req hp =>
    have hstart := @turnsLeft_act svc s pid pid' (.stream ⟨req, .created⟩) s.redis s.cb [] 0
      (Nat.zero_le _)
    rw [ite_self] at hstart
    exact hstart
  | @redis pid' fate call x hp hx =>
    have hturn := @turnsLeft_act svc s pid pid' (.infer (call.goto s.now x.status)) x.redis s.cb
      x.events 1 (by rw [hp]; exact rank_exec hx)
    simpa [Action.turnOf] using hturn
  | @input pid' input call b hp hb =>
    have hturn := @turnsLeft_act svc s pid pid' (.infer (call.goto s.now b.status)) s.redis b.cb
      b.events 1 (by rw [hp]; exact rank_run hsleeps hb)
    simpa [Action.turnOf] using hturn
  | @streamInput pid' input call b hp hb =>
    have hother := @turnsLeft_act svc s pid pid' (.stream { call with status := b.status }) s.redis
      b.cb b.events 0 (Nat.zero_le _)
    rw [ite_self] at hother
    exact hother

/-- Request `pid` can have a turn: whatever becomes of the command it has sent, or whatever the
adapter answers. -/
def CanTurn (svc : InferenceService) (pid : ℕ) (s : Gateway) : Prop :=
  (∀ fate, ∃ s', step svc s (.redis pid fate) = some s') ∨
    (∃ s', step svc s (.input pid .resume) = some s') ∨
      ∀ result, ∃ s', step svc s (.input pid (.adapter result)) = some s'

lemma canTurn_of_exec {pid : ℕ} {call : InferCall} (hp : s.procs pid = .infer call)
    (h : ∀ fate, ∃ x, call.exec svc s.now pid fate s.redis = some x) : CanTurn svc pid s := by
  refine Or.inl fun fate => ?_
  obtain ⟨x, hx⟩ := h fate
  exact ⟨_, by rw [step, hp]; dsimp only; rw [hx]⟩

lemma canTurn_of_resume {pid : ℕ} {call : InferCall} {b : Block Status}
    (hp : s.procs pid = .infer call) (h : call.run svc s.now s.cb .resume = some b) :
    CanTurn svc pid s := Or.inr (Or.inl ⟨_, by rw [step, hp]; dsimp only; rw [h]⟩)

/-- A call that is not finished can have a turn, a sleeping one once it has slept. -/
lemma canTurn_of_infer {pid : ℕ} {call : InferCall} (hp : s.procs pid = .infer call)
    (hcollapses : call.status.Collapses → ∃ rc, svc.collapser = some rc)
    (hunfinished : ∀ out, call.status ≠ .finished out)
    (hslept : ∀ deadline wakeAt, call.status = .sleeping deadline wakeAt → wakeAt ≤ s.now) :
    CanTurn svc pid s := by
  obtain ⟨requestId, req, t0, status, since⟩ := call
  dsimp only at hcollapses hunfinished hslept
  cases status with
  | cacheGet reply =>
    cases reply with
    | none => exact canTurn_of_exec hp fun fate => ⟨_, rfl⟩
    | some reply => exact canTurn_of_resume hp rfl
  | lockSet reply =>
    obtain ⟨rc, hrc⟩ := hcollapses trivial
    cases reply with
    | none => exact canTurn_of_exec hp fun fate => ⟨_, by rw [InferCall.exec.eq_def, hrc]⟩
    | some reply => exact canTurn_of_resume hp (by rw [InferCall.run.eq_def, hrc])
  | pollGet deadline reply =>
    obtain ⟨rc, hrc⟩ := hcollapses trivial
    cases reply with
    | none => exact canTurn_of_exec hp fun fate => ⟨_, rfl⟩
    | some reply => exact canTurn_of_resume hp (by rw [InferCall.run.eq_def, hrc])
  | sleeping deadline wakeAt =>
    obtain ⟨rc, hrc⟩ := hcollapses trivial
    exact canTurn_of_resume hp (by
      rw [InferCall.run.eq_def, hrc]
      exact if_pos (hslept deadline wakeAt rfl))
  | provider hasLock =>
    exact Or.inr (Or.inr fun result => ⟨_, by rw [step, hp]; rfl⟩)
  | cacheSet hasLock done reply =>
    cases reply with
    | none => exact canTurn_of_exec hp fun fate => ⟨_, rfl⟩
    | some reply => exact canTurn_of_resume hp rfl
  | lockDel pending reply =>
    cases reply with
    | none => exact canTurn_of_exec hp fun fate => ⟨_, rfl⟩
    | some reply => exact canTurn_of_resume hp rfl
  | finished out => exact absurd rfl (hunfinished out)

/-- **Every call of `infer` comes to its end.** In every run a request has a bounded number of
turns, whatever the others do, whatever becomes of its commands and whatever the adapter answers;
and in every reachable state a call that has not finished has its next turn, at once or when it
has slept. -/
theorem infer_terminates (svc : InferenceService) (hsleeps : svc.Sleeps) :
    (∀ (as : List Action) (s : Gateway) (pid : ℕ),
      execute (step svc) (fun _ _ => true) init as = some s →
        as.countP (Action.turnOf pid) + turnsLeft svc pid s ≤ svc.maxTurns) ∧
    ∀ (s : Gateway) (pid : ℕ) (call : InferCall), Reachable svc s → s.procs pid = .infer call →
      (∀ out, call.status ≠ .finished out) →
        0 < turnsLeft svc pid s ∧ ∃ d s', step svc s (.tick d) = some s' ∧ CanTurn svc pid s' := by
  constructor
  · intro as s pid hrun
    have hturns := (turnsLeft_ranks hsleeps pid).countP_add_le hrun
    exact hturns
  · intro s pid call hs hp hunfinished
    have hcollapses : call.status.Collapses → ∃ rc, svc.collapser = some rc := hs.collapser hp
    constructor
    · unfold turnsLeft
      rw [hp]
      show 0 < call.status.rank svc s.now
      cases hst : call.status with
      | finished out => exact absurd hst (hunfinished out)
      | provider => exact Nat.succ_pos _
      | sleeping => rw [Status.rank]; omega
      | _ => rename_i reply; cases reply <;> simp only [Status.rank] <;> omega
    · obtain ⟨d, hd, hslept⟩ := exists_slept call.status s.now
      refine ⟨d, { s with now := s.now + d }, if_pos hd, ?_⟩
      exact canTurn_of_infer (s := { s with now := s.now + d }) hp hcollapses hunfinished hslept

lemma sleeps_sample : sample.Sleeps := by
  intro rc hrc
  cases hrc
  norm_num

lemma maxTurns_sample : sample.maxTurns = 909 := by
  have hlater : sample.laterPolls = ⌈((15 : ℚ) - 1 / 20) / (1 / 20)⌉₊ := rfl
  have hquotient : ((15 : ℚ) - 1 / 20) / (1 / 20) = (299 : ℕ) := by norm_num
  rw [InferenceService.maxTurns, hlater, hquotient, Nat.ceil_natCast]

/-- With the shipped collapser a request has at most 909 turns; this one has had two. -/
theorem infer_terminates_sample : 2 + turnsLeft sample 0
    (after sample [.infer 0 "r" sampleRequest, .redis 0 .ok, .input 0 .resume]) ≤ 909 := by
  have hbound := (infer_terminates sample sleeps_sample).1
    [.infer 0 "r" sampleRequest, .redis 0 .ok, .input 0 .resume] _ 0 rfl
  rw [maxTurns_sample] at hbound
  exact hbound

end Gateway
end InferenceApi
