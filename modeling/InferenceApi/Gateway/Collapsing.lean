import InferenceApi.Gateway.LockOwnership

/-!
# Who waits for whom

"If Redis is down the service just skips collapsing" (`DECISIONS.md`). A call waits for a
value after its lock attempt was refused, and also after the attempt raised `ConnectionError`,
since both leave `has_lock` at `False`. A refused call waits for another call's lock; a call
whose attempt raised waits although perhaps nobody is at work.
-/

namespace InferenceApi

open Transition CircuitBreaker TtlStore

/-- The call is in `wait_for_value`. -/
def Status.Waiting : Status → Prop
  | .pollGet _ _ => True
  | .sleeping _ _ => True
  | _ => False

/-- The call has not had an answer to its lock attempt, or has not made it. -/
def Status.BeforeLock : Status → Prop
  | .cacheGet _ => True
  | .lockSet none => True
  | _ => False

lemma Status.Waiting.not_beforeLock {status : Status} (h : status.Waiting) :
    ¬ status.BeforeLock := by
  cases status with
  | pollGet => exact id
  | sleeping => exact id
  | _ => exact h.elim

/-- Where a turn leaves a call, as far as the lock and the wait are concerned. -/
inductive Origin (call : InferCall) : Status → Prop
  | asks : call.status.BeforeLock → Origin call (.lockSet none)
  | refused (deadline : ℚ) : call.status = .lockSet (some (.ok false)) →
      Origin call (.pollGet deadline none)
  | raised (deadline : ℚ) : call.status = .lockSet (some (.error .connectionError)) →
      Origin call (.pollGet deadline none)
  | waits {status : Status} : call.status.Waiting → status.Waiting → Origin call status
  | past {status : Status} : ¬ status.Waiting → ¬ status.BeforeLock → Origin call status

/-- A call that has made its attempt does not make it again. -/
lemma Origin.beforeLock {call : InferCall} {status : Status} (h : Origin call status)
    (hbefore : status.BeforeLock) : call.status.BeforeLock := by
  cases h with
  | asks h => exact h
  | refused => exact hbefore.elim
  | raised => exact hbefore.elim
  | waits _ hw => exact absurd hbefore hw.not_beforeLock
  | past _ h => exact absurd hbefore h

section Turns

variable {svc : InferenceService} {now : ℚ} {cb : CircuitBreaker} {pid : ℕ} {fate : Fate}
  {redis : Redis} {call : InferCall} {input : Input} {own : Log}

lemma Origin.finished {out : Except Exn InferResponse} : Origin call (.finished out) := .past id id

lemma origin_circuitBreakerCheck (h : call.status.BeforeLock) :
    Origin call (circuitBreakerCheck svc now call cb).status := by
  unfold circuitBreakerCheck
  dsimp only
  split
  · exact .finished
  · split
    · exact .past id id
    · exact .asks h

lemma origin_conclude (pending : Except Exn Completion) :
    Origin call (conclude svc now call cb pending).status := by
  unfold conclude
  split <;> exact .finished

lemma origin_pollLoop {deadline : ℚ} (h : Origin call (.pollGet deadline none)) :
    Origin call (pollLoop now call cb deadline).status := by
  unfold pollLoop
  split
  · exact h
  · exact .past id id

/-- How a call gets to wait: it was refused, its attempt raised, or it was waiting already. -/
theorem run_origin {b : Block Status} (hb : call.run svc now cb input = some b) :
    Origin call b.status := by
  cases run_case hb with
  | cacheGet hst =>
    have hbefore : call.status.BeforeLock := by
      rw [hst]
      trivial
    unfold afterCacheGet
    split
    · exact .finished
    · exact origin_circuitBreakerCheck hbefore
    · exact origin_circuitBreakerCheck hbefore
    · exact .finished
  | lockSet hst =>
    unfold afterLockSet
    split
    · exact .past id id
    · exact origin_pollLoop (.refused _ hst)
    -- the second way into the wait
    · exact origin_pollLoop (.raised _ hst)
    · exact .finished
  | pollGet hst =>
    have hwaiting : call.status.Waiting := by
      rw [hst]
      trivial
    unfold afterPollGet
    split
    · exact .finished
    · exact .waits hwaiting trivial
    · exact .past id id
    · exact .finished
  | sleeping hst =>
    have hwaiting : call.status.Waiting := by
      rw [hst]
      trivial
    exact origin_pollLoop (.waits hwaiting trivial)
  | cacheSet =>
    unfold afterCacheSet
    dsimp only
    split
    · exact .past id id
    · exact origin_conclude _
  | lockDel =>
    unfold afterLockDel
    split
    · exact origin_conclude _
    · exact origin_conclude _
    · exact .finished
  | @provider hasLock result =>
    cases result with
    | error e =>
      unfold afterProvider
      dsimp only
      split <;> exact .finished
    | ok result =>
      change Origin call (afterResult svc call cb hasLock result).status
      rcases afterResult_status svc call cb hasLock result with ⟨_, -, hst⟩ | ⟨-, _, hst⟩
      · rw [hst]
        exact .past id id
      · rw [hst]
        exact .finished

/-- The lock attempt of the call raised `ConnectionError`. -/
def LockError (own : Log) : Prop := Happened own (.redisError .lockSet .connectionError)

/-- A command other than the lock attempt is no lock attempt. -/
lemma lockError_exec {x : Executed} (hx : call.exec svc now pid fate redis = some x)
    (hne : call.status ≠ .lockSet none) :
    LockError (stamp pid now x.events ++ own) ↔ LockError own := by
  refine happened_stamp_append.trans (or_iff_right fun he => ?_)
  cases exec_event hx he with
  | redisError hop =>
    unfold Status.Awaits at hop
    split at hop
    · next heq => cases heq
    · next hst _ => exact hne hst
    · next heq => cases heq
    · next heq => cases heq
    · next heq => cases heq
    · exact hop

lemma lockError_run {b : Block Status} (hb : call.run svc now cb input = some b) :
    LockError (stamp pid now b.events ++ own) ↔ LockError own := by
  refine happened_stamp_append.trans (or_iff_right fun he => ?_)
  cases run_event hb _ he

/-- The answered call is past its attempt. -/
lemma exec_status {x : Executed} (hx : call.exec svc now pid fate redis = some x) :
    (x.status.Waiting → call.status.Waiting) ∧
      (x.status.BeforeLock → call.status.BeforeLock ∧ call.status ≠ .lockSet none) := by
  cases exec_case hx with
  | cacheGet hst => rw [hst]; simp [Status.Waiting, Status.BeforeLock]
  | lockSet hst => simp [Status.Waiting, Status.BeforeLock]
  | pollGet hst => rw [hst]; simp [Status.Waiting, Status.BeforeLock]
  | cacheSet => simp [Status.Waiting, Status.BeforeLock]
  | lockDel => simp [Status.Waiting, Status.BeforeLock]

/-- Before its attempt is answered, no attempt has raised. -/
lemma InferRun.no_lockError (h : InferRun svc pid call own) (hbefore : call.status.BeforeLock) :
    ¬ LockError own := by
  induction h with
  | start =>
    rintro ⟨_, hmem, -⟩
    cases hmem
  | exec _ hx ih =>
    obtain ⟨hbefore, hne⟩ := (exec_status hx).2 hbefore
    rw [lockError_exec hx hne]
    exact ih hbefore
  | run _ hb ih =>
    rw [lockError_run hb]
    exact ih ((run_origin hb).beforeLock hbefore)

end Turns

namespace Gateway

variable {svc : InferenceService} {s s' : Gateway} {a : Action} {pid : ℕ} {call : InferCall}

/-! ## Whose lock was in the way -/

/-- Redis refused the lock attempt of the request, since the lock of another one was there. -/
def Refused (svc : InferenceService) (s : Gateway) (pid : ℕ) : Prop :=
  ∃ s₁ s₂ call lock, Reachable svc s₁ ∧ s₁.procs pid = .infer call ∧
    call.status = .lockSet none ∧ get s₁.redis s₁.now (svc.lockKey call.req) = some lock ∧
    lock.writer ≠ pid ∧ step svc s₁ (.redis pid .ok) = some s₂ ∧ Run (step svc) anyAction s₂ s

lemma Refused.step (h : Refused svc s pid) (hstep : step svc s a = some s') :
    Refused svc s' pid := by
  obtain ⟨s₁, s₂, call, lock, hs, hp, hst, hlock, hne, hrefused, hrun⟩ := h
  exact ⟨s₁, s₂, call, lock, hs, hp, hst, hlock, hne, hrefused, hrun.tail trivial hstep⟩

/-- Who stored a lock has acquired it. -/
def LockWriters (svc : InferenceService) (s : Gateway) : Prop :=
  ∀ req cell, s.redis (svc.lockKey req) = some cell →
    ∃ t, ⟨cell.value.writer, t, .acquired (svc.lockKey req)⟩ ∈ s.log

lemma LockWriters.of_redis_eq {new : Log} (h : LockWriters svc s) (hlog : s'.log = new ++ s.log)
    (hredis : ∀ req, s'.redis (svc.lockKey req) = s.redis (svc.lockKey req)) :
    LockWriters svc s' := by
  intro req cell hcell
  rw [hredis] at hcell
  obtain ⟨t, hmem⟩ := h req cell hcell
  rw [hlog]
  exact ⟨t, List.mem_append_right _ hmem⟩

/-- A stored lock comes with its acquisition. -/
lemma lockWriters_setEx {rc : RequestCollapser} {status : Status} {es : List Event}
    (h : LockWriters svc s) (hacq : .acquired (svc.lockKey call.req) ∈ es) :
    LockWriters svc (s.act pid (.infer (call.goto s.now status))
      (setEx s.redis (svc.lockKey call.req) ⟨.str "1", pid⟩ (s.now + rc.lockTtlS)) s.cb es) := by
  intro req cell hcell
  by_cases hkey : svc.lockKey req = svc.lockKey call.req
  · rw [hkey] at hcell ⊢
    obtain rfl : _ = cell := Option.some.inj (setEx_self.symm.trans hcell)
    exact ⟨s.now, List.mem_append_left _ (mem_stamp.mpr ⟨rfl, rfl, hacq⟩)⟩
  · obtain ⟨t, hmem⟩ := h req cell ((setEx_of_ne hkey).symm.trans hcell)
    exact ⟨t, List.mem_append_right _ hmem⟩

lemma lockWriters_exec {fate : Fate} {x : Executed} (h : LockWriters svc s)
    (hx : call.exec svc s.now pid fate s.redis = some x) :
    LockWriters svc (s.act pid (.infer (call.goto s.now x.status)) x.redis s.cb x.events) := by
  have hsame : (∀ req, x.redis (svc.lockKey req) = s.redis (svc.lockKey req)) → LockWriters svc
      (s.act pid (.infer (call.goto s.now x.status)) x.redis s.cb x.events) := fun hredis =>
    h.of_redis_eq rfl hredis
  cases exec_case hx with
  | cacheGet => exact hsame fun _ => rfl
  | pollGet => exact hsame fun _ => rfl
  | cacheSet =>
    exact hsame fun req => Fate.effect_frame
      (SemanticCache.set_of_ne fun h => svc.makeKey_ne_lockKey _ _ h.symm)
  | @lockSet rc =>
    rcases rc.tryAcquire_cases s.now pid s.redis (svc.lockKey call.req) with ⟨-, hT⟩ | ⟨-, hT⟩
    · rw [hT]
      cases fate with
      | ok => exact lockWriters_setEx h (by simp [Fate.effect])
      | lost _ => exact lockWriters_setEx h (by simp [Fate.effect])
      | failed _ => exact h.of_redis_eq rfl fun _ => rfl
    · exact hsame fun req => Fate.effect_frame (by rw [hT])
  | lockDel =>
    intro req cell hcell
    by_cases hkey : svc.lockKey req = svc.lockKey call.req
    · cases fate with
      -- the release took the lock away
      | ok => simp [act, Fate.effect, RequestCollapser.release, hkey] at hcell
      | lost _ => simp [act, Fate.effect, RequestCollapser.release, hkey] at hcell
      | failed _ =>
        obtain ⟨t, hmem⟩ := h req cell hcell
        exact ⟨t, List.mem_append_right _ hmem⟩
    · obtain ⟨t, hmem⟩ := h req cell
        ((Fate.effect_frame (RequestCollapser.release_of_ne hkey)).symm.trans hcell)
      exact ⟨t, List.mem_append_right _ hmem⟩

lemma lockWriters_step (h : LockWriters svc s) (hstep : step svc s a = some s') :
    LockWriters svc s' := by
  cases step_move hstep with
  | tick => exact @LockWriters.of_redis_eq _ _ _ [] h rfl fun _ => rfl
  | infer => exact h.of_redis_eq rfl fun _ => rfl
  | stream => exact h.of_redis_eq rfl fun _ => rfl
  | redis _ hx => exact lockWriters_exec h hx
  | input => exact h.of_redis_eq rfl fun _ => rfl
  | streamInput => exact h.of_redis_eq rfl fun _ => rfl

theorem Reachable.lockWriters (hs : Reachable svc s) : LockWriters svc s :=
  Run.invariant hs (fun _ _ hcell => by cases hcell) fun _ _ _ h _ hstep => lockWriters_step h hstep

/-- Before its attempt a call has no lock, so one that it finds is not its own. -/
lemma writer_ne_of_lockSet (hs : Reachable svc s) (hp : s.procs pid = .infer call)
    (hst : call.status = .lockSet none) {lock : Stored}
    (hlock : get s.redis s.now (svc.lockKey call.req) = some lock) : lock.writer ≠ pid := by
  rintro rfl
  obtain ⟨cell, hcell, -, rfl⟩ := get_eq_some_iff.mp hlock
  obtain ⟨t, hmem⟩ := hs.lockWriters call.req cell hcell
  have hinv := hs.lockInv hp
  rw [LockInv, hst] at hinv
  exact hinv.2 (happened_own.mpr ⟨t, hmem⟩)

/-! ## Why a call waits -/

/-- The requests whose lock attempt raised `ConnectionError`. -/
def lockErrors (log : Log) : List ℕ :=
  log.filterMap fun entry =>
    match entry.event with
    | .redisError .lockSet .connectionError => some entry.pid
    | _ => none

lemma mem_lockErrors {log : Log} : pid ∈ lockErrors log ↔ LockError (own pid log) := by
  rw [LockError, happened_own, lockErrors, List.mem_filterMap]
  constructor
  · rintro ⟨entry, hmem, h⟩
    split at h
    · next he =>
      cases h
      exact ⟨entry.time, he ▸ hmem⟩
    · cases h
  · rintro ⟨t, hmem⟩
    exact ⟨_, hmem, rfl⟩

/-- What a call on its way into the wait, or waiting, has met. -/
structure WaitCause (svc : InferenceService) (s : Gateway) (pid : ℕ) (status : Status) : Prop where
  refused : status = .lockSet (some (.ok false)) → Refused svc s pid
  raised : status = .lockSet (some (.error .connectionError)) → pid ∈ lockErrors s.log
  waiting : status.Waiting → Refused svc s pid ∨ pid ∈ lockErrors s.log

/-- So it is with every call. -/
def WaitInv (svc : InferenceService) (s : Gateway) : Prop :=
  ∀ pid call, s.procs pid = .infer call → WaitCause svc s pid call.status

/-- The log only grows. -/
lemma lockErrors_step (h : pid ∈ lockErrors s.log) (hstep : step svc s a = some s') :
    pid ∈ lockErrors s'.log := by
  obtain ⟨pid', es, hlog⟩ := log_of_step hstep
  rw [hlog, lockErrors, List.filterMap_append]
  exact List.mem_append_right _ h

lemma WaitCause.step {status : Status} (h : WaitCause svc s pid status)
    (hstep : step svc s a = some s') : WaitCause svc s' pid status where
  refused hst := (h.refused hst).step hstep
  raised hst := lockErrors_step (h.raised hst) hstep
  waiting hw := (h.waiting hw).imp (·.step hstep) (lockErrors_step · hstep)

/-- The answer to the lock attempt. -/
lemma waitCause_exec {fate : Fate} {x : Executed} (hs : Reachable svc s)
    (h : WaitCause svc s pid call.status) (hp : s.procs pid = .infer call)
    (hx : call.exec svc s.now pid fate s.redis = some x)
    (hstep : step svc s (.redis pid fate) = some s')
    (hlog : s'.log = stamp pid s.now x.events ++ s.log) :
    WaitCause svc s' pid x.status := by
  have hwaiting := (exec_status hx).1
  refine ⟨fun hst => ?_, fun hst => ?_, fun hw => ((h.step hstep).waiting (hwaiting hw))⟩
  · cases exec_case hx with
    | @lockSet rc hst' hrc =>
      cases fate with
      | ok =>
        -- the refusal: the lock is there, and it is another call's
        rcases rc.tryAcquire_cases s.now pid s.redis (svc.lockKey call.req) with
          ⟨-, hT⟩ | ⟨⟨lock, hlock⟩, -⟩
        · rw [hT] at hst
          cases hst
        · exact ⟨s, s', call, lock, hs, hp, hst', hlock, writer_ne_of_lockSet hs hp hst' hlock,
            hstep, .refl⟩
      | lost _ => cases hst
      | failed _ => cases hst
    | _ => cases hst
  · cases exec_case hx with
    | lockSet =>
      rw [mem_lockErrors, hlog, own_stamp_self]
      refine happened_stamp_append.mpr (Or.inl (List.mem_append_right _ ?_))
      cases fate with
      | ok => cases hst
      | lost _ => cases hst; exact List.mem_singleton_self _
      | failed _ => cases hst; exact List.mem_singleton_self _
    | _ => cases hst

/-- A turn. -/
lemma waitCause_run {input : Input} {b : Block Status} (h : WaitCause svc s' pid call.status)
    (hb : call.run svc s.now s.cb input = some b) : WaitCause svc s' pid b.status := by
  have horigin := run_origin hb
  have hpast : ∀ {status : Status} {reply}, status = .lockSet (some reply) →
      ¬ StatusCase svc s.now call input status := by
    rintro _ reply rfl hcase
    cases hcase
  refine ⟨fun hst => absurd (run_status hb) (hpast hst),
    fun hst => absurd (run_status hb) (hpast hst),
    fun hw => ?_⟩
  generalize b.status = status at horigin hw
  cases horigin with
  | asks => exact hw.elim
  | refused _ hst => exact Or.inl (h.refused hst)
  | raised _ hst => exact Or.inr (h.raised hst)
  | waits hst => exact h.waiting hst
  | past hnot => exact absurd hw hnot

lemma waitInv_step (hs : Reachable svc s) (h : WaitInv svc s) (hstep : step svc s a = some s') :
    WaitInv svc s' := by
  intro pid' call' hp'
  cases callOrigin_of_step hstep hp' with
  | kept hp => exact (h pid' call' hp).step hstep
  | started =>
    exact ⟨fun hst => Status.noConfusion hst, fun hst => Status.noConfusion hst, False.elim⟩
  | executed hp hx => exact waitCause_exec hs (h _ _ hp) hp hx hstep rfl
  | resumed hp hb => exact waitCause_run ((h _ _ hp).step hstep) hb

theorem Reachable.waitInv (hs : Reachable svc s) : WaitInv svc s :=
  Run.invariant_of_run hs (fun _ _ hp => by cases hp) fun _ _ _ hr h _ hstep =>
    waitInv_step hr h hstep

/-! ## A refused call is one whose attempt did not raise -/

/-- The request has had its answer, which was no `ConnectionError`. -/
structure PastAttempt (s : Gateway) (pid : ℕ) : Prop where
  past : ∃ call, s.procs pid = .infer call ∧ ¬ call.status.BeforeLock
  answered : ¬ LockError (own pid s.log)

lemma PastAttempt.act_of_ne {pid' : ℕ} {proc : Proc} {redis : Redis} {cb : CircuitBreaker}
    {es : List Event} (h : PastAttempt s pid) (hne : pid ≠ pid') :
    PastAttempt (s.act pid' proc redis cb es) pid := by
  refine ⟨?_, ?_⟩
  · rw [act_procs_of_ne hne]
    exact h.past
  · rw [act_log, own_stamp_of_ne hne]
    exact h.answered

/-- There is no second attempt. -/
lemma pastAttempt_step (h : PastAttempt s pid) (hstep : step svc s a = some s') :
    PastAttempt s' pid := by
  obtain ⟨call, hp, hst⟩ := h.past
  have hne : ∀ {pid' proc}, s.procs pid' = proc → proc ≠ .infer call → pid ≠ pid' := by
    rintro _ _ hproc hne rfl
    exact hne (hproc.symm.trans hp)
  cases step_move hstep with
  | tick => exact ⟨h.past, h.answered⟩
  | infer hidle => exact h.act_of_ne (hne hidle Proc.noConfusion)
  | stream hidle => exact h.act_of_ne (hne hidle Proc.noConfusion)
  | streamInput hstream => exact h.act_of_ne (hne hstream Proc.noConfusion)
  | @redis pid' fate call' x hp' hx =>
    by_cases hpid : pid = pid'
    · subst hpid
      cases hp.symm.trans hp'
      refine ⟨⟨_, act_procs_self, fun hbefore => hst ((exec_status hx).2 hbefore).1⟩, ?_⟩
      rw [act_log, own_stamp_self, lockError_exec hx]
      · exact h.answered
      · intro hlock
        rw [hlock] at hst
        exact hst trivial
    · exact h.act_of_ne hpid
  | @input pid' input call' b hp' hb =>
    by_cases hpid : pid = pid'
    · subst hpid
      cases hp.symm.trans hp'
      refine ⟨⟨_, act_procs_self, fun hbefore => hst ((run_origin hb).beforeLock hbefore)⟩, ?_⟩
      rw [act_log, own_stamp_self, lockError_run hb]
      exact h.answered
    · exact h.act_of_ne hpid

/-- A refused attempt did not raise. -/
lemma not_mem_lockErrors_of_refused (h : Refused svc s pid) : pid ∉ lockErrors s.log := by
  obtain ⟨s₁, s₂, call, lock, hs, hp, hst, -, -, hrefused, hrun⟩ := h
  have hbefore : ¬ LockError (own pid s₁.log) := by
    have hown := hs.ownInv pid
    rw [hp] at hown
    exact InferRun.no_lockError hown (by rw [hst]; trivial)
  have hpast : PastAttempt s₂ pid := by
    cases step_move hrefused with
    | redis hp' hx =>
      cases hp.symm.trans hp'
      cases exec_case hx with
      | @lockSet rc _ _ =>
        refine ⟨⟨_, act_procs_self, id⟩, ?_⟩
        rw [act_log, own_stamp_self]
        refine fun herror => (happened_stamp_append.mp herror).elim (fun he => ?_) hbefore
        simp only [Fate.effect, Fate.events, List.append_nil] at he
        split at he
        · simp at he
        · cases he
      | _ h => cases hst.symm.trans h
  have hs := hrun.invariant hpast fun _ _ _ h _ hstep => pastAttempt_step h hstep
  rw [mem_lockErrors]
  exact hs.answered

/-- **Why a call waits.** In every reachable state, whatever Redis answers and in whatever order
the requests run, a waiting call was refused on account of another call's lock exactly if its
own attempt did not raise `ConnectionError`. -/
theorem waiting_refused_iff (hs : Reachable svc s) (hp : s.procs pid = .infer call)
    (hw : call.status.Waiting) : Refused svc s pid ↔ pid ∉ lockErrors s.log := by
  constructor
  · exact not_mem_lockErrors_of_refused
  · intro hno
    exact ((hs.waitInv pid call hp).waiting hw).resolve_right hno

/-! ## Concrete runs -/

/-- The request is in `wait_for_value`. -/
def isWaiting : Proc → Bool
  | .infer ⟨_, _, _, .pollGet _ _, _⟩ => true
  | .infer ⟨_, _, _, .sleeping _ _, _⟩ => true
  | _ => false

lemma exists_of_isWaiting {proc : Proc} (h : isWaiting proc = true) :
    ∃ call, proc = .infer call ∧ call.status.Waiting := by
  unfold isWaiting at h
  split at h
  · exact ⟨_, rfl, trivial⟩
  · exact ⟨_, rfl, trivial⟩
  · cases h

/-- A call that is alone, and whose lock attempt does not get through to Redis. -/
def failedAttempt : List Action :=
  [.infer 0 "a" sampleRequest, .redis 0 .ok, .input 0 .resume, .redis 0 (.failed .connectionError),
    .input 0 .resume]

/-- It waits, though nobody is at work. -/
theorem failed_attempt_waits : ¬ ∀ (svc : InferenceService) (s : Gateway) (pid : ℕ)
    (call : InferCall), Reachable svc s → s.procs pid = .infer call → call.status.Waiting →
      Refused svc s pid := by
  intro hall
  have hwaits : isWaiting ((after sample failedAttempt).procs 0) = true := by decide +kernel
  have herror : 0 ∈ lockErrors (after sample failedAttempt).log := by decide +kernel
  obtain ⟨call, hp, hw⟩ := exists_of_isWaiting hwaits
  exact not_mem_lockErrors_of_refused (hall sample _ 0 call (reachable_after _ _) hp hw) herror

/-- A leader and its follower. -/
def followed : List Action :=
  [.infer 0 "a" sampleRequest, .redis 0 .ok, .input 0 .resume, .redis 0 .ok, .input 0 .resume,
    .infer 1 "b" sampleRequest, .redis 1 .ok, .input 1 .resume, .redis 1 .ok, .input 1 .resume]

theorem waiting_refused_followed : Refused sample (after sample followed) 1 := by
  have hwaits : isWaiting ((after sample followed).procs 1) = true := by decide +kernel
  have hno : 1 ∉ lockErrors (after sample followed).log := by decide +kernel
  obtain ⟨call, hp, hw⟩ := exists_of_isWaiting hwaits
  exact (waiting_refused_iff (reachable_after sample followed) hp hw).mpr hno

end Gateway
end InferenceApi
