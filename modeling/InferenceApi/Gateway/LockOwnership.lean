import InferenceApi.Gateway.LockRelease

/-!
# Whose lock a release deletes

Every lock holds the value `"1"` and a release deletes whatever is there, so a leader that
outlived its lock deletes its successor's, whose own release then deletes the next one's.
It takes a late release to begin with: as long as every release comes within the TTL of
its own acquisition, each one finds and deletes its own lock.
-/

namespace InferenceApi
namespace Gateway

open Transition CircuitBreaker TtlStore

variable {svc : InferenceService} {s s' : Gateway} {a : Action} {pid : ℕ} {call : InferCall}
  {req : InferRequest} {key : String} {ttl : ℚ}

/-- Every release of this lock in the log came within the TTL of its own acquisition. -/
def Timely (key : String) (ttl : ℚ) (log : Log) : Prop :=
  ∀ pid t victim t₀, ⟨pid, t, .released key victim⟩ ∈ log → ⟨pid, t₀, .acquired key⟩ ∈ log →
    t < t₀ + ttl

lemma Timely.of_append {log' : Log} (log : Log) (h : Timely key ttl (log ++ log')) :
    Timely key ttl log' := fun pid t victim t₀ hrel hacq =>
  h pid t victim t₀ (List.mem_append_right _ hrel) (List.mem_append_right _ hacq)

/-- As long as releases are timely, whoever acquired the lock and has not released it is
the one who has it, until its TTL is over. -/
def OwnerInv (key : String) (ttl : ℚ) (s : Gateway) : Prop :=
  Timely key ttl s.log → ∀ pid t₀, ⟨pid, t₀, .acquired key⟩ ∈ s.log →
    (∀ t victim, ⟨pid, t, .released key victim⟩ ∉ s.log) → s.now < t₀ + ttl →
    ∃ v, s.redis key = some ⟨⟨v, pid⟩, t₀ + ttl⟩

/-- What a call has done about its lock, in the log of the gateway. -/
lemma Reachable.lockInv (hs : Reachable svc s) (hp : s.procs pid = .infer call) :
    LockInv svc call (own pid s.log) := by
  have hown := hs.ownInv pid
  rw [hp] at hown
  exact InferRun.lockInv hown

/-- Nothing else than `SET NX`, `DEL` and the clock touches a lock. -/
lemma OwnerInv.of_redis_eq (h : OwnerInv key ttl s) (hstep : ∃ new, s'.log = new ++ s.log ∧
      ∀ pid t, ⟨pid, t, .acquired key⟩ ∉ new)
    (hnow : s.now ≤ s'.now) (hredis : s'.redis key = s.redis key) : OwnerInv key ttl s' := by
  obtain ⟨new, hlog, hnew⟩ := hstep
  intro htimely pid t₀ hacq hrel hlt
  rw [hlog] at htimely hacq hrel
  rw [hredis]
  refine h (htimely.of_append _) pid t₀ ((List.mem_append.mp hacq).resolve_left (hnew pid t₀))
    (fun t victim hmem => hrel t victim (List.mem_append_right _ hmem)) (hnow.trans_lt hlt)

lemma exists_acquired (hs : Reachable svc s) (hp : s.procs pid = .infer call)
    {pending : Except Exn Completion} (hst : call.status = .lockDel pending none) :
    ∃ t, ⟨pid, t, .acquired (svc.lockKey call.req)⟩ ∈ s.log := by
  have hinv := hs.lockInv hp
  rw [LockInv, hst] at hinv
  obtain ⟨⟨pid', t, e⟩, hmem, he⟩ := hinv.1
  obtain ⟨hmem, hpid⟩ := mem_own.mp hmem
  cases he
  exact ⟨t, hpid ▸ hmem⟩

section Step

variable {rc : RequestCollapser} {fate : Fate} {x : Executed}

/-- A command that leaves the lock as it is. -/
lemma OwnerInv.exec (h : OwnerInv key ttl s) (hredis : x.redis key = s.redis key)
    (hacq : .acquired key ∉ x.events) :
    OwnerInv key ttl (s.act pid (.infer (call.goto s.now x.status)) x.redis s.cb x.events) :=
  h.of_redis_eq ⟨_, rfl, fun _ _ hmem => hacq (mem_stamp.mp hmem).2.2⟩ le_rfl hredis

/-- A stored lock is its acquirer's. -/
lemma ownerInv_lockSet (hs : Reachable svc s) (h : OwnerInv (svc.lockKey req) rc.lockTtlS s)
    (hp : s.procs pid = .infer call) (hst : call.status = .lockSet none)
    (hfree : get s.redis s.now (svc.lockKey req) = none)
    (hkey : svc.lockKey call.req = svc.lockKey req)
    {events : List Event} {status : Status} :
    OwnerInv (svc.lockKey req) rc.lockTtlS
      (s.act pid (.infer (call.goto s.now status))
        (setEx s.redis (svc.lockKey req) ⟨.str "1", pid⟩ (s.now + rc.lockTtlS)) s.cb events) := by
  have hinv := hs.lockInv hp
  rw [LockInv, hst] at hinv
  intro htimely pid' t₀ hacq hrel hlt
  rcases List.mem_append.mp hacq with hnew | hold
  · obtain ⟨rfl, rfl, -⟩ := mem_stamp.mp hnew
    exact ⟨_, setEx_self⟩
  · by_cases hpid : pid' = pid
    · subst hpid
      -- a call asks for the lock once
      exact absurd ⟨_, mem_own.mpr ⟨hold, rfl⟩, by rw [hkey]⟩ hinv.2
    · -- another lock would still be live
      obtain ⟨v, hcell⟩ := h (htimely.of_append _) pid' t₀ hold
        (fun t victim hmem => hrel t victim (List.mem_append_right _ hmem)) hlt
      have hlive : s.now < t₀ + rc.lockTtlS := hlt
      rw [get_of_cell hcell hlive] at hfree
      cases hfree

/-- After a timely release nobody has the lock. -/
lemma ownerInv_lockDel (hs : Reachable svc s) (h : OwnerInv (svc.lockKey req) ttl s)
    (hp : s.procs pid = .infer call) {pending : Except Exn Completion}
    (hst : call.status = .lockDel pending none) (hkey : svc.lockKey call.req = svc.lockKey req)
    {events : List Event} {status : Status} {redis : Redis} {victim : Option ℕ}
    (hacq : ∀ key, .acquired key ∉ events) (hrel : .released (svc.lockKey req) victim ∈ events) :
    OwnerInv (svc.lockKey req) ttl
      (s.act pid (.infer (call.goto s.now status)) redis s.cb events) := by
  obtain ⟨t₁, hown⟩ := exists_acquired hs hp hst
  rw [hkey] at hown
  have hinv := hs.lockInv hp
  rw [LockInv, hst] at hinv
  intro htimely pid' t₀ hacq' hunrel hlt
  have hnew : (⟨pid, s.now, .released (svc.lockKey req) victim⟩ : Entry) ∈
      stamp pid s.now events ++ s.log := List.mem_append_left _ (mem_stamp.mpr ⟨rfl, rfl, hrel⟩)
  have hold := (List.mem_append.mp hacq').resolve_left fun hmem => hacq _ (mem_stamp.mp hmem).2.2
  by_cases hpid : pid' = pid
  · subst hpid
    exact absurd hnew (hunrel _ _)
  · -- the release is timely, so the lock was its own, and nobody else's
    have hlt₁ := htimely _ _ _ _ hnew (List.mem_append_right _ hown)
    obtain ⟨v, hcell⟩ := h (htimely.of_append _) pid' t₀ hold
      (fun t victim hmem => hunrel t victim (List.mem_append_right _ hmem)) hlt
    obtain ⟨v', hcell'⟩ := h (htimely.of_append _) pid t₁ hown (fun t victim hmem => by
      refine hinv.2.1 ⟨victim, _, mem_own.mpr ⟨hmem, rfl⟩, ?_⟩
      rw [hkey]) hlt₁
    have heq := Option.some.inj (hcell.symm.trans hcell')
    exact absurd (congrArg (fun cell => cell.value.writer) heq) hpid

lemma ownerInv_exec (hs : Reachable svc s) (hrc : svc.collapser = some rc)
    (h : OwnerInv (svc.lockKey req) rc.lockTtlS s) (hp : s.procs pid = .infer call)
    (hx : call.exec svc s.now pid fate s.redis = some x) :
    OwnerInv (svc.lockKey req) rc.lockTtlS
      (s.act pid (.infer (call.goto s.now x.status)) x.redis s.cb x.events) := by
  have hacq : ∀ {key}, call.status ≠ .lockSet none → .acquired key ∉ x.events := fun hne he => by
    cases exec_event hx he with
    | acquired hst => exact hne hst
  have hsame : x.redis (svc.lockKey req) = s.redis (svc.lockKey req) →
      .acquired (svc.lockKey req) ∉ x.events → OwnerInv (svc.lockKey req) rc.lockTtlS
        (s.act pid (.infer (call.goto s.now x.status)) x.redis s.cb x.events) := h.exec
  cases exec_case hx with
  | cacheGet hst => exact hsame rfl (hacq (by simp [hst]))
  | pollGet hst => exact hsame rfl (hacq (by simp [hst]))
  | cacheSet hst =>
    refine hsame (Fate.effect_frame (SemanticCache.set_of_ne fun h => ?_)) (hacq (by simp [hst]))
    exact svc.makeKey_ne_lockKey _ _ h.symm
  | lockSet hst hrc' =>
    cases hrc.symm.trans hrc'
    rcases rc.tryAcquire_cases s.now pid s.redis (svc.lockKey call.req) with ⟨hfree, hT⟩ | ⟨-, hT⟩
    · by_cases hkey : svc.lockKey call.req = svc.lockKey req
      · rw [hkey] at hfree hT ⊢
        rw [hT]
        cases fate with
        | ok => exact ownerInv_lockSet hs h hp hst hfree hkey
        | lost _ => exact ownerInv_lockSet hs h hp hst hfree hkey
        -- the command did not reach Redis: nothing was stored and nothing acquired
        | failed _ => exact hsame rfl (by simp [Fate.effect, Fate.events])
      -- the lock of another request
      · refine hsame (Fate.effect_frame (RequestCollapser.tryAcquire_of_ne fun h => hkey h.symm))
          fun he => ?_
        · generalize hreq : svc.lockKey req = key at he
          cases exec_event hx he with
          | acquired => exact hkey hreq.symm
    -- a refused `SET NX` leaves everything as it is
    · refine hsame (Fate.effect_frame (by rw [hT])) fun he => ?_
      generalize svc.lockKey req = key at he
      cases exec_event hx he with
      | acquired _ hrc' _ hacq' =>
        cases hrc.symm.trans hrc'
        rw [hT] at hacq'
        cases hacq'
  | lockDel hst =>
    by_cases hkey : svc.lockKey call.req = svc.lockKey req
    · cases fate with
      | ok =>
        exact ownerInv_lockDel hs h hp hst hkey (fun _ => hacq (by simp [hst]))
          (List.mem_append_left _ (by rw [hkey]; exact List.mem_cons_self))
      | lost _ =>
        exact ownerInv_lockDel hs h hp hst hkey (fun _ => hacq (by simp [hst]))
          (List.mem_append_left _ (by rw [hkey]; exact List.mem_cons_self))
      | failed _ => exact hsame rfl (hacq (by simp [hst]))
    · exact hsame (Fate.effect_frame (RequestCollapser.release_of_ne fun h => hkey h.symm))
        (hacq (by simp [hst]))

end Step

lemma ownerInv_step {rc : RequestCollapser} (hs : Reachable svc s) (hrc : svc.collapser = some rc)
    (h : OwnerInv (svc.lockKey req) rc.lockTtlS s) (hstep : step svc s a = some s') :
    OwnerInv (svc.lockKey req) rc.lockTtlS s' := by
  cases step_move hstep with
  | tick hd =>
    exact h.of_redis_eq ⟨[], rfl, fun _ _ => List.not_mem_nil⟩ (le_add_of_nonneg_right hd) rfl
  | infer => exact h.of_redis_eq ⟨[], rfl, fun _ _ => List.not_mem_nil⟩ le_rfl rfl
  | stream => exact h.of_redis_eq ⟨[], rfl, fun _ _ => List.not_mem_nil⟩ le_rfl rfl
  | redis hp hx => exact ownerInv_exec hs hrc h hp hx
  | input hp hb =>
    refine h.of_redis_eq ⟨_, rfl, fun pid' t hmem => ?_⟩ le_rfl rfl
    cases run_event hb _ (mem_stamp.mp hmem).2.2
  | streamInput hp hb =>
    refine h.of_redis_eq ⟨_, rfl, fun pid' t hmem => ?_⟩ le_rfl rfl
    exact StreamingService.ofStream_of_mem hb _ (mem_stamp.mp hmem).2.2

theorem Reachable.ownerInv {rc : RequestCollapser} (hs : Reachable svc s)
    (hrc : svc.collapser = some rc) (req : InferRequest) :
    OwnerInv (svc.lockKey req) rc.lockTtlS s :=
  Run.invariant_of_run hs (fun _ _ _ hacq => by cases hacq)
    fun _ _ _ hr h _ hstep => ownerInv_step hr hrc h hstep

/-! ## A foreign lock is deleted only after a late release -/

/-- A release in the log up to this one came when the TTL of its own lock was over. -/
def LateRelease (key : String) (ttl : ℚ) (log : Log) : Prop :=
  ∃ pid t victim t₀, ⟨pid, t, .released key victim⟩ ∈ log ∧ ⟨pid, t₀, .acquired key⟩ ∈ log ∧
    t₀ + ttl ≤ t

variable {rc : RequestCollapser}

lemma timely_of_not_lateRelease {log : Log} (h : ¬ LateRelease key ttl log) : Timely key ttl log :=
  fun pid t victim t₀ hrel hacq =>
    not_le.mp fun hle => h ⟨pid, t, victim, t₀, hrel, hacq, hle⟩

/-- A release that finds something else than its own lock is late, or an earlier one was. -/
lemma lateRelease_of_foreign (hs : Reachable svc s) (hrc : svc.collapser = some rc)
    (hp : s.procs pid = .infer call) {pending : Except Exn Completion}
    (hst : call.status = .lockDel pending none) {victim : Option ℕ} {log : Log}
    (hvictim : victim = (get s.redis s.now (svc.lockKey call.req)).map Stored.writer)
    (hforeign : victim ≠ some pid) :
    LateRelease (svc.lockKey call.req) rc.lockTtlS
      (⟨pid, s.now, .released (svc.lockKey call.req) victim⟩ :: (log ++ s.log)) := by
  by_contra hnone
  -- suppose every release up to this one, and this one, is in time
  have htimely := timely_of_not_lateRelease hnone
  obtain ⟨t₁, hown⟩ := exists_acquired hs hp hst
  have hlt : s.now < t₁ + rc.lockTtlS := htimely pid s.now victim t₁ List.mem_cons_self
    (List.mem_cons_of_mem _ (List.mem_append_right _ hown))
  have hinv := hs.lockInv hp
  rw [LockInv, hst] at hinv
  have hunreleased : ∀ t victim, ⟨pid, t, .released (svc.lockKey call.req) victim⟩ ∉ s.log :=
    fun t victim hmem => hinv.2.1 ⟨victim, _, mem_own.mpr ⟨hmem, rfl⟩, rfl⟩
  -- so the lock is still there, and it is the call's own
  obtain ⟨v, hcell⟩ := hs.ownerInv hrc call.req
    (Timely.of_append (_ :: log) htimely) pid t₁ hown hunreleased hlt
  refine hforeign ?_
  rw [hvictim, get_of_cell hcell hlt]
  rfl

/-- The release of a foreign lock, when it happens. -/
lemma lateRelease_of_did (hs : Reachable svc s) (hrc : svc.collapser = some rc)
    (hstep : step svc s a = some s') {victim : Option ℕ} {log : Log}
    (hdid : Did s s' pid (.released key victim)) (hforeign : victim ≠ some pid) :
    LateRelease key rc.lockTtlS (⟨pid, s.now, .released key victim⟩ :: (log ++ s.log)) := by
  cases deed_of_did hstep hdid with
  | redis hp hx he =>
    cases exec_event hx he with
    | released hst => exact lateRelease_of_foreign hs hrc hp hst rfl hforeign
  | input _ hb he => cases run_event hb _ he
  | streamInput _ hb he => exact (StreamingService.ofStream_of_mem hb _ he).elim

/-- **Whose lock a release deletes.** Whenever a release finds something else than the lock
of its own acquisition, a release up to this one came when the TTL of its own lock was
over. -/
theorem foreign_release_late (hs : Reachable svc s) (hrc : svc.collapser = some rc)
    {post pre : Log} {t : ℚ} {victim : Option ℕ}
    (hlog : s.log = post ++ ⟨pid, t, .released key victim⟩ :: pre)
    (hforeign : victim ≠ some pid) :
    LateRelease key rc.lockTtlS (⟨pid, t, .released key victim⟩ :: pre) := by
  obtain ⟨s₁, a, s₂, new, rest, hs₁, hstep, rfl, hadded, rfl⟩ := hs.step_of_split hlog
  have hdid : Did s₁ s₂ pid (.released key victim) :=
    ⟨_, hadded, List.mem_append_right _ List.mem_cons_self⟩
  exact lateRelease_of_did hs₁ hrc hstep hdid hforeign

/-- A leader whose provider takes longer than the lock lives, and a second leader. -/
def overtakenLeader : List Action :=
  [.infer 0 "a" sampleRequest, .redis 0 .ok, .input 0 .resume, .redis 0 .ok, .input 0 .resume,
    .tick 11, .infer 1 "b" sampleRequest, .redis 1 .ok, .input 1 .resume, .redis 1 .ok,
    .input 1 .resume, .input 0 (.adapter (.ok sampleResult)), .redis 0 .ok, .input 0 .resume,
    .redis 0 .ok]

/-- Who released a lock in a log, and whose it was. -/
def releases (log : Log) : List (ℕ × Option ℕ) :=
  log.filterMap fun entry =>
    match entry.event with
    | .released _ victim => some (entry.pid, victim)
    | _ => none

lemma exists_of_mem_releases {log : Log} {victim : Option ℕ} (h : (pid, victim) ∈ releases log) :
    ∃ t key, ⟨pid, t, .released key victim⟩ ∈ log := by
  obtain ⟨⟨pid', t, event⟩, hmem, h⟩ := List.mem_filterMap.mp h
  cases event <;> cases h
  exact ⟨t, _, hmem⟩

lemma overtakenLeader_releases : (0, some 1) ∈ releases (after sample overtakenLeader).log := by
  decide +kernel

/-- The first leader deletes the second one's lock. -/
theorem overtaken_leader_deletes_successor :
    ¬ ∀ (svc : InferenceService) (s : Gateway) (pid owner : ℕ) (t : ℚ) (key : String),
      Reachable svc s → ⟨pid, t, .released key (some owner)⟩ ∈ s.log → owner = pid := by
  intro hall
  obtain ⟨t, key, hmem⟩ := exists_of_mem_releases overtakenLeader_releases
  cases hall sample _ 0 1 t key (reachable_after _ _) hmem

theorem foreign_release_late_overtakenLeader :
    ∃ t key post pre,
      (after sample overtakenLeader).log = post ++ ⟨0, t, .released key (some 1)⟩ :: pre ∧
      LateRelease key 10 (⟨0, t, .released key (some 1)⟩ :: pre) := by
  obtain ⟨t, key, hmem⟩ := exists_of_mem_releases overtakenLeader_releases
  obtain ⟨post, pre, hlog⟩ := List.append_of_mem hmem
  exact ⟨t, key, post, pre, hlog,
    foreign_release_late (reachable_after sample _) rfl hlog (by decide)⟩

end Gateway
end InferenceApi
