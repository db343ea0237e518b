import InferenceApi.Gateway.Invariants

/-!
# Is the collapse lock released?

`infer` takes the lock before the provider call and releases it in the `finally` of the
cache write. Every way out in between leaves the lock to its TTL. `Deliverable` is what
the adapter's answer must be for the call to get as far as the cache write, and
`lock_released_iff` shows that nothing else matters.
-/

namespace InferenceApi

open Transition CircuitBreaker

/-- The result has an output, its usage is a dict if it has one, and the recorder accepts
that usage. -/
def Deliverable (svc : InferenceService) (req : InferRequest) (result : Json) : Prop :=
  ∃ fields rawUsage output, result = .obj fields ∧
    (Json.lookup fields "usage").getD (.obj []) = .obj rawUsage ∧
    Json.lookup fields "output" = some output ∧
    ∀ record, svc.recordUsageMetrics = some record →
      record req.model ⟨(Json.lookup rawUsage "prompt_tokens").getD (.num (.int 0)),
        (Json.lookup rawUsage "completion_tokens").getD (.num (.int 0))⟩ = .ok ()

/-! ## What a call has done by itself -/

/-- `try_acquire` returned `True`. -/
def HeldLock (own : Log) : Prop := Happened own .tryAcquired

/-- Redis stored the call's lock. -/
def Acquired (svc : InferenceService) (req : InferRequest) (own : Log) : Prop :=
  Happened own (.acquired (svc.lockKey req))

/-- Redis executed the call's `DEL` of the lock. -/
def Released (svc : InferenceService) (req : InferRequest) (own : Log) : Prop :=
  ∃ victim, Happened own (.released (svc.lockKey req) victim)

/-- The adapter returned something that can be delivered. -/
def Delivered (svc : InferenceService) (req : InferRequest) (own : Log) : Prop :=
  ∃ result, Happened own (.providerEnd req (.ok result)) ∧ Deliverable svc req result

/-- A command other than the cache write raised. -/
def RedisUnreachable (own : Log) : Prop :=
  ∃ op err, Happened own (.redisError op err) ∧ op ≠ .cacheSet

/-- The call neither holds the lock nor has got further. -/
structure Untouched (svc : InferenceService) (req : InferRequest) (own : Log) : Prop where
  held : ¬ HeldLock own
  released : ¬ Released svc req own
  delivered : ¬ Delivered svc req own

/-- `has_lock` tells whether `try_acquire` returned `True`, which takes a collapser and a
stored lock. -/
structure LockFlag (svc : InferenceService) (req : InferRequest) (own : Log) (hasLock : Bool) :
    Prop where
  held : hasLock = false → ¬ HeldLock own
  collapser : hasLock = true → svc.collapser.isSome
  acquired : hasLock = true → Acquired svc req own

variable {svc : InferenceService} {now : ℚ} {cb : CircuitBreaker} {pid : ℕ} {call : InferCall}
  {own : Log}

/-! ## Deliverable results are those with which the call completes -/

lemma mappedUsage_eq_ok {result : Json} {usage : Usage} :
    mappedUsage result = .ok usage ↔
      ∃ fields rawUsage, result = .obj fields ∧
        (Json.lookup fields "usage").getD (.obj []) = .obj rawUsage ∧
        usage = ⟨(Json.lookup rawUsage "prompt_tokens").getD (.num (.int 0)),
          (Json.lookup rawUsage "completion_tokens").getD (.num (.int 0))⟩ := by
  constructor
  · intro h
    cases result with
    | obj fields =>
      cases hraw : (Json.lookup fields "usage").getD (.obj []) with
      | obj rawUsage =>
        simp only [mappedUsage, dictGet, hraw, bind, Except.bind, pure, Except.pure,
          Except.ok.injEq] at h
        exact ⟨fields, rawUsage, rfl, hraw, h.symm⟩
      | _ => simp [mappedUsage, dictGet, hraw, bind, Except.bind] at h
    | _ => simp [mappedUsage, dictGet, bind, Except.bind] at h
  · rintro ⟨fields, rawUsage, rfl, hraw, rfl⟩
    simp only [mappedUsage, dictGet, hraw, bind, Except.bind, pure, Except.pure]

theorem deliverable_iff {req : InferRequest} {result : Json} :
    Deliverable svc req result ↔ ∃ done, Completes svc req result done := by
  constructor
  · rintro ⟨fields, rawUsage, output, rfl, hraw, houtput, hrec⟩
    exact ⟨⟨output, _⟩, mappedUsage_eq_ok.mpr ⟨fields, rawUsage, rfl, hraw, rfl⟩, hrec,
      subscript_eq_ok.mpr ⟨fields, rfl, houtput⟩⟩
  · rintro ⟨⟨output, usage⟩, husage, hrec, houtput⟩
    obtain ⟨fields, rawUsage, rfl, hraw, rfl⟩ := mappedUsage_eq_ok.mp husage
    obtain ⟨_, heq, hlook⟩ := subscript_eq_ok.mp houtput
    cases heq
    exact ⟨fields, rawUsage, output, rfl, hraw, hlook, hrec⟩

/-! ## Where the lock stands, by the place a call is in -/

/-- What a call has done about the lock. -/
def LockInv (svc : InferenceService) (call : InferCall) (own : Log) : Prop :=
  match call.status with
  | .cacheGet _ => Untouched svc call.req own ∧ ¬ Acquired svc call.req own
  | .lockSet none => Untouched svc call.req own ∧ ¬ Acquired svc call.req own
  | .lockSet (some reply) =>
    Untouched svc call.req own ∧ (reply = .ok true → Acquired svc call.req own)
  | .provider hasLock =>
    LockFlag svc call.req own hasLock ∧ ¬ Released svc call.req own ∧ ¬ Delivered svc call.req own
  | .cacheSet hasLock _ _ =>
    LockFlag svc call.req own hasLock ∧ ¬ Released svc call.req own ∧ Delivered svc call.req own
  | .lockDel _ none =>
    Acquired svc call.req own ∧ ¬ Released svc call.req own ∧ Delivered svc call.req own
  | .lockDel _ (some _) =>
    Delivered svc call.req own ∧ (Released svc call.req own ∨ RedisUnreachable own)
  | .finished _ =>
    HeldLock own → ¬ RedisUnreachable own →
      (Released svc call.req own ↔ Delivered svc call.req own)
  | _ => Untouched svc call.req own

lemma Delivered.append {req : InferRequest} (h : Delivered svc req own) (log : Log) :
    Delivered svc req (log ++ own) := by
  obtain ⟨result, hmem, hdel⟩ := h
  exact ⟨result, hmem.append log, hdel⟩

lemma lockInv_exec {fate : Fate} {redis : Redis} {x : Executed} (h : LockInv svc call own)
    (hx : call.exec svc now pid fate redis = some x) :
    LockInv svc (call.goto now x.status) (stamp pid now x.events ++ own) := by
  have hevent : ∀ {e}, Happened (stamp pid now x.events ++ own) e →
      ExecEvent svc now pid fate redis call e ∨ Happened own e := fun he =>
    (happened_stamp_append.mp he).imp_left (exec_event hx)
  have hheld : HeldLock (stamp pid now x.events ++ own) → HeldLock own := fun he =>
    (hevent he).resolve_left fun hcase => by cases hcase
  have hacquired : Acquired svc call.req (stamp pid now x.events ++ own) →
      call.status = .lockSet none ∨ Acquired svc call.req own := by
    intro hacq
    refine (hevent hacq).imp_left fun hcase => ?_
    generalize svc.lockKey call.req = key at hcase
    cases hcase with
    | acquired hst => exact hst
  have hdelivered : Delivered svc call.req (stamp pid now x.events ++ own) →
      Delivered svc call.req own := by
    rintro ⟨result, hmem, hdel⟩
    exact ⟨result, (hevent hmem).resolve_left (fun hcase => by cases hcase), hdel⟩
  have hreleased : (∀ pending, call.status ≠ .lockDel pending none) →
      ¬ Released svc call.req own → ¬ Released svc call.req (stamp pid now x.events ++ own) := by
    rintro hne hno ⟨victim, hmem⟩
    rcases hevent hmem with hcase | hmem
    · generalize svc.lockKey call.req = key at hcase
      cases hcase with
      | released hst => exact hne _ hst
    · exact hno ⟨victim, hmem⟩
  have huntouched : (∀ pending, call.status ≠ .lockDel pending none) →
      Untouched svc call.req own → Untouched svc call.req (stamp pid now x.events ++ own) :=
    fun hne hun => ⟨mt hheld hun.held, hreleased hne hun.released, mt hdelivered hun.delivered⟩
  cases exec_case hx with
  | cacheGet hst =>
    rw [LockInv, hst] at h
    refine ⟨huntouched (by simp [hst]) h.1, fun hacq => ?_⟩
    exact (hacquired hacq).elim (fun hst' => by cases hst.symm.trans hst') h.2
  | lockSet hst =>
    rw [LockInv, hst] at h
    refine ⟨huntouched (by simp [hst]) h.1, fun hreply => ?_⟩
    -- only a command that was answered can say `True`, and then it stored the lock
    cases fate with
    | ok =>
      have hacq := Except.ok.inj hreply
      refine happened_stamp_append.mpr (Or.inl ?_)
      simp [Fate.effect, hacq]
    | lost err => cases hreply
    | failed err => cases hreply
  | pollGet hst =>
    rw [LockInv, hst] at h
    exact huntouched (by simp [hst]) h
  | cacheSet hst =>
    rw [LockInv, hst] at h
    exact ⟨⟨fun hno => mt hheld (h.1.held hno), h.1.collapser, fun hlock =>
      (h.1.acquired hlock).append _⟩, hreleased (by simp [hst]) h.2.1, h.2.2.append _⟩
  | lockDel hst =>
    rw [LockInv, hst] at h
    refine ⟨h.2.2.append _, ?_⟩
    cases fate with
    | ok => exact Or.inl ⟨_, happened_stamp_append.mpr (Or.inl List.mem_cons_self)⟩
    -- the lock is gone although the call is not told
    | lost err => exact Or.inl ⟨_, happened_stamp_append.mpr (Or.inl List.mem_cons_self)⟩
    | failed err =>
      exact Or.inr ⟨.lockDel, err, happened_stamp_append.mpr (Or.inl List.mem_cons_self), by simp⟩

/-- Where a turn can leave a call that does not have the lock. -/
def Status.Unlocked : Status → Prop
  | .lockSet reply => reply = none
  | .pollGet _ _ => True
  | .sleeping _ _ => True
  | .provider hasLock => hasLock = false
  | .finished _ => True
  | _ => False

lemma lockInv_of_unlocked {status : Status} (hst : status.Unlocked)
    (h : Untouched svc call.req own)
    (hacq : status = .lockSet none → ¬ Acquired svc call.req own) :
    LockInv svc (call.goto now status) own := by
  cases status with
  | provider hasLock =>
    cases hst
    exact ⟨⟨fun _ => h.held, Bool.noConfusion, Bool.noConfusion⟩, h.released, h.delivered⟩
  | cacheGet => exact hst.elim
  | cacheSet => exact hst.elim
  | lockDel => exact hst.elim
  | finished => exact fun hh => absurd hh h.held
  | lockSet reply =>
    cases hst
    exact ⟨h, hacq rfl⟩
  | pollGet => exact h
  | sleeping => exact h

lemma pollLoop_unlocked {deadline : ℚ} : (pollLoop now call cb deadline).status.Unlocked := by
  unfold pollLoop
  split
  · trivial
  · rfl

lemma pollLoop_ne_lockSet {deadline : ℚ} :
    (pollLoop now call cb deadline).status ≠ .lockSet none := by
  unfold pollLoop
  split <;> simp [startProvider]

lemma afterCacheGet_unlocked {reply : Except RedisError (Option Json)} :
    (afterCacheGet svc now call cb reply).status.Unlocked := by
  have hcheck : (circuitBreakerCheck svc now call cb).status.Unlocked := by
    unfold circuitBreakerCheck
    dsimp only
    split
    · trivial
    · split
      · rfl
      · rfl
  unfold afterCacheGet
  split
  · trivial
  · exact hcheck
  · exact hcheck
  · trivial

/-- After the cache write and the release there is only the end. -/
lemma lockInv_conclude {pending : Except Exn Completion}
    (h : ∀ out, LockInv svc (call.goto now (.finished out)) own) :
    LockInv svc (call.goto now (conclude svc now call cb pending).status) own := by
  unfold conclude
  split <;> exact h _

/-- What a turn can change about what the call has done. -/
structure LockTurn (svc : InferenceService) (call : InferCall) (input : Input) (b : Block Status)
    (own own' : Log) : Prop where
  held : HeldLock own' → call.status = .lockSet (some (.ok true)) ∨ HeldLock own
  acquired : Acquired svc call.req own' → Acquired svc call.req own
  released : Released svc call.req own' → Released svc call.req own
  delivered : (∀ result, input = .adapter (.ok result) → ¬ Deliverable svc call.req result) →
    Delivered svc call.req own' → Delivered svc call.req own
  keep : ∀ e, Happened own e → Happened own' e
  new : ∀ e ∈ b.events, Happened own' e

/-- A turn neither takes nor deletes the lock; only the adapter delivers. -/
lemma lockTurn_of_run {input : Input} {b : Block Status}
    (hb : call.run svc now cb input = some b) :
    LockTurn svc call input b own (stamp pid now b.events ++ own) := by
  have hevent : ∀ {e}, Happened (stamp pid now b.events ++ own) e →
      EventCase svc now cb call input b e ∨ Happened own e := fun he =>
    (happened_stamp_append.mp he).imp_left (run_event hb _)
  refine ⟨fun hheld => ?_, fun hacq => ?_, fun hrel => ?_, fun hno hdel => ?_,
    fun e he => he.append _, fun e he => happened_stamp_append.mpr (Or.inl he)⟩
  · rcases hevent hheld with hcase | hold
    · cases hcase with
      | tryAcquired hst => exact Or.inl hst
    · exact Or.inr hold
  · rcases hevent hacq with hcase | hold
    · cases hcase
    · exact hold
  · obtain ⟨victim, hrel⟩ := hrel
    rcases hevent hrel with hcase | hold
    · cases hcase
    · exact ⟨victim, hold⟩
  · obtain ⟨result, hend, hresult⟩ := hdel
    rcases hevent hend with hcase | hold
    · cases hcase with
      | providerEnd _ hin => exact absurd hresult (hno result hin)
    · exact ⟨result, hold, hresult⟩

section Turn

variable {own' : Log} {input : Input} {b : Block Status}

/-- A resumed call that did not just get the lock is as untouched as it was. -/
lemma LockTurn.untouched (t : LockTurn svc call .resume b own own')
    (hne : call.status ≠ .lockSet (some (.ok true))) (h : Untouched svc call.req own) :
    Untouched svc call.req own' where
  held hh := (t.held hh).elim hne h.held
  released := mt t.released h.released
  delivered := mt (t.delivered fun _ hin => by cases hin) h.delivered

lemma LockTurn.keep_delivered (t : LockTurn svc call input b own own')
    (h : Delivered svc call.req own) : Delivered svc call.req own' := by
  obtain ⟨result, hend, hresult⟩ := h
  exact ⟨result, t.keep _ hend, hresult⟩

lemma lockInv_afterLockSet {rc : RequestCollapser} {reply : Except RedisError Bool}
    (t : LockTurn svc call .resume b own own') (hst : call.status = .lockSet (some reply))
    (hrc : svc.collapser = some rc) (h : LockInv svc call own) :
    LockInv svc (call.goto now (afterLockSet now call cb rc reply).status) own' := by
  rw [LockInv, hst] at h
  obtain ⟨hun, hacquired⟩ := h
  have hunlocked : ∀ {status : Status}, status.Unlocked → status ≠ .lockSet none →
      reply ≠ .ok true → LockInv svc (call.goto now status) own' := by
    intro status hstatus hno hne
    exact lockInv_of_unlocked hstatus (t.untouched (by simpa [hst] using hne) hun)
      fun hst => absurd hst hno
  unfold afterLockSet
  split
  · -- `try_acquire` returned `True`
    refine ⟨⟨Bool.noConfusion, fun _ => by rw [hrc]; rfl, fun _ => t.keep _ (hacquired rfl)⟩,
      mt t.released hun.released, mt (t.delivered fun _ hin => ?_) hun.delivered⟩
    cases hin
  · exact hunlocked pollLoop_unlocked pollLoop_ne_lockSet (by simp)
  · exact hunlocked pollLoop_unlocked pollLoop_ne_lockSet (by simp)
  · exact hunlocked trivial (by simp [finish]) (by simp)

lemma lockInv_afterCacheSet {hasLock : Bool} {done : Completion}
    {reply : Except RedisError Unit} (t : LockTurn svc call .resume b own own')
    (hst : call.status = .cacheSet hasLock done (some reply)) (h : LockInv svc call own) :
    LockInv svc (call.goto now (afterCacheSet svc now call cb hasLock done reply).status) own' := by
  rw [LockInv, hst] at h
  obtain ⟨hflag, hunreleased, hdelivered⟩ := h
  unfold afterCacheSet
  dsimp only
  split
  · next hcond =>
    rw [Bool.and_eq_true] at hcond
    exact ⟨t.keep _ (hflag.acquired hcond.1), mt t.released hunreleased,
      t.keep_delivered hdelivered⟩
  · next hcond =>
    refine lockInv_conclude fun out hheld => ?_
    -- without a release the call holds no lock
    rcases t.held hheld with hst' | hheld
    · cases hst.symm.trans hst'
    · rw [Bool.and_eq_true, not_and] at hcond
      have hlock := (Bool.not_eq_false _).mp fun hno => hflag.held hno hheld
      exact absurd (hflag.collapser hlock) (hcond hlock)

lemma lockInv_afterLockDel {pending : Except Exn Completion} {reply : Except RedisError Unit}
    (t : LockTurn svc call .resume b own own') (hst : call.status = .lockDel pending (some reply))
    (h : LockInv svc call own) :
    LockInv svc (call.goto now (afterLockDel svc now call cb pending reply).status) own' := by
  rw [LockInv, hst] at h
  obtain ⟨hdelivered, hcase⟩ := h
  have hfinished : ∀ out, LockInv svc (call.goto now (.finished out)) own' := by
    intro out _ hreach
    -- the release came after a delivery; if it was not executed, Redis raised
    refine iff_of_true ?_ (t.keep_delivered hdelivered)
    rcases hcase with ⟨victim, hrel⟩ | ⟨op, err, hred, hne⟩
    · exact ⟨victim, t.keep _ hrel⟩
    · exact absurd ⟨op, err, t.keep _ hred, hne⟩ hreach
  unfold afterLockDel
  split
  · exact lockInv_conclude hfinished
  · exact lockInv_conclude hfinished
  · exact hfinished _

lemma lockInv_afterProvider {hasLock : Bool} {result : Except Exn Json}
    (t : LockTurn svc call (.adapter result) (afterProvider svc now call cb hasLock result) own
      own')
    (hst : call.status = .provider hasLock) (h : LockInv svc call own) :
    LockInv svc (call.goto now (afterProvider svc now call cb hasLock result).status) own' := by
  rw [LockInv, hst] at h
  obtain ⟨hflag, hunreleased, hundelivered⟩ := h
  have hflag' : LockFlag svc call.req own' hasLock := by
    refine ⟨fun hno hheld => ?_, hflag.collapser, fun hlock => t.keep _ (hflag.acquired hlock)⟩
    rcases t.held hheld with hst' | hheld
    · cases hst.symm.trans hst'
    · exact hflag.held hno hheld
  -- the call ends here without cache write and release, so neither side holds
  have hfinished : (∀ value, result = .ok value → ¬ Deliverable svc call.req value) →
      ∀ out, LockInv svc (call.goto now (.finished out)) own' := by
    intro hno out _ _
    refine iff_of_false (mt t.released hunreleased)
      (mt (t.delivered fun value hin => ?_) hundelivered)
    exact hno value (Input.adapter.inj hin)
  cases result with
  | error e =>
    have hraised := hfinished fun _ hok => by cases hok
    unfold afterProvider
    dsimp only
    split
    · exact hraised _
    · exact hraised _
  | ok result =>
    rw [afterProvider] at t ⊢
    rcases afterResult_status svc call cb hasLock result with
      ⟨done, hdone, hstatus⟩ | ⟨hnot, e, hstatus⟩
    -- the call goes on to the cache write: it has the lock it had, and a delivery
    · have hdeliverable : Deliverable svc call.req result := deliverable_iff.mpr ⟨done, hdone⟩
      rw [hstatus]
      exact ⟨hflag', mt t.released hunreleased, result, t.new _ providerEnd_mem_afterResult,
        hdeliverable⟩
    · rw [hstatus]
      refine hfinished (fun value hok hvalue => ?_) _
      cases hok
      obtain ⟨done, hdone⟩ := deliverable_iff.mp hvalue
      exact hnot done hdone

end Turn

lemma lockInv_run {input : Input} {b : Block Status} (h : LockInv svc call own)
    (hb : call.run svc now cb input = some b) :
    LockInv svc (call.goto now b.status) (stamp pid now b.events ++ own) := by
  have t : LockTurn svc call input b own (stamp pid now b.events ++ own) := lockTurn_of_run hb
  -- from here on only what the turn can change matters
  generalize stamp pid now b.events ++ own = own' at t ⊢
  cases run_case hb with
  | cacheGet hst =>
    rw [LockInv, hst] at h
    exact lockInv_of_unlocked afterCacheGet_unlocked (t.untouched (by simp [hst]) h.1)
      fun _ => mt t.acquired h.2
  | lockSet hst hrc => exact lockInv_afterLockSet t hst hrc h
  | pollGet hst =>
    rw [LockInv, hst] at h
    have hun := t.untouched (by simp [hst]) h
    unfold afterPollGet
    split
    · exact lockInv_of_unlocked trivial hun (by simp [finish])
    · exact lockInv_of_unlocked trivial hun (by simp)
    · exact lockInv_of_unlocked rfl hun (by simp [startProvider])
    · exact lockInv_of_unlocked trivial hun (by simp [finish])
  | sleeping hst =>
    rw [LockInv, hst] at h
    exact lockInv_of_unlocked pollLoop_unlocked (t.untouched (by simp [hst]) h)
      fun hst => absurd hst pollLoop_ne_lockSet
  | cacheSet hst => exact lockInv_afterCacheSet t hst h
  | lockDel hst => exact lockInv_afterLockDel t hst h
  | provider hst => exact lockInv_afterProvider t hst h

/-- Where the lock stands, in every run of one call. -/
theorem InferRun.lockInv (h : InferRun svc pid call own) : LockInv svc call own := by
  induction h with
  | start =>
    refine ⟨⟨?_, ?_, ?_⟩, ?_⟩
    · rintro ⟨_, hmem, -⟩
      cases hmem
    · rintro ⟨_, _, hmem, -⟩
      cases hmem
    · rintro ⟨_, ⟨_, hmem, -⟩, -⟩
      cases hmem
    · rintro ⟨_, hmem, -⟩
      cases hmem
  | exec _ hx ih => exact lockInv_exec ih hx
  | run _ hb ih => exact lockInv_run ih hb

namespace Gateway

variable {s : Gateway}

/-- **When the lock is released.** A call that got the lock, and met no Redis error before
or after the cache write, has released the lock when it ends exactly if its adapter
returned a deliverable result. -/
theorem lock_released_iff (hs : Reachable svc s) (hp : s.procs pid = .infer call)
    {out : Except Exn InferResponse} (hfin : call.status = .finished out)
    (hlock : ∃ t, ⟨pid, t, .tryAcquired⟩ ∈ s.log)
    (hredis : ∀ t op err, ⟨pid, t, .redisError op err⟩ ∈ s.log → op = .cacheSet) :
    (∃ t victim, ⟨pid, t, .released (svc.lockKey call.req) victim⟩ ∈ s.log) ↔
      ∃ t result, ⟨pid, t, .providerEnd call.req (.ok result)⟩ ∈ s.log ∧
        Deliverable svc call.req result := by
  have hown := hs.ownInv pid
  rw [hp] at hown
  have hinv := InferRun.lockInv hown
  rw [LockInv, hfin] at hinv
  -- errors of the cache write do not keep the call from its release
  have hreach : ¬ RedisUnreachable (own pid s.log) := by
    rintro ⟨op, err, hmem, hne⟩
    obtain ⟨t, ht⟩ := happened_own.mp hmem
    exact hne (hredis t op err ht)
  have hiff := hinv (happened_own.mpr hlock) hreach
  simp only [Released, Delivered, happened_own] at hiff
  rw [exists_comm, hiff]
  constructor
  · rintro ⟨result, ⟨t, ht⟩, hdel⟩
    exact ⟨t, result, ht, hdel⟩
  · rintro ⟨t, result, ht, hdel⟩
    exact ⟨result, ⟨t, ht⟩, hdel⟩

/-- A leader whose provider times out. -/
def timedOutLeader : List Action :=
  [.infer 0 "a" sampleRequest, .redis 0 .ok, .input 0 .resume, .redis 0 .ok, .input 0 .resume,
    .tick 5, .input 0 (.adapter (.error .timeoutError))]

/-- A leader whose provider answers. -/
def answeredLeader : List Action :=
  [.infer 0 "a" sampleRequest, .redis 0 .ok, .input 0 .resume, .redis 0 .ok, .input 0 .resume,
    .input 0 (.adapter (.ok sampleResult)), .redis 0 .ok, .input 0 .resume, .redis 0 .ok,
    .input 0 .resume]

/-- Some entry of the log got the lock, and none met a Redis error. -/
def heldWithoutErrors (pid : ℕ) (log : Log) : Bool :=
  (log.any fun entry => match entry with
    | ⟨pid', _, .tryAcquired⟩ => pid' = pid
    | _ => false) &&
  log.all fun entry => match entry.event with
    | .redisError _ _ => false
    | _ => true

lemma of_heldWithoutErrors {log : Log} (h : heldWithoutErrors pid log = true) :
    (∃ t, ⟨pid, t, .tryAcquired⟩ ∈ log) ∧
      ∀ t op err, ⟨pid, t, .redisError op err⟩ ∈ log → op = .cacheSet := by
  rw [heldWithoutErrors, Bool.and_eq_true, List.any_eq_true, List.all_eq_true] at h
  obtain ⟨⟨entry, hmem, hentry⟩, hall⟩ := h
  refine ⟨?_, fun t op err hred => by cases hall _ hred⟩
  split at hentry
  · rw [decide_eq_true_eq] at hentry
    exact ⟨_, hentry ▸ hmem⟩
  · cases hentry

/-- The leader raises and its lock stays. -/
theorem timed_out_leader_keeps_lock :
    ¬ ∀ (svc : InferenceService) (s : Gateway) (pid : ℕ) (call : InferCall)
      (out : Except Exn InferResponse), Reachable svc s → s.procs pid = .infer call →
      call.status = .finished out → (∃ t, ⟨pid, t, .tryAcquired⟩ ∈ s.log) →
      (∀ t op err, ⟨pid, t, .redisError op err⟩ ∈ s.log → op = .cacheSet) →
        ∃ t victim, ⟨pid, t, .released (svc.lockKey call.req) victim⟩ ∈ s.log := by
  intro hall
  have hfinished : isFinished ((after sample timedOutLeader).procs 0) = true := by decide +kernel
  have hheld : heldWithoutErrors 0 (after sample timedOutLeader).log = true := by decide +kernel
  obtain ⟨call, out, hp, hfin⟩ := exists_of_isFinished hfinished
  obtain ⟨hlock, hredis⟩ := of_heldWithoutErrors hheld
  obtain ⟨t, victim, hrel⟩ := hall sample _ 0 call out (reachable_after _ _) hp hfin hlock hredis
  have hnone : (after sample timedOutLeader).log.all (fun entry => match entry.event with
      | .released _ _ => false
      | _ => true) = true := by decide +kernel
  cases List.all_eq_true.mp hnone _ hrel

theorem lock_released_iff_answeredLeader :
    ∃ call, (after sample answeredLeader).procs 0 = .infer call ∧
      ((∃ t victim, ⟨0, t, .released (sample.lockKey call.req) victim⟩ ∈
          (after sample answeredLeader).log) ↔
        ∃ t result, ⟨0, t, .providerEnd call.req (.ok result)⟩ ∈ (after sample answeredLeader).log ∧
          Deliverable sample call.req result) := by
  have hfinished : isFinished ((after sample answeredLeader).procs 0) = true := by decide +kernel
  have hheld : heldWithoutErrors 0 (after sample answeredLeader).log = true := by decide +kernel
  obtain ⟨call, out, hp, hfin⟩ := exists_of_isFinished hfinished
  obtain ⟨hlock, hredis⟩ := of_heldWithoutErrors hheld
  exact ⟨call, hp, lock_released_iff (reachable_after _ _) hp hfin hlock hredis⟩

end Gateway
end InferenceApi
