import InferenceApi.Gateway.CacheSoundness

/-!
# Single flight

Calls for one request, from an empty cache and a free lock. One of them takes the lock and
becomes the leader; the others follow: they find the value at once, or are refused the lock
and poll until the value is there. `Leading` and `Following` say where the leader and a
follower can be, and how far each is from missing the value.

Nobody looks into the cache again after taking the lock. So a call that missed the value
before it was stored and asks for the lock after it was released leads a second flight.
`LocksInTime` excludes exactly this, and then there is one flight only.
-/

namespace InferenceApi

open Transition TtlStore CircuitBreaker

/-- When a follower goes on at the latest, if answers and wake-ups take `lag` at most. -/
def InferCall.due (lag : ℚ) (call : InferCall) : Option ℚ :=
  match call.status with
  | .lockSet (some (.ok false)) => some (call.since + lag)
  | .pollGet _ _ => some (call.since + lag)
  | .sleeping _ wakeAt => some (wakeAt + lag)
  | _ => none

namespace Gateway

/-! ## What is assumed of a run -/

section Assumptions

variable (svc : InferenceService) (req : InferRequest) (lag : ℚ) (s : Gateway)

/-- What is stored under the key lives longer than `slack`. -/
def Fresh (key : String) (slack : ℚ) : Prop :=
  ∀ cell, s.redis key = some cell → s.now + slack < cell.expireAt

/-- Followers have gone on by the time they are due. -/
def OnSchedule (now : ℚ) : Prop :=
  ∀ pid call t, s.procs pid = .infer call → call.due lag = some t → now ≤ t

/-- All requests are the same and come before the entry expires; Redis does not fail and the
provider succeeds; the lock is released before it expires, and followers poll on schedule. -/
def Assumed : Action → Prop
  | .tick d => Fresh s (svc.lockKey req) d ∧ OnSchedule lag s (s.now + d)
  | .infer _ _ req' => req' = req ∧ Fresh s (svc.makeKey req) 0
  | .stream _ _ => False
  | .redis _ fate => fate = .ok
  | .input _ .resume => True
  | .input _ (.adapter result) => ∃ value, result = .ok value ∧ Succeeds svc req value
  | .streamInput _ _ => False

/-- A lock is asked for before a value is stored, or while the leader still holds it and the
value can still be polled. -/
def LocksInTime : Action → Prop
  | .redis pid _ => ∀ call, s.procs pid = .infer call → call.status = .lockSet none →
      s.redis (svc.makeKey req) = none ∨
        (∃ w, get s.redis s.now (svc.lockKey req) = some w) ∧ Fresh s (svc.makeKey req) (2 * lag)
  | _ => True

end Assumptions

/-- A polling round fits into the life of a cache entry, and a flight with a polling round
into the time followers wait. -/
structure Paced (svc : InferenceService) (rc : RequestCollapser) (lag : ℚ) : Prop where
  lag_nonneg : 0 ≤ lag
  lockTtl_pos : 0 < rc.lockTtlS
  poll_nonneg : 0 ≤ rc.pollIntervalS
  poll_lt : rc.pollIntervalS + 3 * lag < svc.cacheTtl
  wait_le : rc.lockTtlS + rc.pollIntervalS + 3 * lag ≤ rc.waitTimeoutS

/-- The shipped parameters are well paced. -/
lemma paced_default {svc : InferenceService} {lag : ℚ} (h0 : 0 ≤ lag) (h1 : 1 / 20 + 3 * lag < 1) :
    Paced svc {} lag where
  lag_nonneg := h0
  lockTtl_pos := by norm_num
  poll_nonneg := by norm_num
  poll_lt := by
    have httl : (1 : ℚ) ≤ svc.cacheTtl := by exact_mod_cast svc.cacheTtl_pos
    exact h1.trans_le httl
  wait_le := by
    norm_num
    linarith

/-! ## The leader and its followers -/

variable {svc : InferenceService} {rc : RequestCollapser} {req : InferRequest} {lag : ℚ}
  {s s' : Gateway} {a : Action} {pid : ℕ} {call : InferCall}

/-- Where the leader can be: whether it holds the lock, whether it has called the provider,
and what it has stored. -/
inductive Leading (svc : InferenceService) (req : InferRequest) (Good : Completion → Prop) :
    Bool → Bool → Option Completion → Status → Prop
  | acquired : Leading svc req Good true false none (.lockSet (some (.ok true)))
  | calling : Leading svc req Good true true none (.provider true)
  | storing {done : Completion} : Good done →
      Leading svc req Good true true none (.cacheSet true done none)
  | stored {done : Completion} :
      Leading svc req Good true true (some done) (.cacheSet true done (some (.ok ())))
  | releasing {done : Completion} :
      Leading svc req Good true true (some done) (.lockDel (.ok done) none)
  | released {done : Completion} :
      Leading svc req Good false true (some done) (.lockDel (.ok done) (some (.ok ())))
  | answered {done : Completion} {resp : InferResponse} : Answers svc req done false resp →
      Leading svc req Good false true (some done) (.finished (.ok resp))

/-- The look at `t` is a look at the value: before it is stored, `t` is at most a polling
round away, afterwards the value lives longer than that. -/
def LooksInTime (rc : RequestCollapser) (lag now : ℚ) (stored : Option (Completion × ℚ))
    (t : ℚ) : Prop :=
  match stored with
  | none => t ≤ now + rc.pollIntervalS + 3 * lag
  | some (_, expireAt) => t < expireAt

/-- The deadline leaves room for a look at `t`. -/
def BeforeDeadline (rc : RequestCollapser) (acquiredAt : ℚ) (stored : Option (Completion × ℚ))
    (t deadline : ℚ) : Prop :=
  match stored with
  | none => acquiredAt + rc.waitTimeoutS ≤ deadline
  | some _ => t < deadline

/-- Where a follower can be, and when it looks into the cache next. -/
inductive Following (svc : InferenceService) (rc : RequestCollapser) (req : InferRequest)
    (lag now acquiredAt : ℚ) (stored : Option (Completion × ℚ)) : Status → ℚ → Prop
  | starting {since : ℚ} : Following svc rc req lag now acquiredAt stored (.cacheGet none) since
  | missed {since : ℚ} :
      Following svc rc req lag now acquiredAt stored (.cacheGet (some (.ok none))) since
  | hit {since expireAt : ℚ} {done : Completion} : stored = some (done, expireAt) →
      Following svc rc req lag now acquiredAt stored
        (.cacheGet (some (.ok (some (done.payload req))))) since
  | trying {since : ℚ} : Following svc rc req lag now acquiredAt stored (.lockSet none) since
  | refused {since : ℚ} : LooksInTime rc lag now stored (since + 2 * lag) →
      Following svc rc req lag now acquiredAt stored (.lockSet (some (.ok false))) since
  | polling {since deadline : ℚ} : LooksInTime rc lag now stored (since + lag) →
      BeforeDeadline rc acquiredAt stored (since + lag) deadline →
      Following svc rc req lag now acquiredAt stored (.pollGet deadline none) since
  | pollMissed {since deadline : ℚ} :
      LooksInTime rc lag now stored (since + rc.pollIntervalS + 3 * lag) →
      BeforeDeadline rc acquiredAt stored (since + rc.pollIntervalS + 3 * lag) deadline →
      Following svc rc req lag now acquiredAt stored (.pollGet deadline (some (.ok none))) since
  | pollHit {since deadline expireAt : ℚ} {done : Completion} : stored = some (done, expireAt) →
      Following svc rc req lag now acquiredAt stored
        (.pollGet deadline (some (.ok (some (done.payload req))))) since
  | sleeping {since deadline wakeAt : ℚ} : LooksInTime rc lag now stored (wakeAt + 2 * lag) →
      BeforeDeadline rc acquiredAt stored (wakeAt + 2 * lag) deadline →
      Following svc rc req lag now acquiredAt stored (.sleeping deadline wakeAt) since
  | answered {since expireAt : ℚ} {done : Completion} {resp : InferResponse} :
      stored = some (done, expireAt) → Answers svc req done true resp →
      Following svc rc req lag now acquiredAt stored (.finished (.ok resp)) since

/-- Where a call can be before anyone holds the lock. -/
inductive Newcomer : Status → Prop
  | starting : Newcomer (.cacheGet none)
  | missed : Newcomer (.cacheGet (some (.ok none)))
  | trying : Newcomer (.lockSet none)

/-- A closed breaker lets a call through. -/
lemma circuitBreakerCheck_closed {now : ℚ} (hrc : svc.collapser = some rc) :
    circuitBreakerCheck svc now call {} = ⟨{}, .lockSet none, [.isOpen false]⟩ := by
  have hopen : isOpen svc.breaker now {} = (false, {}) := rfl
  simp [circuitBreakerCheck, hopen, hrc]

/-! ## What followers do -/

section Following

variable {now now' acquiredAt t t' deadline since : ℚ} {stored : Option (Completion × ℚ)}
  {status : Status}

lemma LooksInTime.mono (h : LooksInTime rc lag now stored t) (hnow : now ≤ now') (ht : t' ≤ t) :
    LooksInTime rc lag now' stored t' := by
  cases stored with
  | none =>
    have hle : t ≤ now + rc.pollIntervalS + 3 * lag := h
    change t' ≤ now' + rc.pollIntervalS + 3 * lag
    linarith
  | some _ => exact ht.trans_lt h

lemma BeforeDeadline.mono (h : BeforeDeadline rc acquiredAt stored t deadline) (ht : t' ≤ t) :
    BeforeDeadline rc acquiredAt stored t' deadline := by
  cases stored with
  | none => exact h
  | some _ => exact ht.trans_lt h

/-- Waiting brings no follower further than its next look. -/
lemma Following.tick (h : Following svc rc req lag now acquiredAt stored status since)
    (hnow : now ≤ now') : Following svc rc req lag now' acquiredAt stored status since := by
  cases h with
  | starting => exact .starting
  | missed => exact .missed
  | hit hstored => exact .hit hstored
  | trying => exact .trying
  | refused hlook => exact .refused (hlook.mono hnow le_rfl)
  | polling hlook hdeadline => exact .polling (hlook.mono hnow le_rfl) hdeadline
  | pollMissed hlook hdeadline => exact .pollMissed (hlook.mono hnow le_rfl) hdeadline
  | pollHit hstored => exact .pollHit hstored
  | sleeping hlook hdeadline => exact .sleeping (hlook.mono hnow le_rfl) hdeadline
  | answered hstored hresp => exact .answered hstored hresp

/-- Once the value is stored, every follower will look before it expires and before the
follower's own deadline. -/
lemma Following.store (h : Following svc rc req lag now acquiredAt none status since)
    (hpaced : Paced svc rc lag) (hnow : now < acquiredAt + rc.lockTtlS) (done : Completion) :
    Following svc rc req lag now acquiredAt (some (done, now + svc.cacheTtl)) status since := by
  have hlook : ∀ {t}, LooksInTime rc lag now none t →
      LooksInTime rc lag now (some (done, now + svc.cacheTtl)) t := by
    intro t ht
    have hle : t ≤ now + rc.pollIntervalS + 3 * lag := ht
    change t < now + svc.cacheTtl
    linarith [hpaced.poll_lt]
  have hbefore : ∀ {t deadline}, LooksInTime rc lag now none t →
      BeforeDeadline rc acquiredAt none t deadline →
      BeforeDeadline rc acquiredAt (some (done, now + svc.cacheTtl)) t deadline := by
    intro t deadline ht hdeadline
    have hle : t ≤ now + rc.pollIntervalS + 3 * lag := ht
    have hwait : acquiredAt + rc.waitTimeoutS ≤ deadline := hdeadline
    change t < deadline
    linarith [hpaced.wait_le]
  cases h with
  | starting => exact .starting
  | missed => exact .missed
  | hit hstored => cases hstored
  | trying => exact .trying
  | refused h => exact .refused (hlook h)
  | polling h hdeadline => exact .polling (hlook h) (hbefore h hdeadline)
  | pollMissed h hdeadline => exact .pollMissed (hlook h) (hbefore h hdeadline)
  | pollHit hstored => cases hstored
  | sleeping h hdeadline => exact .sleeping (hlook h) (hbefore h hdeadline)
  | answered hstored => cases hstored

/-- The cache entry of a flight. -/
def Stores (svc : InferenceService) (req : InferRequest) (redis : Redis) :
    Option (Completion × ℚ) → Prop
  | none => redis (svc.makeKey req) = none
  | some (done, expireAt) =>
    ∃ writer, redis (svc.makeKey req) = some ⟨⟨done.payload req, writer⟩, expireAt⟩

lemma Stores.congr {redis redis' : Redis} (h : Stores svc req redis stored)
    (heq : redis' (svc.makeKey req) = redis (svc.makeKey req)) : Stores svc req redis' stored := by
  cases stored with
  | none => exact heq.trans h
  | some entry =>
    obtain ⟨writer, hcell⟩ := h
    exact ⟨writer, heq.trans hcell⟩

lemma Stores.get_none {redis : Redis} (h : Stores svc req redis none) :
    SemanticCache.get svc now redis req = none := by
  rw [SemanticCache.get, get_of_absent h]
  rfl

lemma Stores.get_some {redis : Redis} {done : Completion} {expireAt : ℚ}
    (h : Stores svc req redis (some (done, expireAt))) (hlt : now < expireAt) :
    SemanticCache.get svc now redis req = some (done.payload req) := by
  obtain ⟨writer, hcell⟩ := h
  rw [SemanticCache.get, get_of_cell hcell hlt]
  rfl

lemma Stores.get_eq {redis : Redis} (h : Stores svc req redis stored) (now : ℚ) :
    SemanticCache.get svc now redis req = none ∨
      ∃ done expireAt, stored = some (done, expireAt) ∧
        SemanticCache.get svc now redis req = some (done.payload req) := by
  cases stored with
  | none => exact Or.inl h.get_none
  | some entry =>
    obtain ⟨done, expireAt⟩ := entry
    obtain ⟨writer, hcell⟩ := h
    rw [SemanticCache.get, TtlStore.get, hcell, Option.bind_some, Cell.live]
    split
    · exact Or.inr ⟨done, expireAt, rfl, rfl⟩
    · exact Or.inl rfl

/-- Redis answers a follower's look with the value if there is one, and refuses it the
lock. -/
lemma following_exec (hpaced : Paced svc rc lag) (hrc : svc.collapser = some rc)
    (h : Following svc rc req lag s.now acquiredAt stored call.status call.since)
    (hreq : call.req = req) (hstores : Stores svc req s.redis stored)
    (hdue : ∀ t, call.due lag = some t → s.now ≤ t)
    (hlock : call.status = .lockSet none →
      (∃ w, get s.redis s.now (svc.lockKey req) = some w) ∧ Fresh s (svc.makeKey req) (2 * lag))
    {x : Executed} (hx : call.exec svc s.now pid .ok s.redis = some x) :
    x.redis = s.redis ∧ Following svc rc req lag s.now acquiredAt stored x.status s.now := by
  subst hreq
  have hlag := hpaced.lag_nonneg
  cases exec_case hx with
  | cacheGet =>
    refine ⟨rfl, ?_⟩
    rcases hstores.get_eq s.now with hget | ⟨done, expireAt, rfl, hget⟩
    · rw [hget]
      exact .missed
    · rw [hget]
      exact .hit rfl
  | lockSet hst hrc' =>
    cases hrc.symm.trans hrc'
    obtain ⟨⟨w, hheld⟩, hfresh⟩ := hlock hst
    -- the lock is live, so this `SET NX` is refused
    rcases rc.tryAcquire_cases s.now pid s.redis (svc.lockKey call.req) with ⟨hfree, -⟩ | ⟨-, hT⟩
    · cases hheld.symm.trans hfree
    · rw [hT]
      refine ⟨rfl, .refused ?_⟩
      cases stored with
      -- nothing is stored yet: two lags are less than a polling round
      | none =>
        change s.now + 2 * lag ≤ s.now + rc.pollIntervalS + 3 * lag
        linarith [hpaced.poll_nonneg]
      -- the entry outlives the first look, as the schedule promised
      | some =>
        obtain ⟨writer, hcell⟩ := hstores
        exact hfresh _ hcell
  | pollGet hst =>
    rw [InferCall.due, hst] at hdue
    rw [hst] at h
    have hnow := hdue _ rfl
    cases h with
    | polling hlook hdeadline =>
      refine ⟨rfl, ?_⟩
      cases stored with
      | none =>
        rw [hstores.get_none]
        exact .pollMissed le_rfl hdeadline
      | some entry =>
        -- the look is in time
        have hlt : call.since + lag < entry.2 := hlook
        rw [hstores.get_some (hnow.trans_lt hlt)]
        exact .pollHit rfl
  | _ hst =>
    rw [hst] at h
    cases h

lemma pollLoop_before {cb : CircuitBreaker} (h : now < deadline) :
    pollLoop now call cb deadline = ⟨cb, .pollGet deadline none, []⟩ := if_pos h

/-- A follower looks, waits and looks again until it has found the value. -/
lemma following_run (hpaced : Paced svc rc lag) (hrc : svc.collapser = some rc)
    (h : Following svc rc req lag now acquiredAt stored call.status call.since)
    (hreq : call.req = req) (ht : call.t0 ≤ now)
    (hdue : ∀ t, call.due lag = some t → now ≤ t) (hacquired : acquiredAt ≤ now)
    (hflight : stored = none → now < acquiredAt + rc.lockTtlS)
    (hgood : ∀ done expireAt, stored = some (done, expireAt) → done.Presentable svc)
    {input : Input} {b : Block Status} (hb : call.run svc now {} input = some b) :
    b.cb = {} ∧ (∀ hasLock, b.status ≠ .provider hasLock) ∧
      Following svc rc req lag now acquiredAt stored b.status now := by
  subst hreq
  have hlag := hpaced.lag_nonneg
  have hfound : ∀ {done expireAt}, stored = some (done, expireAt) →
      ∃ resp, respondCached svc now call (done.payload call.req) = .ok resp ∧
        Answers svc call.req done true resp := fun hstored =>
    exists_respondCached (hgood _ _ hstored) ht
  cases run_case hb with
  | cacheGet hst =>
    rw [hst] at h
    cases h with
    | missed =>
      rw [afterCacheGet, circuitBreakerCheck_closed hrc]
      exact ⟨rfl, fun _ => Status.noConfusion, .trying⟩
    | hit hstored =>
      obtain ⟨resp, hresp, hanswer⟩ := hfound hstored
      rw [afterCacheGet, hresp]
      exact ⟨rfl, fun _ => Status.noConfusion, .answered hstored hanswer⟩
  | lockSet hst hrc' =>
    cases hrc.symm.trans hrc'
    rw [InferCall.due, hst] at hdue
    rw [hst] at h
    cases h with
    | refused hlook =>
      have hnow := hdue _ rfl
      -- the wait begins now, so its deadline is ahead
      have hwait : 0 < rc.waitTimeoutS := by
        linarith [hpaced.lockTtl_pos, hpaced.poll_nonneg, hpaced.wait_le]
      rw [afterLockSet, pollLoop_before (by linarith)]
      refine ⟨rfl, fun _ => Status.noConfusion, .polling (hlook.mono le_rfl (by linarith)) ?_⟩
      cases stored with
      | none => exact add_le_add_left hacquired _
      | some =>
        change now + lag < now + rc.waitTimeoutS
        linarith [hpaced.lockTtl_pos, hpaced.poll_nonneg, hpaced.wait_le]
  | pollGet hst hrc' =>
    cases hrc.symm.trans hrc'
    rw [InferCall.due, hst] at hdue
    rw [hst] at h
    have hnow := hdue _ rfl
    cases h with
    | pollMissed hlook hdeadline =>
      rw [afterPollGet]
      exact ⟨rfl, fun _ => Status.noConfusion, .sleeping (hlook.mono le_rfl (by linarith))
        (hdeadline.mono (by linarith))⟩
    | pollHit hstored =>
      obtain ⟨resp, hresp, hanswer⟩ := hfound hstored
      rw [afterPollGet, hresp]
      exact ⟨rfl, fun _ => Status.noConfusion, .answered hstored hanswer⟩
  | @sleeping deadline wakeAt hst =>
    rw [InferCall.due, hst] at hdue
    rw [hst] at h
    have hnow := hdue _ rfl
    cases h with
    | sleeping hlook hdeadline =>
      -- the loop goes on: the leader's lock, and with it the flight, ends before the wait does
      have hlt : now < deadline := by
        cases stored with
        | none =>
          have hwait : acquiredAt + rc.waitTimeoutS ≤ deadline := hdeadline
          linarith [hflight rfl, hpaced.poll_nonneg, hpaced.wait_le]
        | some =>
          have hbefore : wakeAt + 2 * lag < deadline := hdeadline
          linarith
      rw [pollLoop_before hlt]
      exact ⟨rfl, fun _ => Status.noConfusion, .polling (hlook.mono le_rfl (by linarith))
        (hdeadline.mono (by linarith))⟩
  | _ hst =>
    rw [hst] at h
    cases h

end Following

/-! ## What the leader does -/

section Leader

variable {Good : Completion → Prop} {held called : Bool} {stored : Option Completion}
  {now : ℚ} {status : Status}

lemma Leading.mono {Good' : Completion → Prop}
    (h : Leading svc req Good held called stored status)
    (hle : ∀ done, Good done → Good' done) :
    Leading svc req Good' held called stored status := by
  cases h with
  | acquired => exact .acquired
  | calling => exact .calling
  | storing hdone => exact .storing (hle _ hdone)
  | stored => exact .stored
  | releasing => exact .releasing
  | released => exact .released
  | answered hresp => exact .answered hresp

/-- Without the lock the leader has stored something. -/
lemma Leading.stored_of_released (h : Leading svc req Good false called stored status) :
    ∃ done, stored = some done := by
  cases h with
  | @released done => exact ⟨done, rfl⟩
  | @answered done => exact ⟨done, rfl⟩

lemma Leading.called_of_stored {done : Completion}
    (h : Leading svc req Good held called (some done) status) : called = true := by
  cases h <;> rfl

/-- The leader returns its own completion. -/
lemma Leading.of_finished {out : Except Exn InferResponse}
    (h : Leading svc req Good held called stored (.finished out)) :
    called = true ∧ ∃ done resp, stored = some done ∧ out = .ok resp ∧
      Answers svc req done false resp := by
  cases h with
  | answered hanswer => exact ⟨rfl, _, _, rfl, rfl, hanswer⟩

/-- The leader's commands are to store its completion and to delete the lock. -/
lemma leading_exec (h : Leading svc req Good held called stored call.status)
    (hreq : call.req = req) {redis : Redis} {x : Executed}
    (hx : call.exec svc now pid .ok redis = some x) :
    held = true ∧ called = true ∧
      ((stored = none ∧ ∃ done, Good done ∧
          x.redis = SemanticCache.set svc now pid redis req (done.payload req) ∧
          Leading svc req Good true true (some done) x.status) ∨
        (∃ done, stored = some done) ∧
          x.redis = RequestCollapser.release redis (svc.lockKey req) ∧
          Leading svc req Good false true stored x.status) := by
  subst hreq
  cases exec_case hx with
  | cacheSet hst =>
    rw [hst] at h
    cases h with
    | storing hdone => exact ⟨rfl, rfl, Or.inl ⟨rfl, _, hdone, rfl, .stored⟩⟩
  | lockDel hst =>
    rw [hst] at h
    cases h with
    | releasing => exact ⟨rfl, rfl, Or.inr ⟨⟨_, rfl⟩, rfl, .released⟩⟩
  | _ hst =>
    rw [hst] at h
    cases h

lemma afterCacheSet_held {cb : CircuitBreaker} {done : Completion}
    (hrc : svc.collapser = some rc) :
    afterCacheSet svc now call cb true done (.ok ()) = ⟨cb, .lockDel (.ok done) none, []⟩ :=
  if_pos (by rw [hrc]; rfl)

/-- The leader's turns: it calls the provider once, and goes on to store, release and
answer. -/
lemma leading_run (Good' : Completion → Prop) (hrc : svc.collapser = some rc)
    (h : Leading svc req Good held called stored call.status) (hreq : call.req = req)
    (ht : call.t0 ≤ now) (hgood : ∀ done, stored = some done → done.Presentable svc)
    {input : Input} {b : Block Status}
    (hinput : ∀ result, input = .adapter result →
      ∃ value, result = .ok value ∧ Succeeds svc req value)
    (hb : call.run svc now {} input = some b)
    (hnew : ∀ value done, .providerEnd req (.ok value) ∈ b.events → Completes svc req value done →
      done.Presentable svc → Good' done) :
    b.cb = {} ∧
      (called = false ∧ b.events = [.providerStart req, .tryAcquired] ∧
          Leading svc req Good' held true stored b.status ∨
        called = true ∧ (∀ hasLock, b.status ≠ .provider hasLock) ∧
          Leading svc req Good' held true stored b.status) := by
  subst hreq
  cases run_case hb with
  | lockSet hst =>
    rw [hst] at h
    cases h with
    | acquired => exact ⟨rfl, Or.inl ⟨rfl, rfl, .calling⟩⟩
  | @provider hasLock result hst =>
    rw [hst] at h
    cases h with
    | calling =>
      obtain ⟨value, rfl, done, hdone, hpresentable⟩ := hinput _ rfl
      refine ⟨afterResult_cb, Or.inr ⟨rfl, ?_⟩⟩
      have hend : Event.providerEnd call.req (.ok value) ∈
          (afterResult svc call {} true value).events := providerEnd_mem_afterResult
      change (∀ hasLock, (afterResult svc call {} true value).status ≠ .provider hasLock) ∧
        Leading svc call.req Good' true true none (afterResult svc call {} true value).status
      -- the provider succeeds, so its result does complete
      rcases afterResult_status svc call {} true value with ⟨done', hdone', hst'⟩ | ⟨hnone, -⟩
      · cases hdone.unique hdone'
        rw [hst']
        exact ⟨fun _ => Status.noConfusion, .storing (hnew value done hend hdone hpresentable)⟩
      · exact absurd hdone (hnone done)
  | cacheSet hst =>
    rw [hst] at h
    cases h with
    | stored =>
      rw [afterCacheSet_held hrc]
      exact ⟨rfl, Or.inr ⟨rfl, fun _ => Status.noConfusion, .releasing⟩⟩
  | lockDel hst =>
    rw [hst] at h
    cases h with
    | @released done =>
      -- after the release the response is built, and it validates
      obtain ⟨resp, hresp, hanswer⟩ := exists_buildResponse call.req (hgood done rfl) ht false
      rw [afterLockDel, conclude, hresp]
      exact ⟨rfl, Or.inr ⟨rfl, fun _ => Status.noConfusion, .answered hanswer⟩⟩
  | _ hst =>
    rw [hst] at h
    cases h

end Leader

/-! ## The flight -/

/-- A flight: who leads it, since when, how far it is, and what it has stored until when. -/
structure Flight where
  leader : ℕ
  acquiredAt : ℚ
  held : Bool
  called : Bool
  stored : Option (Completion × ℚ)

/-- The completion of a provider call of this request. -/
structure Produces (svc : InferenceService) (req : InferRequest) (log : Log) (leader : ℕ)
    (done : Completion) : Prop where
  presentable : done.Presentable svc
  called : ∃ t result, ⟨leader, t, .providerEnd req (.ok result)⟩ ∈ log ∧
    Completes svc req result done

lemma Produces.append {log : Log} {leader : ℕ} {done : Completion}
    (h : Produces svc req log leader done) (new : Log) :
    Produces svc req (new ++ log) leader done := by
  obtain ⟨t, result, hmem, hdone⟩ := h.called
  exact ⟨h.presentable, t, result, List.mem_append_right _ hmem, hdone⟩

/-- The lock of a flight. -/
def Locks (svc : InferenceService) (rc : RequestCollapser) (req : InferRequest) (redis : Redis)
    (now acquiredAt : ℚ) : Bool → Prop
  | true => (∃ w, redis (svc.lockKey req) = some ⟨w, acquiredAt + rc.lockTtlS⟩) ∧
      now < acquiredAt + rc.lockTtlS
  | false => redis (svc.lockKey req) = none

/-- What holds of every call. -/
structure CallInv (req : InferRequest) (lag : ℚ) (now : ℚ) (call : InferCall) : Prop where
  req : call.req = req
  t0 : call.t0 ≤ now
  due : ∀ t, call.due lag = some t → now ≤ t

/-- Nobody has taken the lock yet. -/
structure Ready (svc : InferenceService) (req : InferRequest) (s : Gateway) : Prop where
  lock : s.redis (svc.lockKey req) = none
  value : s.redis (svc.makeKey req) = none
  starts : providerStarts s.log = []
  calls : ∀ pid call, s.procs pid = .infer call → Newcomer call.status

/-- Where everybody is during and after a flight. -/
structure Flying (svc : InferenceService) (rc : RequestCollapser) (req : InferRequest) (lag : ℚ)
    (f : Flight) (s : Gateway) : Prop where
  acquiredAt : f.acquiredAt ≤ s.now
  lock : Locks svc rc req s.redis s.now f.acquiredAt f.held
  value : Stores svc req s.redis f.stored
  starts : providerStarts s.log = if f.called then [f.leader] else []
  produced : ∀ done expireAt, f.stored = some (done, expireAt) →
    Produces svc req s.log f.leader done
  leader : ∃ call, s.procs f.leader = .infer call ∧
    Leading svc req (Produces svc req s.log f.leader) f.held f.called (f.stored.map Prod.fst)
      call.status
  others : ∀ pid call, pid ≠ f.leader → s.procs pid = .infer call →
    Following svc rc req lag s.now f.acquiredAt f.stored call.status call.since

/-- There is one flight at most. -/
structure FlightInv (svc : InferenceService) (rc : RequestCollapser) (req : InferRequest)
    (lag : ℚ) (s : Gateway) : Prop where
  closed : s.cb = {}
  calls : ∀ pid call, s.procs pid = .infer call → CallInv req lag s.now call
  phase : Ready svc req s ∨ ∃ f, Flying svc rc req lag f s

/-! ### Time and arrivals -/

section Steps

variable {f : Flight} {now d : ℚ} {status : Status} {redis : Redis} {cb : CircuitBreaker}
  {es : List Event}

lemma CallInv.tick (h : CallInv req lag s.now call) (hp : s.procs pid = .infer call)
    (hd : 0 ≤ d) (hschedule : OnSchedule lag s (s.now + d)) :
    CallInv req lag (s.now + d) call :=
  ⟨h.req, by linarith [h.t0], fun t ht => hschedule pid call t hp ht⟩

/-- A call that has just gone on has time. -/
lemma CallInv.goto (h : CallInv req lag now call) (hlag : 0 ≤ lag)
    (hsleep : ∀ deadline wakeAt, status = .sleeping deadline wakeAt → now ≤ wakeAt) :
    CallInv req lag now (call.goto now status) where
  req := h.req
  t0 := h.t0
  due t ht := by
    unfold InferCall.due at ht
    split at ht
    · cases ht
      exact le_add_of_nonneg_right hlag
    · cases ht
      exact le_add_of_nonneg_right hlag
    · next hst =>
      cases ht
      linarith [hsleep _ _ hst]
    · cases ht

lemma FlightInv.tick (h : FlightInv svc rc req lag s) (hd : 0 ≤ d)
    (hlock : Fresh s (svc.lockKey req) d) (hschedule : OnSchedule lag s (s.now + d)) :
    FlightInv svc rc req lag { s with now := s.now + d } where
  closed := h.closed
  calls pid call hp := (h.calls pid call hp).tick hp hd hschedule
  phase := by
    refine h.phase.imp (fun hready => ⟨hready.lock, hready.value, hready.starts, hready.calls⟩) ?_
    rintro ⟨f, hfly⟩
    have hnow : s.now ≤ s.now + d := le_add_of_nonneg_right hd
    -- time passes for everybody; only the lock has a clock of its own
    refine ⟨f, hfly.acquiredAt.trans hnow, ?_, hfly.value, hfly.starts, hfly.produced, hfly.leader,
      fun pid call hne hp => (hfly.others pid call hne hp).tick hnow⟩
    have hl := hfly.lock
    cases hheld : f.held with
    | false =>
      rw [hheld] at hl
      exact hl
    | true =>
      rw [hheld] at hl
      obtain ⟨⟨w, hcell⟩, -⟩ := hl
      exact ⟨⟨w, hcell⟩, hlock _ hcell⟩

/-- The calls after one of them acted. -/
lemma callInv_act {proc : Proc}
    (h : ∀ pid call, s.procs pid = .infer call → CallInv req lag s.now call)
    (hnew : ∀ call, proc = .infer call → CallInv req lag s.now call) (pid' : ℕ) (call : InferCall)
    (hp : (s.act pid proc redis cb es).procs pid' = .infer call) : CallInv req lag s.now call := by
  rcases act_procs_cases hp with ⟨-, hproc⟩ | ⟨-, hp⟩
  · exact hnew call hproc
  · exact h pid' call hp

/-- A follower acted; the flight is as it was. -/
lemma Flying.follow (h : Flying svc rc req lag f s) (hne : pid ≠ f.leader)
    (hstarts : ∀ req, .providerStart req ∉ es)
    (hfollow : Following svc rc req lag s.now f.acquiredAt f.stored call.status call.since) :
    Flying svc rc req lag f (s.act pid (.infer call) s.redis cb es) where
  acquiredAt := h.acquiredAt
  lock := h.lock
  value := h.value
  starts := (providerStarts_stamp hstarts).trans h.starts
  produced done expireAt hstored := (h.produced done expireAt hstored).append _
  leader := by
    obtain ⟨leading, hp, hlead⟩ := h.leader
    exact ⟨leading, (act_procs_of_ne hne.symm).trans hp, hlead.mono fun _ hdone => hdone.append _⟩
  others pid' call' hne' hp := by
    rcases act_procs_cases hp with ⟨-, hproc⟩ | ⟨-, hp⟩
    · cases hproc
      exact hfollow
    · exact h.others pid' call' hne' hp

/-- The leader acted; the flight is further. -/
lemma Flying.lead {f' : Flight} (h : Flying svc rc req lag f s) (hleader : f'.leader = f.leader)
    (hacquired : f'.acquiredAt = f.acquiredAt)
    (hlock : Locks svc rc req redis s.now f.acquiredAt f'.held)
    (hvalue : Stores svc req redis f'.stored)
    (hstarts : providerStarts (stamp f.leader s.now es ++ s.log) =
      if f'.called then [f.leader] else [])
    (hproduced : ∀ done expireAt, f'.stored = some (done, expireAt) →
      Produces svc req (stamp f.leader s.now es ++ s.log) f.leader done)
    (hlead : Leading svc req (Produces svc req (stamp f.leader s.now es ++ s.log) f.leader)
      f'.held f'.called (f'.stored.map Prod.fst) call.status)
    (hothers : ∀ status since,
      Following svc rc req lag s.now f.acquiredAt f.stored status since →
        Following svc rc req lag s.now f.acquiredAt f'.stored status since) :
    Flying svc rc req lag f' (s.act f.leader (.infer call) redis cb es) := by
  obtain ⟨leader, acquiredAt, held, called, stored⟩ := f'
  cases hleader
  cases hacquired
  refine ⟨h.acquiredAt, hlock, hvalue, hstarts, hproduced, ⟨call, act_procs_self, hlead⟩, ?_⟩
  intro pid' call' hne hp
  rcases act_procs_cases hp with ⟨heq, -⟩ | ⟨-, hp⟩
  · exact absurd heq hne
  · exact hothers _ _ (h.others pid' call' hne hp)

lemma exec_no_providerStart {fate : Fate} {x : Executed}
    (hx : call.exec svc now pid fate redis = some x) (req : InferRequest) :
    .providerStart req ∉ x.events := fun he => by cases exec_event hx he

lemma run_no_providerStart {input : Input} {b : Block Status}
    (hb : call.run svc now cb input = some b) (h : ∀ hasLock, b.status ≠ .provider hasLock)
    (req : InferRequest) : .providerStart req ∉ b.events := fun he => by
  cases run_event hb _ he with
  | providerStart hst => exact h _ hst

/-- A new call follows. -/
lemma FlightInv.arrive (h : FlightInv svc rc req lag s)
    (hp : s.procs pid = .idle) (requestId : String) :
    FlightInv svc rc req lag (s.act pid (.infer (.start s.now requestId req)) s.redis s.cb []) where
  closed := h.closed
  calls := by
    refine callInv_act h.calls fun call hcall => ?_
    cases hcall
    exact ⟨rfl, le_rfl, fun t ht => by cases ht⟩
  phase := by
    refine h.phase.imp (fun hready => ?_) fun ⟨f, hfly⟩ => ⟨f, hfly.follow ?_ (by simp) .starting⟩
    · refine ⟨hready.lock, hready.value, hready.starts, fun pid' call hp' => ?_⟩
      rcases act_procs_cases hp' with ⟨-, hproc⟩ | ⟨-, hp'⟩
      · cases hproc
        exact .starting
      · exact hready.calls pid' call hp'
    · rintro rfl
      obtain ⟨call, hp', -⟩ := hfly.leader
      cases hp.symm.trans hp'

/-! ### Redis -/

lemma Newcomer.following {acquiredAt since : ℚ} {stored : Option (Completion × ℚ)}
    (h : Newcomer status) : Following svc rc req lag now acquiredAt stored status since := by
  cases h with
  | starting => exact .starting
  | missed => exact .missed
  | trying => exact .trying

/-- The first to ask for the lock becomes the leader. -/
lemma Ready.exec (h : Ready svc req s) (hpaced : Paced svc rc lag) (hrc : svc.collapser = some rc)
    (hp : s.procs pid = .infer call) (hreq : call.req = req) {x : Executed}
    (hx : call.exec svc s.now pid .ok s.redis = some x) :
    Ready svc req (s.act pid (.infer (call.goto s.now x.status)) x.redis s.cb x.events) ∨
      ∃ f, Flying svc rc req lag f
        (s.act pid (.infer (call.goto s.now x.status)) x.redis s.cb x.events) := by
  subst hreq
  have hstarts : providerStarts (stamp pid s.now x.events ++ s.log) = [] :=
    (providerStarts_stamp (exec_no_providerStart hx)).trans h.starts
  have hnew := h.calls pid call hp
  cases exec_case hx with
  | cacheGet =>
    refine Or.inl ⟨h.lock, h.value, hstarts, fun pid' call' hp' => ?_⟩
    rcases act_procs_cases hp' with ⟨-, hproc⟩ | ⟨-, hp'⟩
    · cases hproc
      rw [Stores.get_none h.value]
      exact .missed
    · exact h.calls pid' call' hp'
  | lockSet hst hrc' =>
    cases hrc.symm.trans hrc'
    rcases rc.tryAcquire_cases s.now pid s.redis (svc.lockKey call.req) with ⟨-, hT⟩ | ⟨⟨w, hw⟩, -⟩
    · rw [hT] at hstarts ⊢
      have hvalue : setEx s.redis (svc.lockKey call.req) ⟨.str "1", pid⟩ (s.now + rc.lockTtlS)
          (svc.makeKey call.req) = none :=
        (setEx_of_ne (svc.makeKey_ne_lockKey _ _)).trans h.value
      -- the lock is free: the flight of this leader begins
      refine Or.inr ⟨⟨pid, s.now, true, false, none⟩, le_rfl,
        ⟨⟨_, setEx_self⟩, lt_add_of_pos_right _ hpaced.lockTtl_pos⟩, hvalue, hstarts,
        fun _ _ hstored => (by cases hstored), ⟨_, act_procs_self, .acquired⟩,
        fun pid' call' hne hp' => ?_⟩
      rcases act_procs_cases hp' with ⟨heq, -⟩ | ⟨-, hp'⟩
      · exact absurd heq hne
      · exact (h.calls pid' call' hp').following
    -- nobody holds the lock, so it cannot be refused
    · rw [get_of_absent h.lock] at hw
      cases hw
  | _ hst =>
    rw [hst] at hnew
    cases hnew

/-- A command during a flight. -/
lemma Flying.exec (h : Flying svc rc req lag f s) (hpaced : Paced svc rc lag)
    (hrc : svc.collapser = some rc) (hp : s.procs pid = .infer call)
    (hcall : CallInv req lag s.now call)
    (hlocks : call.status = .lockSet none → s.redis (svc.makeKey req) = none ∨
      (∃ w, get s.redis s.now (svc.lockKey req) = some w) ∧ Fresh s (svc.makeKey req) (2 * lag))
    {x : Executed} (hx : call.exec svc s.now pid .ok s.redis = some x) :
    ∃ f, Flying svc rc req lag f
      (s.act pid (.infer (call.goto s.now x.status)) x.redis s.cb x.events) := by
  have hstarts : providerStarts (stamp pid s.now x.events ++ s.log) = providerStarts s.log :=
    providerStarts_stamp (exec_no_providerStart hx)
  have hgood : ∀ done, Produces svc req s.log f.leader done →
      Produces svc req (stamp pid s.now x.events ++ s.log) f.leader done :=
    fun _ hdone => hdone.append _
  by_cases hpid : pid = f.leader
  · subst hpid
    obtain ⟨call', hp', hlead⟩ := h.leader
    cases hp.symm.trans hp'
    rw [h.starts] at hstarts
    obtain ⟨hheld, hcalled, hcase⟩ := leading_exec hlead hcall.req hx
    have hlock := h.lock
    rw [hheld] at hlock
    rcases hcase with ⟨hnone, done, hdone, hredis, hlead'⟩ | ⟨⟨done, hstored⟩, hredis, hlead'⟩
    · -- the completion is stored
      have hnone : f.stored = none := Option.map_eq_none_iff.mp hnone
      have hcell : x.redis (svc.lockKey req) = s.redis (svc.lockKey req) := by
        rw [hredis]
        exact SemanticCache.set_of_ne (svc.makeKey_ne_lockKey _ _).symm
      obtain ⟨⟨w, hw⟩, hlive⟩ := hlock
      refine ⟨{ f with stored := some (done, s.now + svc.cacheTtl) }, h.lead rfl rfl ?_ ?_ hstarts
        ?_ ?_ ?_⟩
      · rw [hheld]
        exact ⟨⟨w, hcell.trans hw⟩, hlive⟩
      · rw [hredis]
        exact ⟨_, setEx_self⟩
      · rintro done' expireAt hstored
        cases hstored
        exact hgood _ hdone
      · rw [hheld, hcalled]
        exact hlead'.mono hgood
      · intro status since hfollow
        rw [hnone] at hfollow
        exact hfollow.store hpaced hlive done
    · -- the lock is deleted
      refine ⟨{ f with held := false }, h.lead rfl rfl ?_ ?_ hstarts ?_ ?_ fun _ _ => id⟩
      · rw [hredis]
        exact del_self
      · have hcell : x.redis (svc.makeKey req) = s.redis (svc.makeKey req) := by
          rw [hredis]
          exact RequestCollapser.release_of_ne (svc.makeKey_ne_lockKey _ _)
        exact h.value.congr hcell
      · exact fun done expireAt hstored => hgood _ (h.produced done expireAt hstored)
      · rw [hcalled]
        exact hlead'.mono hgood
  · have hheld : call.status = .lockSet none →
        (∃ w, get s.redis s.now (svc.lockKey req) = some w) ∧
          Fresh s (svc.makeKey req) (2 * lag) := by
      intro hst
      rcases hlocks hst with hempty | hheld
      · -- nothing is stored, so the leader still has the lock
        cases hf : f.held with
        | true =>
          have hlock := h.lock
          rw [hf] at hlock
          obtain ⟨⟨w, hcell⟩, hlive⟩ := hlock
          refine ⟨⟨w, get_of_cell hcell hlive⟩, fun cell hcell' => ?_⟩
          cases hempty.symm.trans hcell'
        | false =>
          obtain ⟨_, -, hlead⟩ := h.leader
          rw [hf] at hlead
          obtain ⟨done, hdone⟩ := hlead.stored_of_released
          obtain ⟨⟨done, expireAt⟩, hstored, -⟩ := Option.map_eq_some_iff.mp hdone
          have hvalue := h.value
          rw [hstored] at hvalue
          obtain ⟨w, hcell⟩ := hvalue
          cases hempty.symm.trans hcell
      · exact hheld
    obtain ⟨hredis, hfollow⟩ := following_exec hpaced hrc (h.others pid call hpid hp) hcall.req
      h.value hcall.due hheld hx
    rw [hredis]
    exact ⟨f, h.follow hpid (exec_no_providerStart hx) hfollow⟩

/-! ### Turns -/

/-- A turn before the flight: a call that missed the value asks for the lock. -/
lemma Ready.run (h : Ready svc req s) (hclosed : s.cb = {}) (hrc : svc.collapser = some rc)
    (hp : s.procs pid = .infer call) {input : Input} {b : Block Status}
    (hb : call.run svc s.now s.cb input = some b) :
    b.cb = {} ∧
      Ready svc req (s.act pid (.infer (call.goto s.now b.status)) s.redis b.cb b.events) := by
  rw [hclosed] at hb
  have hnew := h.calls pid call hp
  cases run_case hb with
  | cacheGet hst =>
    rw [hst] at hnew
    cases hnew with
    | missed =>
      rw [afterCacheGet, circuitBreakerCheck_closed hrc]
      refine ⟨rfl, h.lock, h.value, (providerStarts_stamp (by simp)).trans h.starts,
        fun pid' call' hp' => ?_⟩
      rcases act_procs_cases hp' with ⟨-, hproc⟩ | ⟨-, hp'⟩
      · cases hproc
        exact .trying
      · exact h.calls pid' call' hp'
  -- a newcomer is nowhere else
  | _ hst =>
    rw [hst] at hnew
    cases hnew

/-- A turn during a flight. -/
lemma Flying.run (h : Flying svc rc req lag f s) (hclosed : s.cb = {}) (hpaced : Paced svc rc lag)
    (hrc : svc.collapser = some rc) (hp : s.procs pid = .infer call)
    (hcall : CallInv req lag s.now call) {input : Input}
    (hinput : ∀ result, input = .adapter result →
      ∃ value, result = .ok value ∧ Succeeds svc req value)
    {b : Block Status} (hb : call.run svc s.now s.cb input = some b) :
    b.cb = {} ∧ ∃ f, Flying svc rc req lag f
      (s.act pid (.infer (call.goto s.now b.status)) s.redis b.cb b.events) := by
  rw [hclosed] at hb
  have hgood : ∀ {done}, Produces svc req s.log f.leader done →
      Produces svc req (stamp pid s.now b.events ++ s.log) f.leader done :=
    fun hdone => hdone.append _
  by_cases hpid : pid = f.leader
  · subst hpid
    obtain ⟨call', hp', hlead⟩ := h.leader
    cases hp.symm.trans hp'
    have hpresentable : ∀ done, f.stored.map Prod.fst = some done → done.Presentable svc := by
      intro done hdone
      obtain ⟨⟨done, expireAt⟩, hstored, rfl⟩ := Option.map_eq_some_iff.mp hdone
      exact (h.produced done expireAt hstored).presentable
    obtain ⟨hcb, hcase⟩ := leading_run
      (Produces svc req (stamp f.leader s.now b.events ++ s.log) f.leader) hrc hlead hcall.req
      hcall.t0 hpresentable hinput hb fun value done hend hdone hgood =>
        ⟨hgood, s.now, value, List.mem_append_left _ (mem_stamp.mpr ⟨rfl, rfl, hend⟩), hdone⟩
    refine ⟨hcb, ?_⟩
    rcases hcase with ⟨hcalled, hevents, hlead'⟩ | ⟨hcalled, hne, hlead'⟩
    · -- the provider call
      refine ⟨{ f with called := true }, h.lead rfl rfl h.lock h.value ?_ ?_ hlead' fun _ _ => id⟩
      · rw [hevents]
        change f.leader :: providerStarts s.log = [f.leader]
        rw [h.starts, hcalled]
        rfl
      · exact fun done expireAt hstored => hgood (h.produced done expireAt hstored)
    -- the turns after the call: store, release, answer
    · have hstarts :
          providerStarts (stamp f.leader s.now b.events ++ s.log) = providerStarts s.log :=
        providerStarts_stamp (run_no_providerStart hb hne)
      refine ⟨f, h.lead rfl rfl h.lock h.value (hstarts.trans h.starts) ?_ ?_ fun _ _ => id⟩
      · exact fun done expireAt hstored => hgood (h.produced done expireAt hstored)
      · rw [hcalled]
        exact hlead'
  -- a follower's turn: as long as nothing is stored the leader holds a live lock
  · have hflight : f.stored = none → s.now < f.acquiredAt + rc.lockTtlS := by
      intro hnone
      have hlock := h.lock
      cases hf : f.held with
      | true =>
        rw [hf] at hlock
        exact hlock.2
      | false =>
        obtain ⟨_, -, hlead⟩ := h.leader
        rw [hf, hnone] at hlead
        obtain ⟨_, hdone⟩ := hlead.stored_of_released
        cases hdone
    obtain ⟨hcb, hne, hfollow⟩ := following_run hpaced hrc (h.others pid call hpid hp) hcall.req
      hcall.t0 hcall.due h.acquiredAt hflight
      (fun done expireAt hstored => (h.produced done expireAt hstored).presentable) hb
    exact ⟨hcb, f, h.follow hpid (run_no_providerStart hb hne) hfollow⟩

lemma flightInv_step (hpaced : Paced svc rc lag) (hrc : svc.collapser = some rc)
    (h : FlightInv svc rc req lag s) (hok : Assumed svc req lag s a)
    (hlocks : LocksInTime svc req lag s a) (hstep : step svc s a = some s') :
    FlightInv svc rc req lag s' := by
  cases step_move hstep with
  | tick hd => exact h.tick hd hok.1 hok.2
  | infer hp =>
    obtain ⟨rfl, -⟩ := hok
    exact h.arrive hp _
  | stream => exact hok.elim
  | streamInput => exact hok.elim
  | @redis pid fate call x hp hx =>
    cases hok
    have hcall := h.calls _ _ hp
    have hsleep : ∀ deadline wakeAt, x.status = .sleeping deadline wakeAt → s.now ≤ wakeAt := by
      intro deadline wakeAt hst
      cases exec_case hx <;> cases hst
    refine ⟨h.closed, callInv_act h.calls fun call' hproc => ?_, ?_⟩
    · cases hproc
      exact hcall.goto hpaced.lag_nonneg hsleep
    · rcases h.phase with hready | ⟨f, hfly⟩
      · exact hready.exec hpaced hrc hp hcall.req hx
      · exact Or.inr (hfly.exec hpaced hrc hp hcall (hlocks _ hp) hx)
  | @input pid input call b hp hb =>
    have hcall := h.calls _ _ hp
    have hinput : ∀ result, input = .adapter result → ∃ value, result = .ok value ∧
        Succeeds svc req value := by
      rintro result rfl
      exact hok
    have hsleep : ∀ deadline wakeAt, b.status = .sleeping deadline wakeAt → s.now ≤ wakeAt := by
      intro deadline wakeAt hst
      have hcase := run_status hb
      rw [hst] at hcase
      cases hcase with
      | sleeping _ hrc' =>
        cases hrc.symm.trans hrc'
        exact le_add_of_nonneg_right hpaced.poll_nonneg
    have hcalls : ∀ pid' call', (s.act pid (.infer (call.goto s.now b.status)) s.redis b.cb
        b.events).procs pid' = .infer call' → CallInv req lag s.now call' := by
      refine callInv_act h.calls fun call' hproc => ?_
      cases hproc
      exact hcall.goto hpaced.lag_nonneg hsleep
    rcases h.phase with hready | ⟨f, hfly⟩
    · obtain ⟨hcb, hready'⟩ := hready.run h.closed hrc hp hb
      exact ⟨hcb, hcalls, Or.inl hready'⟩
    · obtain ⟨hcb, hfly'⟩ := hfly.run h.closed hpaced hrc hp hcall hinput hb
      exact ⟨hcb, hcalls, Or.inr hfly'⟩

end Steps

/-- The schedules of the theorem. -/
def Orderly (svc : InferenceService) (req : InferRequest) (lag : ℚ) (s : Gateway) (a : Action) :
    Prop := Assumed svc req lag s a ∧ LocksInTime svc req lag s a

theorem flightInv_of_run (hpaced : Paced svc rc lag) (hrc : svc.collapser = some rc)
    (hs : Run (step svc) (Orderly svc req lag) init s) : FlightInv svc rc req lag s := by
  refine hs.invariant ⟨rfl, fun _ _ hp => (by cases hp), Or.inl ⟨rfl, rfl, rfl, ?_⟩⟩ ?_
  · intro _ _ hp
    cases hp
  · exact fun _ _ _ h hok hstep => flightInv_step hpaced hrc h hok.1 hok.2 hstep

/-- A presentable answer serves the result of the provider call. -/
lemma serves_of_answers {done : Completion} {result : Json} {cacheHit : Bool}
    {resp : InferResponse} (h : Answers svc req done cacheHit resp)
    (hdone : Completes svc req result done) : Serves svc req result resp :=
  ⟨h.output ▸ hdone.output, h.model, done.usage, hdone.usage, h.usage⟩

/-- **Single flight.** If every call asks for the lock before a value is stored or while it is
held, the provider is called once at most; and once any call has finished, the provider has
been called exactly once and the call returned the result of that, with `cache_hit` unless
it made the provider call itself. -/
theorem single_flight (hrc : svc.collapser = some {}) (h0 : 0 ≤ lag) (h1 : 1 / 20 + 3 * lag < 1)
    (hs : Run (step svc) (Orderly svc req lag) init s) :
    (providerStarts s.log).length ≤ 1 ∧
      ∀ pid call out, s.procs pid = .infer call → call.status = .finished out →
        ∃ leader t result resp, providerStarts s.log = [leader] ∧
          ⟨leader, t, .providerEnd req (.ok result)⟩ ∈ s.log ∧ out = .ok resp ∧
          Serves svc req result resp ∧ (resp.cacheHit = true ↔ pid ≠ leader) := by
  have hinv := flightInv_of_run (paced_default h0 h1) hrc hs
  rcases hinv.phase with hready | ⟨f, hfly⟩
  -- without a flight no call has got further than asking for the lock
  · refine ⟨by rw [hready.starts]; exact Nat.zero_le 1, fun pid call out hp hst => ?_⟩
    have hnew := hready.calls pid call hp
    rw [hst] at hnew
    cases hnew
  · constructor
    · rw [hfly.starts]
      split <;> simp
    · intro pid call out hp hst
      obtain ⟨leading, hp', hlead⟩ := hfly.leader
      by_cases hpid : pid = f.leader
      · subst hpid
        cases hp.symm.trans hp'
        rw [hst] at hlead
        -- the leader returns its own result
        obtain ⟨hcalled, done, resp, hdone, rfl, hanswer⟩ := hlead.of_finished
        obtain ⟨⟨done, expireAt⟩, hstored, rfl⟩ := Option.map_eq_some_iff.mp hdone
        obtain ⟨t, result, hmem, hcompletes⟩ := (hfly.produced done expireAt hstored).called
        refine ⟨f.leader, t, result, resp, ?_, hmem, rfl, serves_of_answers hanswer hcompletes, ?_⟩
        · rw [hfly.starts, hcalled]
          rfl
        · simp [hanswer.cacheHit]
      · have hfollow := hfly.others pid call hpid hp
        rw [hst] at hfollow
        -- a follower returns what the leader stored
        cases hfollow with
        | @answered _ expireAt done resp hstored hanswer =>
          obtain ⟨t, result, hmem, hcompletes⟩ := (hfly.produced done expireAt hstored).called
          rw [hstored] at hlead
          refine ⟨f.leader, t, result, resp, ?_, hmem, rfl,
            serves_of_answers hanswer hcompletes, ?_⟩
          · rw [hfly.starts, hlead.called_of_stored]
            rfl
          · simp [hanswer.cacheHit, hpid]

/-! ## Two flights, and one -/

instance (s : Gateway) (key : String) (slack : ℚ) : Decidable (Fresh s key slack) :=
  decidable_of_iff ((s.redis key).all (fun cell => decide (s.now + slack < cell.expireAt)) = true)
    (by simp [Option.all_eq_true, Fresh])

/-- The part of the assumptions that does not depend on the state, without ticks. -/
def Action.Expected : Action → Prop
  | .infer _ _ req => req = sampleRequest
  | .redis _ fate => fate = .ok
  | .input _ .resume => True
  | .input _ (.adapter result) => result = .ok sampleResult
  | _ => False

/-- The part that does. -/
def arrivesInTime (s : Gateway) : Action → Bool
  | .infer _ _ _ => Fresh s (sample.makeKey sampleRequest) 0
  | _ => true

/-- A lock is asked for in time. -/
def locksInTime (s : Gateway) : Action → Bool
  | .redis pid _ =>
    match s.procs pid with
    | .infer ⟨_, _, _, .lockSet none, _⟩ =>
      (s.redis (sample.makeKey sampleRequest)).isNone ||
        ((get s.redis s.now (sample.lockKey sampleRequest)).isSome &&
          Fresh s (sample.makeKey sampleRequest) (2 * 0))
    | _ => true
  | _ => true

lemma succeeds_sampleResult : Succeeds sample sampleRequest sampleResult :=
  ⟨⟨.str "[stub] same request", ⟨.num (.int 2), .num (.int 10)⟩⟩,
    ⟨rfl, fun _ hrecord => (by cases hrecord), rfl⟩, _, _, rfl, rfl⟩

lemma assumed_of_expected (ha : a.Expected) (h : arrivesInTime s a = true) :
    Assumed sample sampleRequest 0 s a := by
  cases a with
  | infer => exact ⟨ha, of_decide_eq_true h⟩
  | redis => exact ha
  | input _ input =>
    cases input with
    | resume => trivial
    | adapter => exact ⟨_, ha, succeeds_sampleResult⟩
  | tick => exact ha.elim
  | stream => exact ha.elim
  | streamInput => exact ha.elim

lemma locksInTime_of_check (h : locksInTime s a = true) :
    LocksInTime sample sampleRequest 0 s a := by
  cases a with
  | redis pid =>
    rintro ⟨requestId, req, t0, status, since⟩ hp hst
    cases hst
    simp only [locksInTime, hp, Bool.or_eq_true, Bool.and_eq_true, decide_eq_true_eq,
      Option.isNone_iff_eq_none, Option.isSome_iff_exists] at h
    exact h
  | _ => trivial

/-- A call that misses the value before it is stored, and asks for the lock after it has been
released. -/
def lateAcquirer : List Action :=
  [.infer 0 "a" sampleRequest, .infer 1 "b" sampleRequest, .redis 0 .ok, .redis 1 .ok,
    .input 0 .resume, .input 1 .resume, .redis 0 .ok, .input 0 .resume,
    .input 0 (.adapter (.ok sampleResult)), .redis 0 .ok, .input 0 .resume, .redis 0 .ok,
    .input 0 .resume, .redis 1 .ok, .input 1 .resume]

/-- The value is in the cache, and the provider is called again. -/
theorem late_acquirer_calls_again :
    ¬ ∀ (svc : InferenceService) (req : InferRequest) (lag : ℚ) (s : Gateway),
      svc.collapser = some {} → 0 ≤ lag → 1 / 20 + 3 * lag < 1 →
      Run (step svc) (Assumed svc req lag) init s → (providerStarts s.log).length ≤ 1 := by
  intro hall
  have hexec : (execute (step sample) arrivesInTime init lateAcquirer).any
      (fun s => providerStarts s.log = [1, 0]) = true := by decide +kernel
  have hexpected : ∀ a ∈ lateAcquirer, a.Expected := by simp [lateAcquirer, Action.Expected]
  obtain ⟨s, hrun, hstarts⟩ := exists_run_of_execute hexpected hexec
  have hone := hall sample sampleRequest 0 s rfl le_rfl (by norm_num)
    (hrun.mono fun _ _ hok => assumed_of_expected hok.2 hok.1)
  rw [of_decide_eq_true hstarts] at hone
  exact absurd hone (by decide)

/-- A call that is refused the lock and finds the value when it looks next. -/
def refusedFollower : List Action :=
  [.infer 0 "a" sampleRequest, .infer 1 "b" sampleRequest, .redis 0 .ok, .redis 1 .ok,
    .input 0 .resume, .input 1 .resume, .redis 0 .ok, .redis 1 .ok, .input 0 .resume,
    .input 1 .resume, .input 0 (.adapter (.ok sampleResult)), .redis 0 .ok, .redis 1 .ok,
    .input 1 .resume, .input 0 .resume, .redis 0 .ok, .input 0 .resume]

theorem single_flight_refusedFollower :
    ∃ (s : Gateway) (call : InferCall) (out : Except Exn InferResponse),
      s.procs 1 = .infer call ∧ call.status = .finished out ∧
      (providerStarts s.log).length ≤ 1 ∧
      ∃ leader t result resp, providerStarts s.log = [leader] ∧
        ⟨leader, t, .providerEnd sampleRequest (.ok result)⟩ ∈ s.log ∧ out = .ok resp ∧
        Serves sample sampleRequest result resp ∧ (resp.cacheHit = true ↔ 1 ≠ leader) := by
  have hexec : (execute (step sample) (fun s a => arrivesInTime s a && locksInTime s a) init
      refusedFollower).any (fun s => isFinished (s.procs 1)) = true := by decide +kernel
  have hexpected : ∀ a ∈ refusedFollower, a.Expected := by simp [refusedFollower, Action.Expected]
  obtain ⟨s, hrun, hfinished⟩ := exists_run_of_execute hexpected hexec
  obtain ⟨call, out, hp, hfin⟩ := exists_of_isFinished hfinished
  have horderly : Run (step sample) (Orderly sample sampleRequest 0) init s :=
    hrun.mono fun s a hok => by
      obtain ⟨harrives, hlocks⟩ := (Bool.and_eq_true _ _).mp hok.1
      exact ⟨assumed_of_expected hok.2 harrives, locksInTime_of_check hlocks⟩
  obtain ⟨hone, hall⟩ := single_flight rfl le_rfl (by norm_num) horderly
  exact ⟨s, call, out, hp, hfin, hone, hall 1 call out hp hfin⟩

end Gateway
end InferenceApi
