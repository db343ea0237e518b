import InferenceApi.Api.ExceptionHandlers
import InferenceApi.CircuitBreaker.Countdown
import InferenceApi.Gateway.System
import InferenceApi.RateLimiter.Replies

/-!
# Is the advertised wait long enough?

Both guards compare exact times and both advertise whole seconds: `int` cuts off what is left
of a second. So a client that comes back after the advertised time comes too early unless the
wait was a whole number of seconds. At the limiter it may also be too early because the members
of other declined checks, not yet removed, take more than the one place that becomes free.
-/

namespace InferenceApi

open CircuitBreaker SlidingWindow RateLimiter

/-- The response says: retry after `seconds`. -/
def Response.RetryAfter (resp : Response) (seconds : ℤ) : Prop :=
  ("Retry-After", pyStr seconds) ∈ resp.headers

/-- `int` of a nonnegative number rounds down. -/
lemma pyInt_of_nonneg {x : ℚ} (h : 0 ≤ x) : pyInt x = ⌊x⌋ := if_pos h

lemma pyInt_intCast (n : ℤ) : pyInt n = n := by
  unfold pyInt
  split <;> simp

/-- The whole part is as long as the number exactly if nothing was cut off. -/
lemma le_floor_iff {x : ℚ} : x ≤ ⌊x⌋ ↔ ∃ n : ℤ, x = n := by
  constructor
  · exact fun h => ⟨⌊x⌋, le_antisymm h (Int.floor_le x)⟩
  · rintro ⟨n, rfl⟩
    rw [Int.floor_intCast]

/-! ## The open circuit -/

section Circuit

variable {svc : InferenceService} {h : History} {t : ℚ} {call : InferCall} {cb : CircuitBreaker}
  {e : Exn}

/-- When the check ends a call, it was rejected, and the exception carries the whole seconds. -/
lemma circuitBreakerCheck_rejected
    (hend : (circuitBreakerCheck svc t call cb).status = .finished (.error e)) :
    (isOpen svc.breaker t cb).1 = true ∧
      e = .circuitOpenError (pyInt (getRetryAfter svc.breaker t cb)) := by
  unfold circuitBreakerCheck at hend
  dsimp only at hend
  split at hend
  · next hopen =>
    cases hend
    refine ⟨hopen, ?_⟩
    rw [getRetryAfter, getRetryAfter, isOpen_openedAt]
  · split at hend <;> cases hend

lemma circuitBreakerCheck_of_isOpen (hopen : (isOpen svc.breaker t cb).1 = true) :
    (circuitBreakerCheck svc t call cb).status =
      .finished (.error (.circuitOpenError (pyInt (getRetryAfter svc.breaker t cb)))) := by
  unfold circuitBreakerCheck
  dsimp only
  rw [if_pos hopen, getRetryAfter, getRetryAfter, isOpen_openedAt]
  rfl

/-- **Retrying a 503.** The advertised wait is long enough exactly if the rest of the recovery
timeout is a whole number of seconds. -/
theorem circuit_retry_after_iff (hh : NewestFirst Call.time h) (hb : Before Call.time t h)
    (hend : (circuitBreakerCheck svc t call (replay svc.breaker h)).status =
      .finished (.error e)) :
    ∃ resp seconds, (∀ F, handleException F (.service e) = some resp) ∧ resp.statusCode = 503 ∧
      resp.RetryAfter seconds ∧
      ((∀ t', t + seconds ≤ t' →
          (isOpen svc.breaker t' (replay svc.breaker (⟨.isOpen, t⟩ :: h))).1 = false) ↔
        ∃ u, (replay svc.breaker h).openedAt = some u ∧
          ∃ n : ℤ, u + svc.breaker.recoveryTimeout - t = n) := by
  obtain ⟨hopen, rfl⟩ := circuitBreakerCheck_rejected hend
  obtain ⟨v, hv, hp, hlt, hr⟩ := of_rejected hh hopen
  have hopened : (replay svc.breaker h).openedAt = some v := (replay_refines _ hh).openedAt.trans hv
  have hpos : 0 ≤ v + svc.breaker.recoveryTimeout - t := by linarith
  rw [hr, pyInt_of_nonneg hpos]
  have hsome : ∃ resp, handleCircuitOpenError ⌊v + svc.breaker.recoveryTimeout - t⌋ = some resp ∧
      resp.statusCode = 503 ∧ resp.RetryAfter ⌊v + svc.breaker.recoveryTimeout - t⌋ := by
    refine ⟨_, if_pos ?_, rfl, ?_⟩
    · simpa using Int.floor_nonneg.mpr hpos
    · rw [Response.RetryAfter, pyInt_intCast]
      exact List.mem_cons_self
  obtain ⟨resp, hresp, hstatus, hheader⟩ := hsome
  refine ⟨resp, _, fun _ => hresp, hstatus, hheader, ?_⟩
  -- the rejected check itself changes nothing
  have hp' : probed svc.breaker (epoch svc.breaker (⟨.isOpen, t⟩ :: h)) = false := by
    rw [epoch, probed, hv, hp, Bool.or_false]
    exact decide_eq_false (by linarith)
  have hordered : NewestFirst Call.time (⟨.isOpen, t⟩ :: h) := hh.cons hb
  have hforce : InForce svc.breaker (⟨.isOpen, t⟩ :: h) [] v v :=
    ⟨hv, hp', le_rfl, Or.inl rfl, fun _ hu => by cases hu⟩
  have hanswer : ∀ {t'}, t ≤ t' →
      ((isOpen svc.breaker t' (replay svc.breaker (⟨.isOpen, t⟩ :: h))).1 = true ↔
        t' < v + svc.breaker.recoveryTimeout) := fun htt =>
    (hforce.answers hordered ((hb.cons le_rfl).mono htt)).1
  rw [hopened]
  constructor
  · intro hall
    -- the earliest retry is the one that finds out what was cut off
    have hfirst := hall _ le_rfl
    rw [← Bool.not_eq_true, hanswer (by simpa using Int.floor_nonneg.mpr hpos), not_lt] at hfirst
    exact ⟨v, rfl, le_floor_iff.mp (by linarith)⟩
  · rintro ⟨u, hu, hwhole⟩ t' ht'
    cases hu
    have hle := le_floor_iff.mpr hwhole
    rw [← Bool.not_eq_true, hanswer (by linarith), not_lt]
    linarith

end Circuit

/-! ## The rate limiter -/

/-- `check_rate_limit`: the headers of a response that goes on, or the exception. -/
def checkRateLimit (rl : SlidingWindowRateLimiter) (reply : Reply) :
    Except AppExn (List (String × String)) :=
  if reply.allowed then
    .ok [("X-RateLimit-Limit", pyStr rl.limit), ("X-RateLimit-Remaining", pyStr reply.remaining),
      ("X-RateLimit-Reset", pyStr reply.resetS)]
  else .error (.rateLimitExceeded reply.retryAfterS rl.limit reply.remaining reply.resetS)

section Limiter

variable {rl : SlidingWindowRateLimiter} {s : System} {client : String} {m : Member} {e : AppExn}

/-- There are members nobody has used. -/
lemma exists_fresh (s : System) (client : String) (t : ℚ) :
    ∃ m : Member, m.now = t ∧ Fresh s client m := by
  obtain ⟨uuid, huuid⟩ := Infinite.exists_notMem_finset (s.log.map fun c => c.member.uuid).toFinset
  refine ⟨⟨t, uuid⟩, rfl, fun c hc _ heq => huuid ?_⟩
  rw [List.mem_toFinset]
  exact List.mem_map.mpr ⟨c, hc, congrArg Member.uuid heq⟩

/-- **Retrying a 429.** The advertised wait is long enough exactly if the oldest member that
counts leaves the window after a whole number of seconds, and fewer than the limit are left
then. -/
theorem limiter_retry_after_iff (hs : Reachable rl s) (hnow : s.now ≤ m.now)
    (hfresh : Fresh s client m)
    (hrefused : checkRateLimit rl (check rl s.redis client m).1 = .error e) :
    ∃ resp seconds, (∀ F, handleException F e = some resp) ∧ resp.statusCode = 429 ∧
      resp.RetryAfter seconds ∧
      ((∀ m', m.now + seconds ≤ m'.now → Fresh (RateLimiter.call rl s client m).2 client m' →
          (check rl (RateLimiter.call rl s client m).2.redis client m').1.allowed = true) ↔
        ∃ o, IsLeast (timestamps (counting s client m.now)) o ∧
          (∃ n : ℤ, o + windowS - m.now = n) ∧
          ((counting s client m.now).filter fun x => o < x.now).length < rl.limit) := by
  have hinv := inv_of_reachable hs
  have hinv' := inv_of_reachable (reachable_call hs hnow hfresh)
  have hdeclined : (check rl s.redis client m).1.allowed = false := by
    rw [← Bool.not_eq_true]
    intro hallowed
    rw [checkRateLimit, if_pos hallowed] at hrefused
    cases hrefused
  -- a refusal means a full window
  have hge : ¬ (counting s client m.now).length < rl.limit := by
    rw [← hinv.allowed_iff hnow hfresh, hdeclined]
    exact Bool.false_ne_true
  obtain ⟨_, o, -, ho⟩ := hinv.oldest hnow hfresh
  have heq := hinv.check_eq hnow hfresh ho
  rw [if_neg hge] at heq
  rw [checkRateLimit, heq, if_neg Bool.false_ne_true] at hrefused
  cases hrefused
  -- the member of the call itself is taken back, so the oldest is one of those before it
  have ho := hinv.isLeast_of_declined hnow (not_lt.mp hge) ho
  have hpos : 0 ≤ o + windowS - m.now := by
    obtain ⟨x, hx, rfl⟩ := ho.1
    linarith [(mem_counting.mp hx).2]
  refine ⟨_, ⌊o + windowS - m.now⌋, fun _ => if_pos (by simpa using hpos), rfl, ?_, ?_⟩
  · rw [Response.RetryAfter, ← pyInt_of_nonneg hpos]
    exact List.mem_cons_self
  have hlater : ∀ {m' : Member}, m.now ≤ m'.now →
      Fresh (RateLimiter.call rl s client m).2 client m' →
        ((check rl (RateLimiter.call rl s client m).2.redis client m').1.allowed = true ↔
          (counting s client m'.now).length < rl.limit) := by
    intro m' hle hfresh'
    rw [hinv'.allowed_iff hle hfresh', counting_call_declined hdeclined]
  have hfloor : (0 : ℚ) ≤ ⌊o + windowS - m.now⌋ := by simpa using Int.floor_nonneg.mpr hpos
  constructor
  · intro hall
    obtain ⟨m', hm', hfresh'⟩ := exists_fresh (RateLimiter.call rl s client m).2 client
      (m.now + ⌊o + windowS - m.now⌋)
    have hlt := (hlater (by linarith) hfresh').mp (hall m' hm'.ge hfresh')
    -- if something was cut off, everything still counts when the client comes back
    have hwhole : o + windowS - m.now ≤ ⌊o + windowS - m.now⌋ := by
      by_contra hcut
      rw [counting_eq_of_lt (by linarith) ho (by linarith)] at hlt
      exact hge hlt
    refine ⟨o, ho, le_floor_iff.mp hwhole, ?_⟩
    have hend : m'.now = o + windowS := by
      linarith [Int.floor_le (o + windowS - m.now)]
    rw [counting_later (show m.now ≤ m'.now by linarith), hend] at hlt
    refine lt_of_eq_of_lt (congrArg List.length (List.filter_congr fun x _ => ?_)) hlt
    rw [Bool.eq_iff_iff, decide_eq_true_eq, minute_live_iff]
    constructor <;> intro hlt <;> linarith
  · rintro ⟨o', ho', hwhole, hfew⟩ m' hm' hfresh'
    obtain rfl := ho.unique ho'
    have hle := le_floor_iff.mpr hwhole
    rw [hlater (by linarith) hfresh', counting_later (show m.now ≤ m'.now by linarith)]
    refine lt_of_le_of_lt
      (List.Sublist.length_le (List.monotone_filter_right _ fun x hx => ?_)) hfew
    rw [minute_live_iff] at hx
    exact decide_eq_true (by linarith)

end Limiter

/-! ## Both guards -/

/-- **When the advertised Retry-After is sufficient.** For a client that is refused and comes
back after the advertised seconds or later, with nothing in between: at the open circuit it is
let through exactly if the rest of the recovery timeout is whole, at the limiter exactly if the
wait for the oldest counted member is whole and fewer members than the limit are newer. -/
theorem retry_after_sufficient_iff (svc : InferenceService) (rl : SlidingWindowRateLimiter) :
    (∀ (h : History) (t : ℚ) (call : InferCall) (e : Exn),
      NewestFirst Call.time h → Before Call.time t h →
      (circuitBreakerCheck svc t call (replay svc.breaker h)).status = .finished (.error e) →
        ∃ resp seconds, (∀ F, handleException F (.service e) = some resp) ∧ resp.statusCode = 503 ∧
          resp.RetryAfter seconds ∧
          ((∀ t', t + seconds ≤ t' →
              (isOpen svc.breaker t' (replay svc.breaker (⟨.isOpen, t⟩ :: h))).1 = false) ↔
            ∃ u, (replay svc.breaker h).openedAt = some u ∧
              ∃ n : ℤ, u + svc.breaker.recoveryTimeout - t = n)) ∧
    ∀ (s : System) (client : String) (m : Member) (e : AppExn),
      Reachable rl s → s.now ≤ m.now → Fresh s client m →
      checkRateLimit rl (check rl s.redis client m).1 = .error e →
        ∃ resp seconds, (∀ F, handleException F e = some resp) ∧ resp.statusCode = 429 ∧
          resp.RetryAfter seconds ∧
          ((∀ m', m.now + seconds ≤ m'.now → Fresh (RateLimiter.call rl s client m).2 client m' →
              (check rl (RateLimiter.call rl s client m).2.redis client m').1.allowed = true) ↔
            ∃ o, IsLeast (timestamps (counting s client m.now)) o ∧
              (∃ n : ℤ, o + windowS - m.now = n) ∧
              ((counting s client m.now).filter fun x => o < x.now).length < rl.limit) :=
  ⟨fun _ _ _ _ hh hb hend => circuit_retry_after_iff hh hb hend,
    fun _ _ _ _ hs hnow hfresh hrefused => limiter_retry_after_iff hs hnow hfresh hrefused⟩

/-- A call that asks an open circuit. -/
def rejectedCall : InferCall := .start 0 "a" Gateway.sampleRequest

lemma rejectedCall_rejected {t : ℚ}
    (hopen : (isOpen {} t (replay {} fiveFailures)).1 = true) :
    (circuitBreakerCheck Gateway.sample t rejectedCall (replay {} fiveFailures)).status =
      .finished (.error (.circuitOpenError
        (pyInt (getRetryAfter {} t (replay {} fiveFailures))))) :=
  circuitBreakerCheck_of_isOpen hopen

/-- One check at time zero. -/
def oneChecked (rl : SlidingWindowRateLimiter) : System :=
  (RateLimiter.call rl System.init "a" ⟨0, 0⟩).2

lemma reachable_oneChecked : Reachable ⟨1, le_refl 1⟩ (oneChecked ⟨1, le_refl 1⟩) :=
  reachable_call .refl le_rfl (by decide +kernel)

lemma checkRateLimit_declined {rl : SlidingWindowRateLimiter} {reply : Reply}
    (h : reply.allowed = false) : checkRateLimit rl reply =
      .error (.rateLimitExceeded reply.retryAfterS rl.limit reply.remaining reply.resetS) :=
  if_neg (by rw [h]; exact Bool.false_ne_true)

/-- Refused after half a second, a client is told 59 seconds by either guard, and is refused
again when these are over. -/
theorem retry_after_too_short :
    (¬ ∀ (svc : InferenceService) (h : History) (t : ℚ) (call : InferCall) (e : Exn)
        (resp : Response) (seconds : ℤ), NewestFirst Call.time h → Before Call.time t h →
      (circuitBreakerCheck svc t call (replay svc.breaker h)).status = .finished (.error e) →
      (∀ F, handleException F (.service e) = some resp) → resp.RetryAfter seconds →
        ∀ t', t + seconds ≤ t' →
          (isOpen svc.breaker t' (replay svc.breaker (⟨.isOpen, t⟩ :: h))).1 = false) ∧
    ¬ ∀ (rl : SlidingWindowRateLimiter) (s : System) (client : String) (m : Member) (e : AppExn)
        (resp : Response) (seconds : ℤ), Reachable rl s → s.now ≤ m.now → Fresh s client m →
      checkRateLimit rl (check rl s.redis client m).1 = .error e →
      (∀ F, handleException F e = some resp) → resp.RetryAfter seconds →
        ∀ m', m.now + seconds ≤ m'.now → Fresh (RateLimiter.call rl s client m).2 client m' →
          (check rl (RateLimiter.call rl s client m).2.redis client m').1.allowed = true := by
  have hhalf : ∀ n : ℤ, (60 : ℚ) - 1 / 2 ≠ n := by
    intro n hn
    have htwice : (119 : ℚ) = ((2 * n : ℤ) : ℚ) := by
      push_cast
      linarith
    -- an odd number of half seconds
    have hodd : (119 : ℤ) = 2 * n := by exact_mod_cast htwice
    omega
  constructor
  · intro hall
    have hend := @rejectedCall_rejected (1 / 2) (by decide +kernel)
    have hh : NewestFirst Call.time fiveFailures := by simp [NewestFirst, fiveFailures]
    have hb : Before Call.time (1 / 2) fiveFailures := by norm_num [Before, fiveFailures]
    obtain ⟨resp, seconds, hresp, -, hheader, hiff⟩ :=
      @circuit_retry_after_iff Gateway.sample _ _ _ _ hh hb hend
    obtain ⟨u, hu, n, hn⟩ := hiff.mp (hall _ _ _ _ _ _ _ hh hb hend hresp hheader)
    have hzero : (replay {} fiveFailures).openedAt = some 0 := by decide +kernel
    cases hzero.symm.trans hu
    exact hhalf n (by rw [← hn]; norm_num [Gateway.sample])
  · intro hall
    have hdeclined : (check ⟨1, le_refl 1⟩ (oneChecked ⟨1, le_refl 1⟩).redis "a"
        ⟨1 / 2, 1⟩).1.allowed = false := by
      decide +kernel
    have hnow : (oneChecked ⟨1, le_refl 1⟩).now ≤ (⟨1 / 2, 1⟩ : Member).now := by decide +kernel
    have hfresh : Fresh (oneChecked ⟨1, le_refl 1⟩) "a" ⟨1 / 2, 1⟩ := by decide +kernel
    have hrefused := @checkRateLimit_declined ⟨1, le_refl 1⟩ _ hdeclined
    obtain ⟨resp, seconds, hresp, -, hheader, hiff⟩ :=
      limiter_retry_after_iff reachable_oneChecked hnow hfresh hrefused
    obtain ⟨o, ho, ⟨n, hn⟩, -⟩ := hiff.mp
      (hall _ _ _ _ _ _ _ reachable_oneChecked hnow hfresh hrefused hresp hheader)
    have hcounting : counting (oneChecked ⟨1, le_refl 1⟩) "a" (1 / 2) = [⟨0, 0⟩] := by
      decide +kernel
    rw [hcounting] at ho
    obtain ⟨x, hx, rfl⟩ := ho.1
    rw [List.mem_singleton.mp hx] at hn
    exact hhalf n (by rw [← hn]; norm_num [windowS])

/-- Refused after a whole second, the client gets through when it is told to come back. -/
theorem retry_after_sufficient_iff_wholeSecond :
    (∃ resp seconds, (∀ F, handleException F (.service (.circuitOpenError 59)) = some resp) ∧
      resp.RetryAfter seconds ∧ ∀ t', 1 + (seconds : ℚ) ≤ t' →
        (isOpen {} t' (replay {} (⟨.isOpen, 1⟩ :: fiveFailures))).1 = false) ∧
    ∃ resp seconds, (∀ F, handleException F (.rateLimitExceeded 59 1 0 59) = some resp) ∧
      resp.RetryAfter seconds ∧ ∀ m' : Member, 1 + (seconds : ℚ) ≤ m'.now →
        Fresh (RateLimiter.call ⟨1, le_refl 1⟩ (oneChecked ⟨1, le_refl 1⟩) "a" ⟨1, 1⟩).2 "a" m' →
          (check ⟨1, le_refl 1⟩ (RateLimiter.call ⟨1, le_refl 1⟩
            (oneChecked ⟨1, le_refl 1⟩) "a" ⟨1, 1⟩).2.redis "a" m').1.allowed = true := by
  constructor
  · have hend := @rejectedCall_rejected 1 (by decide +kernel)
    obtain ⟨resp, seconds, hresp, -, hheader, hiff⟩ := (retry_after_sufficient_iff Gateway.sample
      ⟨1, le_refl 1⟩).1 fiveFailures 1 rejectedCall _ (by simp [NewestFirst, fiveFailures])
      (by norm_num [Before, fiveFailures]) hend
    have hleft : pyInt (getRetryAfter {} 1 (replay {} fiveFailures)) = 59 := by decide +kernel
    rw [hleft] at hresp
    exact ⟨resp, seconds, hresp, hheader, hiff.mpr ⟨0, by decide +kernel, 59, by
      norm_num [Gateway.sample]⟩⟩
  · have hreply : (check ⟨1, le_refl 1⟩ (oneChecked ⟨1, le_refl 1⟩).redis "a" ⟨1, 1⟩).1 =
        ⟨false, 59, 0, 59⟩ := by
      decide +kernel
    have hrefused : checkRateLimit ⟨1, le_refl 1⟩
        (check ⟨1, le_refl 1⟩ (oneChecked ⟨1, le_refl 1⟩).redis "a" ⟨1, 1⟩).1 =
          .error (.rateLimitExceeded 59 1 0 59) := by
      rw [hreply]
      rfl
    obtain ⟨resp, seconds, hresp, -, hheader, hiff⟩ := (retry_after_sufficient_iff Gateway.sample
      ⟨1, le_refl 1⟩).2 (oneChecked ⟨1, le_refl 1⟩) "a" ⟨1, 1⟩ _ reachable_oneChecked
      (by decide +kernel) (by decide +kernel) hrefused
    have hcounting : counting (oneChecked ⟨1, le_refl 1⟩) "a" 1 = [⟨0, 0⟩] := by decide +kernel
    refine ⟨resp, seconds, hresp, hheader, hiff.mpr ⟨0, ?_, ⟨59, by norm_num [windowS]⟩, ?_⟩⟩
    · rw [hcounting]
      exact ⟨⟨_, List.mem_singleton_self _, rfl⟩, by rintro u ⟨x, hx, rfl⟩; simp_all⟩
    · rw [hcounting]
      decide +kernel

end InferenceApi
