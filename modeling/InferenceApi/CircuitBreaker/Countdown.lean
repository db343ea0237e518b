import InferenceApi.CircuitBreaker.Theorems

/-!
# The countdown of an open circuit

A rejected caller is told what is left of the recovery timeout. The promise is that the
number only runs down. `record_failure` does not look at the state, so a failure reported
while the circuit is open may trip it again and start the timeout over.
`countsDown_iff` says that nothing else breaks the promise.
-/

namespace InferenceApi
namespace CircuitBreaker

open SlidingWindow

variable {c : Config} {h e mid : History} {cb : CircuitBreaker} {t t' u v r : ℚ}

/-- A caller rejected at `t` with `r` seconds to go is still rejected at `t'` before they are
over, with at most the rest of them to go, and let through afterwards. -/
def CountsDown (c : Config) (t r t' : ℚ) (cb : CircuitBreaker) : Prop :=
  (t' < t + r → (isOpen c t' cb).1 = true ∧ getRetryAfter c t' cb ≤ r - (t' - t)) ∧
    (t + r ≤ t' → (isOpen c t' cb).1 = false)

/-- A trip is in the past. -/
lemma latestTrip_le (hu : latestTrip c e = some u) (hb : Before Call.time t e) : u ≤ t := by
  induction e with
  | nil => cases hu
  | cons call e ih =>
    obtain ⟨op, s⟩ := call
    have hs : s ≤ t := hb ⟨op, s⟩ List.mem_cons_self
    have ih := fun hu => ih hu fun x hx => hb x (List.mem_cons_of_mem _ hx)
    cases op with
    | isOpen => exact ih hu
    | recordSuccess => exact ih hu
    | recordFailure =>
      rw [latestTrip] at hu
      split at hu
      · exact Option.some.inj hu ▸ hs
      · exact ih hu

/-! ## While nobody comes late enough to probe -/

/-- The latest of the trips in `mid`, or the one at `v` that was in force before. -/
structure InForce (c : Config) (h mid : History) (v w : ℚ) : Prop where
  latestTrip : latestTrip c (epoch c (mid ++ h)) = some w
  unprobed : probed c (epoch c (mid ++ h)) = false
  le : v ≤ w
  mem : w = v ∨ w ∈ tripsAfter c h mid
  upper : ∀ u ∈ tripsAfter c h mid, u ≤ w

/-- As long as every check comes before the recovery timeout of `v` is over, no trip is
forgotten: a success resets nothing, and a later failure can only renew the trip. -/
theorem exists_inForce (hv : latestTrip c (epoch c h) = some v)
    (hp : probed c (epoch c h) = false) (hh : NewestFirst Call.time (mid ++ h))
    (hearly : ∀ s, ⟨.isOpen, s⟩ ∈ mid → s < v + c.recoveryTimeout) :
    ∃ w, InForce c h mid v w := by
  induction mid with
  | nil => exact ⟨v, hv, hp, le_rfl, Or.inl rfl, fun _ hu => by cases hu⟩
  | cons call mid ih =>
    obtain ⟨op, s⟩ := call
    obtain ⟨w, hw⟩ := ih hh.tail fun s hs => hearly s (List.mem_cons_of_mem _ hs)
    have hb : Before Call.time s (mid ++ h) := hh.before_head
    cases op with
    | isOpen =>
      refine ⟨w, hw.latestTrip, ?_, hw.le, hw.mem, hw.upper⟩
      -- too early to probe even the oldest of the trips
      have hs : s < v + c.recoveryTimeout := hearly s List.mem_cons_self
      rw [List.cons_append, epoch, probed, hw.latestTrip, hw.unprobed, Bool.or_false]
      exact decide_eq_false (by linarith [hw.le])
    | recordFailure =>
      cases htrip : trips c (epoch c (mid ++ h)) s with
      | true =>
        -- the new trip is the one in force from here on
        have hnew : tripsAfter c h (⟨.recordFailure, s⟩ :: mid) = s :: tripsAfter c h mid :=
          if_pos htrip
        have hws : w ≤ s := latestTrip_le hw.latestTrip (before_epoch hb)
        refine ⟨s, ?_, ?_, hw.le.trans hws, Or.inr ?_, ?_⟩
        · rw [List.cons_append, epoch, latestTrip, if_pos htrip]
        · rw [List.cons_append, epoch, probed, htrip]
          rfl
        · rw [hnew]
          exact List.mem_cons_self
        · rw [hnew]
          exact List.forall_mem_cons.mpr ⟨le_rfl, fun u hu => (hw.upper u hu).trans hws⟩
      | false =>
        have hsame : tripsAfter c h (⟨.recordFailure, s⟩ :: mid) = tripsAfter c h mid :=
          if_neg (Bool.eq_false_iff.mp htrip)
        refine ⟨w, ?_, ?_, hw.le, hsame ▸ hw.mem, hsame ▸ hw.upper⟩
        · rw [List.cons_append, epoch, latestTrip, if_neg (Bool.eq_false_iff.mp htrip)]
          exact hw.latestTrip
        · rw [List.cons_append, epoch, probed, htrip, hw.unprobed]
          rfl
    | recordSuccess =>
      -- without a probe a success does not reset anything
      have hno : resets c (epoch c (mid ++ h)) = false := by
        rw [resets, hw.unprobed, Bool.and_false]
      have hepoch : epoch c ((⟨.recordSuccess, s⟩ :: mid) ++ h) =
          ⟨.recordSuccess, s⟩ :: epoch c (mid ++ h) := by
        rw [List.cons_append, epoch, if_neg (Bool.eq_false_iff.mp hno)]
      refine ⟨w, ?_, ?_, hw.le, hw.mem, hw.upper⟩
      · rw [hepoch]
        exact hw.latestTrip
      · rw [hepoch]
        exact hw.unprobed

/-! ## The promise to a rejected caller -/

/-- A rejected caller is told how long the latest trip stays in force. -/
lemma of_rejected (hh : NewestFirst Call.time h)
    (hopen : (isOpen c t (replay c h)).1 = true) :
    ∃ v, latestTrip c (epoch c h) = some v ∧ probed c (epoch c h) = false ∧
      t < v + c.recoveryTimeout ∧
      getRetryAfter c t (replay c h) = v + c.recoveryTimeout - t := by
  have hr := replay_refines c hh
  obtain ⟨hstate, v, hv, hlt⟩ := isOpen_eq_true_iff.mp hopen
  rw [hr.state, phase_eq_opened_iff] at hstate
  refine ⟨v, hr.openedAt.symm.trans hv, hstate.2, by linarith, ?_⟩
  rw [getRetryAfter, hv]
  exact (max_eq_right (by linarith)).trans (by ring)

/-- The answers and the number while a trip is in force. -/
lemma InForce.answers {w : ℚ} (hw : InForce c h mid v w) (hh : NewestFirst Call.time (mid ++ h))
    (ht' : Before Call.time t' (mid ++ h)) :
    ((isOpen c t' (replay c (mid ++ h))).1 = true ↔ t' < w + c.recoveryTimeout) ∧
      getRetryAfter c t' (replay c (mid ++ h)) = max 0 (w + c.recoveryTimeout - t') := by
  constructor
  · rw [isOpen_eq_true_iff, blocking_replay_iff hh ht', hw.latestTrip]
    constructor
    · rintro ⟨u, hu, hlt⟩
      cases hu
      linarith
    · intro hlt
      exact ⟨w, rfl, by linarith⟩
  · rw [getRetryAfter, (replay_refines c hh).openedAt, hw.latestTrip]
    exact congrArg (max 0) (by ring)

/-- **The open period counts down.** A caller is rejected at `t` and told a number. For every
check before the number is over, and for the first one after it, the promise is kept exactly
if no failure in between trips the circuit again beyond the promised end and beyond the check. -/
theorem countsDown_iff (c : Config) (h mid : History) (t t' : ℚ)
    (hh : NewestFirst Call.time (mid ++ ⟨.isOpen, t⟩ :: h))
    (ht' : Before Call.time t' (mid ++ ⟨.isOpen, t⟩ :: h))
    (hopen : (isOpen c t (replay c h)).1 = true)
    (hfirst : ∀ s, ⟨.isOpen, s⟩ ∈ mid → s < t + getRetryAfter c t (replay c h)) :
    CountsDown c t (getRetryAfter c t (replay c h)) t' (replay c (mid ++ ⟨.isOpen, t⟩ :: h)) ↔
      ∀ u ∈ tripsAfter c (⟨.isOpen, t⟩ :: h) mid,
        u + c.recoveryTimeout ≤ max (t + getRetryAfter c t (replay c h)) t' := by
  have hcheck : NewestFirst Call.time (⟨.isOpen, t⟩ :: h) :=
    List.Pairwise.sublist (List.sublist_append_right _ _) hh
  obtain ⟨v, hv, hp, hlt, hr⟩ := of_rejected hcheck.tail hopen
  have hend : t + getRetryAfter c t (replay c h) = v + c.recoveryTimeout := by
    rw [hr]
    ring
  have hv' : latestTrip c (epoch c (⟨.isOpen, t⟩ :: h)) = some v := hv
  have hp' : probed c (epoch c (⟨.isOpen, t⟩ :: h)) = false := by
    rw [epoch, probed, hv, hp, Bool.or_false]
    exact decide_eq_false (by linarith)
  rw [hend] at hfirst ⊢
  obtain ⟨w, hw⟩ := exists_inForce hv' hp' hh hfirst
  obtain ⟨hanswer, hleft⟩ := hw.answers hh ht'
  -- the trips in between are no later than `w`, and `w` is one of them or the old one
  have hbound : (∀ u ∈ tripsAfter c (⟨.isOpen, t⟩ :: h) mid,
      u + c.recoveryTimeout ≤ max (v + c.recoveryTimeout) t') ↔
        w + c.recoveryTimeout ≤ max (v + c.recoveryTimeout) t' := by
    constructor
    · intro hall
      rcases hw.mem with rfl | hmem
      · exact le_max_left _ _
      · exact hall w hmem
    · intro hle u hu
      linarith [hw.upper u hu]
  rw [hbound, CountsDown, hend, hanswer, hleft, ← Bool.not_eq_true, hanswer, hr, not_lt]
  have hle := hw.le
  -- before the promised end only a later trip can lengthen the rest, after it keep the caller out
  by_cases hbefore : t' < v + c.recoveryTimeout
  · rw [max_eq_left hbefore.le, max_eq_right (by linarith)]
    constructor
    · rintro ⟨hkept, -⟩
      linarith [(hkept hbefore).2]
    · intro hwv
      exact ⟨fun _ => ⟨by linarith, by linarith⟩, fun hafter => absurd hbefore (not_lt.mpr hafter)⟩
  · rw [max_eq_right (not_lt.mp hbefore)]
    constructor
    · rintro ⟨-, hadmitted⟩
      exact hadmitted (not_lt.mp hbefore)
    · exact fun hwt => ⟨fun hlt => absurd hlt hbefore, fun _ => hwt⟩

/-- Five failures at once. -/
def fiveFailures : History :=
  [⟨.recordFailure, 0⟩, ⟨.recordFailure, 0⟩, ⟨.recordFailure, 0⟩, ⟨.recordFailure, 0⟩,
    ⟨.recordFailure, 0⟩]

/-- A call that was in flight fails ten seconds after the trip: whoever was told to come back
in 55 seconds at 5 s is told 50 seconds at 20 s. -/
theorem late_failure_extends_open_period :
    ¬ ∀ (c : Config) (h mid : History) (t t' : ℚ),
      NewestFirst Call.time (mid ++ ⟨.isOpen, t⟩ :: h) →
      Before Call.time t' (mid ++ ⟨.isOpen, t⟩ :: h) →
      (isOpen c t (replay c h)).1 = true →
      (∀ s, ⟨.isOpen, s⟩ ∈ mid → s < t + getRetryAfter c t (replay c h)) →
        CountsDown c t (getRetryAfter c t (replay c h)) t'
          (replay c (mid ++ ⟨.isOpen, t⟩ :: h)) := by
  intro hall
  have hkept := hall {} fiveFailures [⟨.recordFailure, 10⟩] 5 20
    (by norm_num [NewestFirst, fiveFailures]) (by norm_num [Before, fiveFailures])
    (by decide +kernel) (by simp)
  have hleft : ¬ getRetryAfter {} 20 (replay {} ([⟨.recordFailure, 10⟩] ++
      ⟨.isOpen, 5⟩ :: fiveFailures)) ≤ getRetryAfter {} 5 (replay {} fiveFailures) - (20 - 5) := by
    decide +kernel
  exact hleft (hkept.1 (by decide +kernel)).2

theorem countsDown_iff_fiveFailures :
    CountsDown {} 5 (getRetryAfter {} 5 (replay {} fiveFailures)) 20
      (replay {} ([⟨.isOpen, 10⟩] ++ ⟨.isOpen, 5⟩ :: fiveFailures)) := by
  refine (countsDown_iff {} fiveFailures [⟨.isOpen, 10⟩] 5 20
    (by norm_num [NewestFirst, fiveFailures]) (by norm_num [Before, fiveFailures])
    (by decide +kernel) fun s hs => ?_).mpr fun _ hu => by cases hu
  obtain rfl : s = 10 := by simpa using hs
  decide +kernel

end CircuitBreaker
end InferenceApi
