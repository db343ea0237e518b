import InferenceApi.CircuitBreaker.History

/-!
# Properties of the circuit breaker over every sequence of calls

Everything is read off `replay_refines`. The last part prepares the concurrent
results: when a call admitted at one time reaches the provider later, the circuit is
open then exactly if it tripped in between (`blocking_iff_trip_after_check`).
-/

namespace InferenceApi
namespace CircuitBreaker

open SlidingWindow

variable {c : Config} {h e : History} {t u s : ℚ}

/-- The circuit is `OPEN` and its recovery timeout has not elapsed at `t`. -/
def Blocking (c : Config) (t : ℚ) (cb : CircuitBreaker) : Prop :=
  cb.state = .opened ∧ ∃ u, cb.openedAt = some u ∧ t - u < c.recoveryTimeout

/-! ## The specification decides every answer -/

lemma phase_eq_opened_iff :
    phase c e = .opened ↔ (∃ u, latestTrip c e = some u) ∧ probed c e = false := by
  unfold phase
  split
  · next hn => simp [hn]
  · next u hu =>
    rw [hu]
    cases probed c e <;> simp

lemma isOpen_eq_true_iff {cb : CircuitBreaker} :
    (isOpen c t cb).1 = true ↔ Blocking c t cb := by
  unfold Blocking
  by_cases hst : cb.state = .opened
  · cases hu : cb.openedAt with
    | none => simp [isOpen, hst, hu]
    | some u => simp [isOpen_of_opened hst hu, hst]
  · rw [isOpen_of_not_opened hst]
    simp [hst]

/-- Right after a check that let a call through, the circuit does not block. -/
lemma not_blocking_after_isOpen {cb : CircuitBreaker} (h : (isOpen c t cb).1 = false) :
    ¬ Blocking c t (isOpen c t cb).2 := by
  intro hb
  by_cases hst : cb.state = .opened
  -- an open circuit that lets a call through is half-open afterwards
  · cases hu : cb.openedAt with
    | none =>
      obtain ⟨-, u, hu', -⟩ := hb
      rw [isOpen_openedAt, hu] at hu'
      cases hu'
    | some u =>
      rw [isOpen_of_opened hst hu] at h hb
      rw [if_neg (of_decide_eq_false h)] at hb
      cases hb.1
  · rw [isOpen_of_not_opened hst] at hb
    exact hst hb.1

/-- The circuit blocks at `t` iff the latest trip since the last reset is younger than
the recovery timeout. -/
theorem blocking_replay_iff (hh : NewestFirst Call.time h) (ht : Before Call.time t h) :
    Blocking c t (replay c h) ↔
      ∃ u, latestTrip c (epoch c h) = some u ∧ t - u < c.recoveryTimeout := by
  have hr := replay_refines c hh
  rw [Blocking, hr.openedAt, hr.state, phase_eq_opened_iff]
  constructor
  · rintro ⟨-, u, hu, hlt⟩
    exact ⟨u, hu, hlt⟩
  · rintro ⟨u, hu, hlt⟩
    -- a probed trip would already be a recovery timeout old
    have hnp : probed c (epoch c h) = false := by
      rw [Bool.eq_false_iff]
      intro hp
      exact absurd (recoveryTimeout_le_of_probed hp hu (before_epoch ht)) (not_le.mpr hlt)
    exact ⟨⟨⟨u, hu⟩, hnp⟩, u, hu, hlt⟩

/-- **The breaker refines its history-based specification.** -/
theorem breaker_refines_history (c : Config) (h : History) (t : ℚ)
    (hh : NewestFirst Call.time h) (ht : Before Call.time t h) :
    ((isOpen c t (replay c h)).1 = true ↔
        ∃ u, latestTrip c (epoch c h) = some u ∧ t - u < c.recoveryTimeout) ∧
      ((replay c h).state = .opened ∨ (replay c h).state = .halfOpen ↔
        (replay c h).openedAt ≠ none) ∧
      (replay c h).openedAt = latestTrip c (epoch c h) ∧
      (c.failureThreshold ≤ (pruned c t (replay c h).failures).length ↔
        trips c (epoch c h) t = true) := by
  have hr := replay_refines c hh
  refine ⟨isOpen_eq_true_iff.trans (blocking_replay_iff hh ht), ?_, hr.openedAt,
    (trips_iff hr ht).symm⟩
  rw [hr.openedAt, ← phase_ne_closed_iff, ← hr.state]
  cases (replay c h).state <;> simp

/-- Five failures at once and a probe a minute later, with the shipped parameters. -/
def fiveFailuresThenProbe : History :=
  [⟨.isOpen, 60⟩, ⟨.recordFailure, 0⟩, ⟨.recordFailure, 0⟩, ⟨.recordFailure, 0⟩,
    ⟨.recordFailure, 0⟩, ⟨.recordFailure, 0⟩]

lemma fiveFailuresThenProbe_newestFirst : NewestFirst Call.time fiveFailuresThenProbe := by
  simp [NewestFirst, fiveFailuresThenProbe]

lemma fiveFailuresThenProbe_before : Before Call.time 60 fiveFailuresThenProbe := by
  simp [Before, fiveFailuresThenProbe]

theorem breaker_refines_history_fiveFailures :
    (replay {} fiveFailuresThenProbe).openedAt = some 0 ∧
      (replay {} fiveFailuresThenProbe).openedAt
        = latestTrip {} (epoch {} fiveFailuresThenProbe) :=
  ⟨by decide +kernel,
    (breaker_refines_history {} fiveFailuresThenProbe 60 fiveFailuresThenProbe_newestFirst
      fiveFailuresThenProbe_before).2.2.1⟩

/-! ## Failures while half-open -/

/-- **When a failed probe reopens the circuit.** In the half-open state a failure opens
the circuit again exactly if, this one included, enough failures since the last reset are
at most `window` old. -/
theorem halfOpen_failure_reopens_iff (c : Config) (h : History) (t : ℚ)
    (hh : NewestFirst Call.time h) (ht : Before Call.time t h)
    (hhalf : (replay c h).state = .halfOpen) :
    ((recordFailure c t (replay c h)).state = .opened ∧
        (recordFailure c t (replay c h)).openedAt = some t) ↔
      c.failureThreshold ≤
        (recent (ageWindow c) id t (t :: failureTimes (epoch c h))).length := by
  have hr := replay_refines c hh
  rw [← pruned_length hr ht]
  constructor
  -- below the threshold the state stays half-open
  · rintro ⟨hst, -⟩
    by_contra hbelow
    rw [(recordFailure_below hbelow).1, hhalf] at hst
    cases hst
  · exact recordFailure_trips

/-- The failed probe of `fiveFailuresThenProbe` leaves the circuit half-open. -/
theorem halfOpen_failure_stays_halfOpen :
    ¬ ∀ (c : Config) (h : History) (t : ℚ), NewestFirst Call.time h → Before Call.time t h →
      (replay c h).state = .halfOpen →
        (recordFailure c t (replay c h)).state = .opened ∧
          (recordFailure c t (replay c h)).openedAt = some t := by
  intro hall
  have hhalf : (replay {} fiveFailuresThenProbe).state = .halfOpen := by decide +kernel
  have hfail : (recordFailure {} 60 (replay {} fiveFailuresThenProbe)).state = .halfOpen := by
    decide +kernel
  have := (hall {} _ 60 fiveFailuresThenProbe_newestFirst fiveFailuresThenProbe_before hhalf).1
  rw [hfail] at this
  cases this

theorem halfOpen_failure_reopens_iff_fiveFailures :
    ((recordFailure {} 60 (replay {} fiveFailuresThenProbe)).state = .opened ∧
        (recordFailure {} 60 (replay {} fiveFailuresThenProbe)).openedAt = some 60) ↔
      5 ≤ (recent (ageWindow {}) id 60
        (60 :: failureTimes (epoch {} fiveFailuresThenProbe))).length :=
  halfOpen_failure_reopens_iff {} fiveFailuresThenProbe 60 fiveFailuresThenProbe_newestFirst
    fiveFailuresThenProbe_before (by decide +kernel)

/-! ## Trips between a check and a later instant -/

/-- The times of the trips among the calls `post`, made after the calls `pre`. -/
def tripsAfter (c : Config) (pre : History) : History → List ℚ
  | [] => []
  | ⟨.recordFailure, u⟩ :: post =>
    if trips c (epoch c (post ++ pre)) u then u :: tripsAfter c pre post
    else tripsAfter c pre post
  | ⟨.isOpen, _⟩ :: post => tripsAfter c pre post
  | ⟨.recordSuccess, _⟩ :: post => tripsAfter c pre post

lemma le_of_mem_tripsAfter {pre post : History} (hb : Before Call.time s post)
    (hu : u ∈ tripsAfter c pre post) : u ≤ s := by
  induction post with
  | nil => cases hu
  | cons call post ih =>
    obtain ⟨op, v⟩ := call
    have ih := ih fun x hx => hb x (List.mem_cons_of_mem _ hx)
    cases op with
    | isOpen => exact ih hu
    | recordSuccess => exact ih hu
    | recordFailure =>
      rw [tripsAfter] at hu
      split at hu
      · rcases List.mem_cons.mp hu with rfl | hu
        · exact hb ⟨.recordFailure, u⟩ List.mem_cons_self
        · exact ih hu
      · exact ih hu

/-- A young trip is still in force: nothing reset the circuit since, and a later trip
only restarted the timeout. -/
lemma latestTrip_of_mem_tripsAfter {pre post : History}
    (hh : NewestFirst Call.time (post ++ pre)) (hb : Before Call.time t (post ++ pre))
    (hu : u ∈ tripsAfter c pre post) (hlt : t - u < c.recoveryTimeout) :
    ∃ v, latestTrip c (epoch c (post ++ pre)) = some v ∧ u ≤ v := by
  induction post with
  | nil => cases hu
  | cons call post ih =>
    obtain ⟨op, s⟩ := call
    have hs : s ≤ t := hb ⟨op, s⟩ List.mem_cons_self
    have hbs : Before Call.time s (post ++ pre) := hh.before_head
    have ih := ih hh.tail (hbs.mono hs)
    rw [List.cons_append]
    cases op with
    | isOpen => exact ih hu
    | recordFailure =>
      rw [epoch, latestTrip]
      rw [tripsAfter] at hu
      split at hu
      · next htrip =>
        have hus : u ≤ s := by
          rcases List.mem_cons.mp hu with rfl | hu
          · exact le_refl _
          · exact le_of_mem_tripsAfter (fun x hx => hbs x (List.mem_append_left _ hx)) hu
        exact ⟨s, if_pos htrip, hus⟩
      · next htrip =>
        rw [if_neg htrip]
        exact ih hu
    | recordSuccess =>
      obtain ⟨v, hv, huv⟩ := ih hu
      rw [epoch]
      split
      · next hreset =>
        -- a reset would need a probe, and so a trip older than the recovery timeout
        rw [resets, Bool.and_eq_true] at hreset
        have hold := recoveryTimeout_le_of_probed hreset.2 hv (before_epoch hbs)
        linarith
      · exact ⟨v, hv, huv⟩

/-- A trip that blocks now is younger than every check that was let through. -/
lemma mem_tripsAfter_of_latestTrip {pre post : History}
    (hpre : ∀ v, latestTrip c (epoch c pre) = some v → c.recoveryTimeout ≤ t - v)
    (hu : latestTrip c (epoch c (post ++ pre)) = some u) (hlt : t - u < c.recoveryTimeout) :
    u ∈ tripsAfter c pre post := by
  induction post with
  | nil => exact absurd (hpre u hu) (not_le.mpr hlt)
  | cons call post ih =>
    obtain ⟨op, s⟩ := call
    rw [List.cons_append] at hu
    cases op with
    | isOpen => exact ih hu
    | recordFailure =>
      rw [epoch, latestTrip] at hu
      rw [tripsAfter]
      split at hu
      · next htrip =>
        rw [if_pos htrip, Option.some.inj hu]
        exact List.mem_cons_self
      · next htrip =>
        rw [if_neg htrip]
        exact ih hu
    | recordSuccess =>
      rw [epoch] at hu
      split at hu
      · cases hu
      · exact ih hu

/-- **Blocked at the call, let through at the check.** If an `is_open` at `s` answered
`False`, then at a later `t` the circuit is open with its timeout running exactly if
it tripped in between, less than a recovery timeout before `t`. -/
theorem blocking_iff_trip_after_check {pre post : History}
    (hh : NewestFirst Call.time (post ++ ⟨.isOpen, s⟩ :: pre))
    (ht : Before Call.time t (post ++ ⟨.isOpen, s⟩ :: pre))
    (hcheck : (isOpen c s (replay c pre)).1 = false) :
    Blocking c t (replay c (post ++ ⟨.isOpen, s⟩ :: pre)) ↔
      ∃ u ∈ tripsAfter c (⟨.isOpen, s⟩ :: pre) post, t - u < c.recoveryTimeout := by
  have hpre : NewestFirst Call.time (⟨.isOpen, s⟩ :: pre) :=
    List.Pairwise.sublist (List.sublist_append_right _ _) hh
  have hst : s ≤ t := ht ⟨.isOpen, s⟩ (by simp)
  have hold : ∀ v, latestTrip c (epoch c (⟨.isOpen, s⟩ :: pre)) = some v →
      c.recoveryTimeout ≤ t - v := by
    intro v hv
    have hnb : ¬ Blocking c s (replay c pre) := by
      rw [← isOpen_eq_true_iff, hcheck]
      simp
    rw [blocking_replay_iff hpre.tail hpre.before_head] at hnb
    have hle : c.recoveryTimeout ≤ s - v := not_lt.mp fun hlt => hnb ⟨v, hv, hlt⟩
    linarith
  rw [blocking_replay_iff hh ht]
  constructor
  · rintro ⟨u, hu, hlt⟩
    exact ⟨u, mem_tripsAfter_of_latestTrip hold hu hlt, hlt⟩
  · rintro ⟨u, hu, hlt⟩
    obtain ⟨v, hv, huv⟩ := latestTrip_of_mem_tripsAfter hh ht hu hlt
    exact ⟨v, hv, by linarith⟩

end CircuitBreaker
end InferenceApi
