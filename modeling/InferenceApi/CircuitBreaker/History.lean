import InferenceApi.CircuitBreaker.Breaker

/-!
# What the circuit breaker is for, in terms of its whole history

The specification keeps everything: the list of calls made so far, newest first, each
with the clock reading it saw. On it

* a **trip** is a failure at which enough recorded failures were young enough;
* a trip is **probed** once some `is_open` came a recovery timeout or more after it;
* a **reset** is a success reported after a probed trip, and starts a new *epoch*.

`Refines` relates the three attributes the code keeps to the current epoch, and
`replay_refines` shows that it holds after every sequence of calls at nondecreasing times.
-/

namespace InferenceApi
namespace CircuitBreaker

open SlidingWindow

/-- The methods that touch the breaker's state. -/
inductive Op
  | isOpen
  | recordFailure
  | recordSuccess
deriving DecidableEq, Repr

/-- One call: the method and the clock reading it saw. -/
structure Call where
  op : Op
  time : ℚ
deriving DecidableEq, Repr

/-- The calls made so far, newest first. -/
abbrev History := List Call

/-- The state a call leaves behind. -/
def apply (c : Config) (cb : CircuitBreaker) (call : Call) : CircuitBreaker :=
  match call.op with
  | .isOpen => (isOpen c call.time cb).2
  | .recordFailure => recordFailure c call.time cb
  | .recordSuccess => recordSuccess cb

/-- The breaker after all calls of a history. -/
def replay (c : Config) : History → CircuitBreaker
  | [] => {}
  | call :: h => apply c (replay c h) call

/-! ## The specification -/

/-- An age of at most `window` counts towards the threshold. -/
def ageWindow (c : Config) : Window ℚ where
  live age := decide (age ≤ c.window)
  fading hab hb := decide_eq_true (hab.trans (of_decide_eq_true hb))

/-- The times of all failures of a history, newest first. -/
def failureTimes : History → List ℚ
  | [] => []
  | ⟨.isOpen, _⟩ :: h => failureTimes h
  | ⟨.recordFailure, t⟩ :: h => t :: failureTimes h
  | ⟨.recordSuccess, _⟩ :: h => failureTimes h

/-- A failure at `t` after the epoch `e` is a trip: with it, at least
`failureThreshold` failures of the epoch have age at most `window`. -/
def trips (c : Config) (e : History) (t : ℚ) : Bool :=
  decide (c.failureThreshold ≤ (recent (ageWindow c) id t (t :: failureTimes e)).length)

/-- The time of the latest trip of an epoch. -/
def latestTrip (c : Config) : History → Option ℚ
  | [] => none
  | ⟨.isOpen, _⟩ :: e => latestTrip c e
  | ⟨.recordFailure, t⟩ :: e => if trips c e t then some t else latestTrip c e
  | ⟨.recordSuccess, _⟩ :: e => latestTrip c e

/-- Since the latest trip of the epoch, some `is_open` came at age at least
`recoveryTimeout`. -/
def probed (c : Config) : History → Bool
  | [] => false
  | ⟨.isOpen, t⟩ :: e =>
    (match latestTrip c e with
      | none => false
      | some u => decide (c.recoveryTimeout ≤ t - u)) || probed c e
  | ⟨.recordFailure, t⟩ :: e => !trips c e t && probed c e
  | ⟨.recordSuccess, _⟩ :: e => probed c e

/-- A success after the epoch `e` is a reset. -/
def resets (c : Config) (e : History) : Bool :=
  (latestTrip c e).isSome && probed c e

/-- The calls since the last reset. -/
def epoch (c : Config) : History → History
  | [] => []
  | ⟨.isOpen, t⟩ :: h => ⟨.isOpen, t⟩ :: epoch c h
  | ⟨.recordFailure, t⟩ :: h => ⟨.recordFailure, t⟩ :: epoch c h
  | ⟨.recordSuccess, t⟩ :: h =>
    if resets c (epoch c h) then [] else ⟨.recordSuccess, t⟩ :: epoch c h

/-- The state an epoch amounts to. -/
def phase (c : Config) (e : History) : State :=
  match latestTrip c e with
  | none => .closed
  | some _ => if probed c e then .halfOpen else .opened

/-- The attributes of `cb` are what the history says they should be. -/
structure Refines (c : Config) (cb : CircuitBreaker) (h : History) : Prop where
  /-- `_opened_at` is the time of the latest trip since the last reset. -/
  openedAt : cb.openedAt = latestTrip c (epoch c h)
  /-- `_state` is determined by the latest trip and whether it was probed. -/
  state : cb.state = phase c (epoch c h)
  /-- From now on `_failures` counts exactly as all failures of the epoch do. -/
  failures : ∀ t, Before Call.time t h →
    recent (ageWindow c) id t cb.failures =
      recent (ageWindow c) id t (failureTimes (epoch c h)).reverse

variable {c : Config} {cb : CircuitBreaker} {h e : History} {t u : ℚ}

/-! ## Small facts about the specification -/

lemma epoch_subset : ∀ {h : History}, epoch c h ⊆ h
  | [] => List.Subset.refl _
  | ⟨.recordSuccess, t⟩ :: h => by
    rw [epoch]
    split
    · exact List.nil_subset _
    · exact List.cons_subset_cons _ epoch_subset
  | ⟨.isOpen, t⟩ :: h => List.cons_subset_cons _ epoch_subset
  | ⟨.recordFailure, t⟩ :: h => List.cons_subset_cons _ epoch_subset

lemma before_epoch (h' : Before Call.time t h) : Before Call.time t (epoch c h) :=
  fun call hc => h' call (epoch_subset hc)

/-- A probed trip is at least a recovery timeout old from then on. -/
lemma recoveryTimeout_le_of_probed (hp : probed c e = true) (hu : latestTrip c e = some u)
    (hb : Before Call.time t e) : c.recoveryTimeout ≤ t - u := by
  induction e with
  | nil => cases hp
  | cons call e ih =>
    obtain ⟨op, s⟩ := call
    have hs : s ≤ t := hb ⟨op, s⟩ List.mem_cons_self
    have hb' : Before Call.time t e := fun x hx => hb x (List.mem_cons_of_mem _ hx)
    cases op with
    | isOpen =>
      rw [latestTrip] at hu
      rw [probed, hu, Bool.or_eq_true, decide_eq_true_eq] at hp
      -- this check is the probe, or an earlier one was
      rcases hp with hp | hp
      · exact hp.trans (sub_le_sub_right hs u)
      · exact ih hp hu hb'
    | recordFailure =>
      -- a trip is not probed yet, so this failure was none
      rw [probed, Bool.and_eq_true, Bool.not_eq_true'] at hp
      rw [latestTrip, if_neg (by simp [hp.1])] at hu
      exact ih hp.2 hu hb'
    | recordSuccess => exact ih hp hu hb'

lemma phase_ne_closed_iff : phase c e ≠ .closed ↔ latestTrip c e ≠ none := by
  unfold phase
  split
  · next hn => simp [hn]
  · next u hu =>
    rw [hu]
    split <;> simp

lemma phase_eq_halfOpen_iff : phase c e = .halfOpen ↔ resets c e = true := by
  unfold phase resets
  split
  · next hn => simp [hn]
  · next u hu =>
    rw [hu]
    cases probed c e <;> simp

/-! ## One call -/

/-- The pruned list `record_failure` builds counts what the whole epoch counts. -/
lemma pruned_length (hr : Refines c cb h) (ht : Before Call.time t h) :
    (pruned c t cb.failures).length =
      (recent (ageWindow c) id t (t :: failureTimes (epoch c h))).length := by
  have hp : pruned c t cb.failures = recent (ageWindow c) id t (cb.failures ++ [t]) := rfl
  rw [hp, recent_append, hr.failures t ht, ← recent_append, ← List.reverse_cons, recent, recent,
    List.filter_reverse, List.length_reverse]

lemma trips_iff (hr : Refines c cb h) (ht : Before Call.time t h) :
    trips c (epoch c h) t = true ↔ c.failureThreshold ≤ (pruned c t cb.failures).length := by
  rw [trips, decide_eq_true_eq, pruned_length hr ht]

theorem refines_isOpen (hr : Refines c cb h) :
    Refines c (isOpen c t cb).2 (⟨.isOpen, t⟩ :: h) := by
  have hopened := hr.openedAt
  have hstate := hr.state
  refine ⟨?_, ?_, fun s hs => ?_⟩
  · rw [isOpen_openedAt, hopened, epoch, latestTrip]
  · cases hu : latestTrip c (epoch c h) with
    -- no trip: the check changes nothing
    | none =>
      have hclosed : cb.state = .closed := by rw [hstate, phase, hu]
      rw [isOpen_of_not_opened (by simp [hclosed]), epoch, phase, latestTrip, hu]
      exact hclosed
    | some u =>
      have hphase : phase c (epoch c (⟨.isOpen, t⟩ :: h))
          = if c.recoveryTimeout ≤ t - u ∨ probed c (epoch c h) = true then .halfOpen
            else .opened := by
        rw [epoch, phase, latestTrip, hu, probed, hu]
        simp
      rw [hphase]
      cases hp : probed c (epoch c h) with
      | true =>
        have hhalf : cb.state = .halfOpen := by rw [hstate, phase, hu, hp]; rfl
        rw [isOpen_of_not_opened (by simp [hhalf]), if_pos (Or.inr rfl)]
        exact hhalf
      | false =>
        have hopen : cb.state = .opened := by rw [hstate, phase, hu, hp]; rfl
        rw [isOpen_of_opened hopen (hopened.trans hu)]
        -- the trip is open and unprobed: the check probes it if it is old enough
        by_cases hlt : t - u < c.recoveryTimeout
        · rw [if_pos hlt, if_neg (by simpa using hlt)]
          exact hopen
        · rw [if_neg hlt, if_pos (Or.inl (not_lt.mp hlt))]
  · rw [isOpen_failures]
    exact hr.failures s fun x hx => hs x (List.mem_cons_of_mem _ hx)

theorem refines_recordFailure (hr : Refines c cb h) (ht : Before Call.time t h) :
    Refines c (recordFailure c t cb) (⟨.recordFailure, t⟩ :: h) := by
  have hfail : ∀ s, Before Call.time s (⟨.recordFailure, t⟩ :: h) →
      recent (ageWindow c) id s (recordFailure c t cb).failures
        = recent (ageWindow c) id s (failureTimes (⟨.recordFailure, t⟩ :: epoch c h)).reverse := by
    intro s hs
    -- what is pruned at `t` cannot count at `s` either
    have hts : t ≤ s := hs ⟨.recordFailure, t⟩ List.mem_cons_self
    have hp : pruned c t cb.failures = recent (ageWindow c) id t (cb.failures ++ [t]) := rfl
    rw [recordFailure_failures, hp, recent_recent hts, failureTimes, List.reverse_cons,
      recent_append, recent_append, hr.failures s (ht.mono hts)]
  have hepoch : epoch c (⟨.recordFailure, t⟩ :: h) = ⟨.recordFailure, t⟩ :: epoch c h := rfl
  -- the threshold is looked at in every state, so an open circuit can trip again
  by_cases htrip : trips c (epoch c h) t = true
  · obtain ⟨hst, hop⟩ := recordFailure_trips ((trips_iff hr ht).mp htrip)
    refine ⟨?_, ?_, by rwa [hepoch]⟩
    · rw [hop, hepoch, latestTrip, if_pos htrip]
    · rw [hst, hepoch, phase, latestTrip, if_pos htrip, probed, htrip]
      rfl
  · obtain ⟨hst, hop⟩ := recordFailure_below (mt (trips_iff hr ht).mpr htrip)
    refine ⟨?_, ?_, by rwa [hepoch]⟩
    · rw [hop, hepoch, latestTrip, if_neg htrip, hr.openedAt]
    · rw [hst, hepoch, phase, latestTrip, if_neg htrip, probed, Bool.eq_false_iff.mpr htrip]
      simpa [phase] using hr.state

theorem refines_recordSuccess (hr : Refines c cb h) :
    Refines c (recordSuccess cb) (⟨.recordSuccess, t⟩ :: h) := by
  by_cases hreset : resets c (epoch c h) = true
  · have hhalf : cb.state = .halfOpen := hr.state.trans (phase_eq_halfOpen_iff.mpr hreset)
    have hepoch : epoch c (⟨.recordSuccess, t⟩ :: h) = [] := by rw [epoch, if_pos hreset]
    rw [recordSuccess_of_halfOpen hhalf]
    refine ⟨?_, ?_, fun s _ => ?_⟩ <;> rw [hepoch] <;> rfl
  -- without a probed trip the success is not looked at
  · have hhalf : cb.state ≠ .halfOpen := by
      rw [hr.state]
      exact mt phase_eq_halfOpen_iff.mp hreset
    have hepoch : epoch c (⟨.recordSuccess, t⟩ :: h) = ⟨.recordSuccess, t⟩ :: epoch c h := by
      rw [epoch, if_neg hreset]
    rw [recordSuccess_of_not_halfOpen hhalf]
    refine ⟨?_, ?_, fun s hs => ?_⟩ <;> rw [hepoch]
    · exact hr.openedAt
    · exact hr.state
    · exact hr.failures s fun x hx => hs x (List.mem_cons_of_mem _ hx)

/-! ## Every run -/

/-- **Refinement.** After any sequence of calls at nondecreasing times the breaker's
attributes are those the history calls for. -/
theorem replay_refines (c : Config) (hh : NewestFirst Call.time h) : Refines c (replay c h) h := by
  induction h with
  | nil => exact ⟨rfl, rfl, fun _ _ => rfl⟩
  | cons call h ih =>
    have hr := ih hh.tail
    obtain ⟨op, t⟩ := call
    cases op with
    | isOpen => exact refines_isOpen hr
    | recordFailure => exact refines_recordFailure hr hh.before_head
    | recordSuccess => exact refines_recordSuccess hr

end CircuitBreaker
end InferenceApi
