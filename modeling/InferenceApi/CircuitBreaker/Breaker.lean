import InferenceApi.Lib.SlidingWindow

/-!
# The circuit breaker

`CircuitBreaker` of `app/core/circuit_breaker.py`. Its methods hold an `asyncio.Lock`
but never await inside it, so a call is one atomic step; each reads the monotonic clock
once and takes the reading as the argument `now`. The constructor's arguments are the
`Config`, the three mutable attributes the `CircuitBreaker`.
-/

namespace InferenceApi
namespace CircuitBreaker

/-- `State` of the source (`OPEN` is `opened`, since `open` is a keyword). -/
inductive State
  | closed
  | opened
  | halfOpen
deriving DecidableEq, Repr

/-- The arguments of `CircuitBreaker.__init__`, with its defaults. -/
structure Config where
  failureThreshold : ℕ := 5
  recoveryTimeout : ℚ := 60
  window : ℚ := 30

end CircuitBreaker

open CircuitBreaker in
/-- The mutable attributes `_state`, `_failures` and `_opened_at`, as `__init__` sets them. -/
structure CircuitBreaker where
  state : State := .closed
  failures : List ℚ := []
  openedAt : Option ℚ := none
deriving DecidableEq, Repr

namespace CircuitBreaker

/-! ## The methods -/

/-- `is_open`: answers whether a call must be rejected, and turns an open circuit
half-open once the recovery timeout has elapsed. -/
def isOpen (c : Config) (now : ℚ) (cb : CircuitBreaker) : Bool × CircuitBreaker :=
  match cb.state with
  | .opened =>
    match cb.openedAt with
    | none => (false, cb)
    | some openedAt =>
      if now - openedAt ≥ c.recoveryTimeout then (false, { cb with state := .halfOpen })
      else (true, cb)
  | _ => (false, cb)

/-- `get_retry_after`: what is left of the recovery timeout. -/
def getRetryAfter (c : Config) (now : ℚ) (cb : CircuitBreaker) : ℚ :=
  match cb.openedAt with
  | none => 0
  | some openedAt => max 0 (c.recoveryTimeout - (now - openedAt))

/-- The failures `record_failure` keeps at `now`: the old ones and this one, less those
outside the sliding window. -/
def pruned (c : Config) (now : ℚ) (failures : List ℚ) : List ℚ :=
  (failures ++ [now]).filter fun t => now - t ≤ c.window

/-- `record_failure`. -/
def recordFailure (c : Config) (now : ℚ) (cb : CircuitBreaker) : CircuitBreaker :=
  if (pruned c now cb.failures).length ≥ c.failureThreshold then
    { failures := pruned c now cb.failures, state := .opened, openedAt := some now }
  else
    { cb with failures := pruned c now cb.failures }

/-- `record_success`. -/
def recordSuccess (cb : CircuitBreaker) : CircuitBreaker :=
  if cb.state = .halfOpen then { state := .closed, failures := [], openedAt := none } else cb

/-! ## What each method changes -/

@[simp] lemma isOpen_failures (c : Config) (now : ℚ) (cb : CircuitBreaker) :
    (isOpen c now cb).2.failures = cb.failures := by
  unfold isOpen
  split
  · split
    · rfl
    · split <;> rfl
  · rfl

@[simp] lemma isOpen_openedAt (c : Config) (now : ℚ) (cb : CircuitBreaker) :
    (isOpen c now cb).2.openedAt = cb.openedAt := by
  unfold isOpen
  split
  · split
    · rfl
    · split <;> rfl
  · rfl

/-- Only an open circuit is touched by `is_open`. -/
lemma isOpen_of_not_opened {cb : CircuitBreaker} (h : cb.state ≠ .opened) (c : Config) (now : ℚ) :
    isOpen c now cb = (false, cb) := by
  unfold isOpen
  split
  · contradiction
  · rfl

/-- An open circuit answers by the age of the trip, and half-opens when it lets a call
through. -/
lemma isOpen_of_opened {cb : CircuitBreaker} {u : ℚ} (h : cb.state = .opened)
    (hu : cb.openedAt = some u) (c : Config) (now : ℚ) :
    isOpen c now cb = (decide (now - u < c.recoveryTimeout),
      if now - u < c.recoveryTimeout then cb else { cb with state := .halfOpen }) := by
  unfold isOpen
  simp only [h, hu]
  by_cases hlt : now - u < c.recoveryTimeout
  · rw [if_neg (not_le.mpr hlt), if_pos hlt, decide_eq_true hlt]
  · rw [if_pos (not_lt.mp hlt), if_neg hlt, decide_eq_false hlt]

@[simp] lemma recordFailure_failures (c : Config) (now : ℚ) (cb : CircuitBreaker) :
    (recordFailure c now cb).failures = pruned c now cb.failures := by
  unfold recordFailure
  split <;> rfl

/-- A failure that reaches the threshold opens the circuit now. -/
lemma recordFailure_trips {c : Config} {now : ℚ} {cb : CircuitBreaker}
    (h : c.failureThreshold ≤ (pruned c now cb.failures).length) :
    (recordFailure c now cb).state = .opened ∧ (recordFailure c now cb).openedAt = some now := by
  rw [recordFailure, if_pos h]
  exact ⟨rfl, rfl⟩

/-- A failure below the threshold leaves state and opening time alone, in every state. -/
lemma recordFailure_below {c : Config} {now : ℚ} {cb : CircuitBreaker}
    (h : ¬ c.failureThreshold ≤ (pruned c now cb.failures).length) :
    (recordFailure c now cb).state = cb.state ∧
      (recordFailure c now cb).openedAt = cb.openedAt := by
  rw [recordFailure, if_neg h]
  exact ⟨rfl, rfl⟩

lemma recordSuccess_of_halfOpen {cb : CircuitBreaker} (h : cb.state = .halfOpen) :
    recordSuccess cb = {} := by
  rw [recordSuccess, if_pos h]

lemma recordSuccess_of_not_halfOpen {cb : CircuitBreaker} (h : cb.state ≠ .halfOpen) :
    recordSuccess cb = cb := by
  rw [recordSuccess, if_neg h]

end CircuitBreaker
end InferenceApi
