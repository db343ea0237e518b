import InferenceApi.CircuitBreaker.Theorems
import InferenceApi.Schemas

/-!
# `GET /health` and the circuit

`health` of `app/api/routes/health.py` asks the breaker before it reports the state, so that
an open circuit whose recovery timeout is over is shown, and from then on is, half-open. A
health check is therefore not without effect. `decisions_eq` says when the requests do not
notice: two breakers, one with and one without the health checks, can differ only in being
half-open early, and only a success tells these apart.
-/

namespace InferenceApi

open CircuitBreaker SlidingWindow

/-- `State.value`. -/
def CircuitBreaker.State.value : State → String
  | .closed => "closed"
  | .opened => "open"
  | .halfOpen => "half-open"

/-- `HealthResponse`. -/
structure HealthResponse where
  status : String
  redis : String
  llmCircuit : String
  modelsLoaded : List String
deriving DecidableEq, Repr

/-- The part of `health` after the ping. -/
def reportHealth (c : Config) (now : ℚ) (status redis : String) (modelsLoaded : List String)
    (cb : CircuitBreaker) : Except RedisError HealthResponse × CircuitBreaker :=
  let (_, cb) := isOpen c now cb
  (.ok ⟨status, redis, cb.state.value, modelsLoaded⟩, cb)

/-- `health`; `ping` is what becomes of the ping of Redis. -/
def health (c : Config) (now : ℚ) (ping : Except RedisError Unit) (modelsLoaded : List String)
    (cb : CircuitBreaker) : Except RedisError HealthResponse × CircuitBreaker :=
  match ping with
  | .ok () => reportHealth c now "ok" "ok" modelsLoaded cb
  | .error .connectionError => reportHealth c now "degraded" "down" modelsLoaded cb
  | .error e => (.error e, cb)

/-! ## Traffic with health checks in between -/

/-- Who comes to the breaker: a request with one of its calls, or a health check. -/
inductive Visitor
  | traffic (op : Op)
  | health (ping : Except RedisError Unit) (modelsLoaded : List String)

/-- A visit and the clock reading it saw. -/
structure Visit where
  visitor : Visitor
  time : ℚ

/-- The breaker after all visits of a list, newest first. -/
def serve (c : Config) : List Visit → CircuitBreaker
  | [] => {}
  | ⟨.traffic op, t⟩ :: visits => apply c (serve c visits) ⟨op, t⟩
  | ⟨.health ping modelsLoaded, t⟩ :: visits =>
    (health c t ping modelsLoaded (serve c visits)).2

/-- The answers the requests were given, newest first. -/
def decisions (c : Config) : List Visit → List Bool
  | [] => []
  | ⟨.traffic .isOpen, t⟩ :: visits => (isOpen c t (serve c visits)).1 :: decisions c visits
  | ⟨.traffic .recordFailure, _⟩ :: visits => decisions c visits
  | ⟨.traffic .recordSuccess, _⟩ :: visits => decisions c visits
  | ⟨.health _ _, _⟩ :: visits => decisions c visits

/-- The same run without the health checks. -/
def withoutHealth : List Visit → List Visit
  | [] => []
  | ⟨.traffic op, t⟩ :: visits => ⟨.traffic op, t⟩ :: withoutHealth visits
  | ⟨.health _ _, _⟩ :: visits => withoutHealth visits

variable {c : Config} {cb cb' : CircuitBreaker} {s t : ℚ} {visits : List Visit}

/-- `cb` is `cb'`, or half-open where `cb'` is still open with its recovery timeout over. -/
def Refreshed (c : Config) (t : ℚ) (cb cb' : CircuitBreaker) : Prop :=
  cb = cb' ∨ cb'.state = .opened ∧ (∃ u, cb'.openedAt = some u ∧ c.recoveryTimeout ≤ t - u) ∧
    cb = { cb' with state := .halfOpen }

lemma Refreshed.mono (h : Refreshed c s cb cb') (hst : s ≤ t) : Refreshed c t cb cb' := by
  rcases h with rfl | ⟨hopen, ⟨u, hu, hold⟩, heq⟩
  · exact Or.inl rfl
  · exact Or.inr ⟨hopen, ⟨u, hu, by linarith⟩, heq⟩

/-- A check does to one breaker what it does to the other, or half-opens it. -/
lemma refreshed_isOpen_self : Refreshed c t (isOpen c t cb).2 cb := by
  by_cases hopen : cb.state = .opened
  · cases hu : cb.openedAt with
    | none =>
      left
      simp [isOpen, hopen, hu]
    | some u =>
      rw [isOpen_of_opened hopen hu]
      by_cases hlt : t - u < c.recoveryTimeout
      · rw [if_pos hlt]
        exact Or.inl rfl
      · rw [if_neg hlt]
        exact Or.inr ⟨hopen, ⟨u, hu, not_lt.mp hlt⟩, rfl⟩
  · rw [isOpen_of_not_opened hopen]
    exact Or.inl rfl

/-- After a request's check there is no difference left, and there was none in the answer. -/
lemma Refreshed.isOpen (h : Refreshed c t cb cb') : isOpen c t cb = isOpen c t cb' := by
  rcases h with rfl | ⟨hopen, ⟨u, hu, hold⟩, rfl⟩
  · rfl
  · rw [isOpen_of_opened hopen hu, isOpen_of_not_opened State.noConfusion,
      if_neg (not_lt.mpr hold), decide_eq_false (not_lt.mpr hold)]

/-- A failure does not look at the state. -/
lemma Refreshed.recordFailure (h : Refreshed c t cb cb') :
    Refreshed c t (recordFailure c t cb) (recordFailure c t cb') := by
  rcases h with rfl | ⟨hopen, hold, rfl⟩
  · exact Or.inl rfl
  · unfold CircuitBreaker.recordFailure
    dsimp only
    -- a trip overwrites the state, and below the threshold it is not touched
    split
    · exact Or.inl rfl
    · exact Or.inr ⟨hopen, hold, rfl⟩

/-- A success closes a half-open circuit, so here the difference must not show. -/
lemma Refreshed.recordSuccess (h : Refreshed c t cb cb')
    (hseen : cb.state = .halfOpen → cb'.state = .halfOpen) :
    recordSuccess cb = recordSuccess cb' := by
  rcases h with rfl | ⟨hopen, -, rfl⟩
  · rfl
  · cases hopen.symm.trans (hseen rfl)

/-- A health check only refreshes. -/
lemma Refreshed.health (h : Refreshed c t cb cb') (ping : Except RedisError Unit)
    (modelsLoaded : List String) : Refreshed c t (health c t ping modelsLoaded cb).2 cb' := by
  have hcheck : Refreshed c t (CircuitBreaker.isOpen c t cb).2 cb' := by
    rcases h with rfl | ⟨hopen, hold, rfl⟩
    · exact refreshed_isOpen_self
    -- the breaker already is half-open, and a second health check leaves it so
    · rw [isOpen_of_not_opened State.noConfusion]
      exact Or.inr ⟨hopen, hold, rfl⟩
  unfold InferenceApi.health
  split
  · exact hcheck
  · exact hcheck
  · exact h

/-- No success comes to a circuit that is half-open because of health checks alone. -/
def SuccessesSeen (c : Config) : List Visit → Prop
  | [] => True
  | ⟨.traffic .recordSuccess, _⟩ :: visits =>
    ((serve c visits).state = .halfOpen → (serve c (withoutHealth visits)).state = .halfOpen) ∧
      SuccessesSeen c visits
  | _ :: visits => SuccessesSeen c visits

/-- With and without the health checks the breaker is the same, up to being refreshed. -/
theorem refreshed_serve (hv : NewestFirst Visit.time visits) (ht : Before Visit.time t visits)
    (hseen : SuccessesSeen c visits) :
    Refreshed c t (serve c visits) (serve c (withoutHealth visits)) := by
  induction visits generalizing t with
  | nil => exact Or.inl rfl
  | cons visit visits ih =>
    obtain ⟨visitor, s⟩ := visit
    have hst : s ≤ t := ht ⟨visitor, s⟩ List.mem_cons_self
    have ih := ih hv.tail hv.before_head
    cases visitor with
    | health ping modelsLoaded => exact ((ih hseen).health ping modelsLoaded).mono hst
    | traffic op =>
      cases op with
      -- a request's own check brings the two breakers together again
      | isOpen => exact Or.inl (congrArg Prod.snd (ih hseen).isOpen)
      | recordFailure => exact (ih hseen).recordFailure.mono hst
      | recordSuccess => exact Or.inl ((ih hseen.2).recordSuccess hseen.1)

/-- **When requests do not notice health checks.** As long as no success comes to a circuit
that only health checks have half-opened, every request is answered as without them. -/
theorem decisions_eq (c : Config) (visits : List Visit) (hv : NewestFirst Visit.time visits)
    (hseen : SuccessesSeen c visits) :
    decisions c visits = decisions c (withoutHealth visits) := by
  induction visits with
  | nil => rfl
  | cons visit visits ih =>
    obtain ⟨visitor, s⟩ := visit
    have ih := ih hv.tail
    cases visitor with
    | health => exact ih hseen
    | traffic op =>
      cases op with
      | isOpen =>
        have hanswer := congrArg Prod.fst (refreshed_serve hv.tail hv.before_head hseen).isOpen
        rw [decisions, withoutHealth, decisions, hanswer, ih hseen]
      | recordFailure => exact ih hseen
      | recordSuccess => exact ih hseen.2

/-- The five failures of a trip, four late failures, a health check a minute after the trip,
a late success, and a new request that fails and one more that asks. -/
def lateSuccess : List Visit :=
  [⟨.traffic .isOpen, 62⟩, ⟨.traffic .recordFailure, 61⟩, ⟨.traffic .isOpen, 61⟩,
    ⟨.traffic .recordSuccess, 60⟩, ⟨.health (.ok ()) ["v1", "v2"], 60⟩]
  ++ List.replicate 4 ⟨.traffic .recordFailure, 59⟩
  ++ List.replicate 5 ⟨.traffic .recordFailure, 0⟩
  ++ List.replicate 10 ⟨.traffic .isOpen, 0⟩

/-- The last request is let through after the health check, and rejected without it. -/
theorem health_check_changes_decision :
    ¬ ∀ (c : Config) (visits : List Visit), NewestFirst Visit.time visits →
      decisions c visits = decisions c (withoutHealth visits) := by
  intro hall
  have hordered : NewestFirst Visit.time lateSuccess := by
    norm_num [NewestFirst, lateSuccess, List.replicate]
  exact absurd (hall {} lateSuccess hordered) (by decide +kernel)

/-- A trip, a request that asks when the timeout is over, a health check after it, and the
late success of a call from before the trip. -/
def earlyRequest : List Visit :=
  [⟨.traffic .isOpen, 62⟩, ⟨.traffic .recordSuccess, 61⟩, ⟨.health (.ok ()) ["v1", "v2"], 61⟩,
    ⟨.traffic .isOpen, 60⟩]
  ++ List.replicate 5 ⟨.traffic .recordFailure, 0⟩
  ++ List.replicate 6 ⟨.traffic .isOpen, 0⟩

theorem decisions_eq_earlyRequest :
    decisions {} earlyRequest = decisions {} (withoutHealth earlyRequest) :=
  decisions_eq {} earlyRequest (by norm_num [NewestFirst, earlyRequest, List.replicate])
    ⟨by decide +kernel, trivial⟩

end InferenceApi
