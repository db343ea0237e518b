import InferenceApi.Lib.SlidingWindow
import InferenceApi.Lib.SortedSet
import InferenceApi.Lib.Transition
import InferenceApi.Lib.TtlStore
import InferenceApi.Python

/-!
# The sliding-window rate limiter

`SlidingWindowRateLimiter` of `app/infra/rate_limiter.py`. A `check` talks to Redis
twice: one `MULTI`/`EXEC` pipeline, which is atomic, and for a declined request a
separate `ZREM` that may be executed at any later point, or never when it fails.
The system below interleaves both for any number of clients.
-/

namespace InferenceApi
namespace RateLimiter

open SlidingWindow TtlStore

/-- `SlidingWindowRateLimiter.__init__`; `Settings.rate_limit_rpm` has `gt=0`. -/
structure SlidingWindowRateLimiter where
  limit : ℕ
  limit_pos : 1 ≤ limit := by decide

/-- `self._window`, in seconds. -/
def windowS : ℚ := 60

/-- The member `f"{now}:{uuid.uuid4().hex[:8]}"`. -/
structure Member where
  now : ℚ
  uuid : ℕ
deriving DecidableEq, Repr

/-- The key `f"rl:{client_id}"`. -/
def rlKey (clientId : String) : String := "rl:" ++ clientId

/-- The limiter's part of the Redis keyspace. -/
abbrev Redis := Store String ℚ (SortedSet Member ℚ)

/-- What `check` reads from `results`: the count and the oldest entry. -/
structure PipelineResult where
  count : ℕ
  oldest : Option (Member × ℚ)

/-- The pipeline `ZADD`, `ZREMRANGEBYSCORE`, `ZCARD`, `ZRANGE`, `EXPIRE`. -/
def pipeline (redis : Redis) (clientId : String) (member : Member) : PipelineResult × Redis :=
  let now := member.now
  let added := ((get redis now (rlKey clientId)).getD .empty).zadd member now
  let kept := added.zremrangebyscore 0 (now - windowS)
  (⟨kept.zcard, kept.zrangeFirst⟩, setEx redis (rlKey clientId) kept (now + windowS))

/-- The tuple `check` returns. -/
structure Reply where
  allowed : Bool
  retryAfterS : ℚ
  remaining : ℤ
  resetS : ℤ
deriving DecidableEq, Repr

/-- The reply `check` computes from the pipeline's results. -/
def verdict (rl : SlidingWindowRateLimiter) (now : ℚ) (results : PipelineResult) : Reply :=
  let resetAfter :=
    match results.oldest with
    | none => windowS
    | some (_, oldestScore) => max 0 (oldestScore + windowS - now)
  if results.count ≤ rl.limit then
    ⟨true, 0, max 0 (rl.limit - results.count), pyInt resetAfter⟩
  else ⟨false, resetAfter, 0, pyInt resetAfter⟩

/-- `check` up to its reply. For a declined request the `ZREM` of `member` is still due. -/
def check (rl : SlidingWindowRateLimiter) (redis : Redis) (clientId : String) (member : Member) :
    Reply × Redis :=
  let (results, redis) := pipeline redis clientId member
  (verdict rl member.now results, redis)

/-- The `ZREM` of a declined request. -/
def zrem (redis : Redis) (clientId : String) (member : Member) : Redis :=
  modify redis (rlKey clientId) fun set => set.zrem member

/-! ## Concurrent checks -/

/-- A check as it was decided. -/
structure Check where
  client : String
  member : Member
  allowed : Bool
deriving DecidableEq, Repr

/-- Redis, the shared clock, the declined members whose `ZREM` has not been executed, and
every check decided so far, newest first. -/
structure System where
  redis : Redis
  now : ℚ
  unremoved : List (String × Member)
  log : List Check

/-- An empty Redis at time zero. -/
def System.init : System := ⟨fun _ => none, 0, [], []⟩

/-- What may happen next. -/
inductive Action
  /-- A check's pipeline is executed at the time it read. -/
  | check (client : String) (member : Member)
  /-- The pending `ZREM` of a declined check is executed. -/
  | zrem (client : String) (member : Member)

/-- No check of the client has used this member. -/
def Fresh (s : System) (client : String) (member : Member) : Prop :=
  ∀ c ∈ s.log, c.client = client → c.member ≠ member

instance (s : System) (client : String) (member : Member) : Decidable (Fresh s client member) :=
  inferInstanceAs (Decidable (∀ c ∈ s.log, c.client = client → c.member ≠ member))

/-- One atomic step. Clock readings never go back and members are unique. -/
def step (rl : SlidingWindowRateLimiter) (s : System) : Action → Option System
  | .check client member =>
    if s.now ≤ member.now ∧ Fresh s client member then
      let (reply, redis) := check rl s.redis client member
      some
        { redis
          now := member.now
          unremoved := if reply.allowed then s.unremoved else (client, member) :: s.unremoved
          log := ⟨client, member, reply.allowed⟩ :: s.log }
    else none
  | .zrem client member =>
    if (client, member) ∈ s.unremoved then
      some { s with
        redis := zrem s.redis client member
        unremoved := s.unremoved.filter fun x => x ≠ (client, member) }
    else none

/-- The runs of the limiter, under every schedule. -/
abbrev Reachable (rl : SlidingWindowRateLimiter) (s : System) : Prop :=
  Transition.Run (step rl) Transition.anyAction System.init s

/-- The state after a list of actions, or the initial one if some action is not enabled. -/
def System.after (rl : SlidingWindowRateLimiter) (as : List Action) : System :=
  (Transition.execute (step rl) (fun _ _ => true) System.init as).getD System.init

lemma reachable_after (rl : SlidingWindowRateLimiter) (as : List Action) :
    Reachable rl (System.after rl as) := by
  unfold System.after
  cases h : Transition.execute (step rl) (fun _ _ => true) System.init as with
  | none => exact .refl
  | some s => exact (Transition.run_of_execute .refl (fun _ _ => trivial) h).any

/-- The checks of `client` that were allowed, with a timestamp in `(t - 60, t]`. -/
def allowedIn (s : System) (client : String) (t : ℚ) : List Check :=
  s.log.filter fun c =>
    c.client = client ∧ c.allowed ∧ t - windowS < c.member.now ∧ c.member.now ≤ t

/-- The declined members of `client` with a timestamp in `(t - 60, t]` that are still in
Redis because their `ZREM` has not been executed. -/
def lingeringIn (s : System) (client : String) (t : ℚ) : List (String × Member) :=
  s.unremoved.filter fun x => x.1 = client ∧ t - windowS < x.2.now ∧ x.2.now ≤ t

end RateLimiter
end InferenceApi
