import InferenceApi.Lib.Simulation
import InferenceApi.RateLimiter.Theorems
import InferenceApi.Services.InferenceService

/-!
# Many workers, each with its own clock

`check` reads the clock of its worker before it sends its pipeline, and Redis lets keys expire by
its own clock. So pipelines need not be executed in the order of their timestamps; and a pipeline
or a `ZREM` may fail, or be executed and its answer lost. A clock that is ahead and a pipeline that
is late both take away from the minute in which the limit is kept.
-/

namespace InferenceApi
namespace RateLimiter

open TtlStore Transition

/-! ## The system -/

/-- The set the pipeline of `check` leaves, by the time of Redis. -/
def keptAt (redis : Redis) (time : ℚ) (clientId : String) (member : Member) :
    SortedSet Member ℚ :=
  let added := ((get redis time (rlKey clientId)).getD .empty).zadd member member.now
  added.zremrangebyscore 0 (member.now - windowS)

/-- The pipeline of `check`, executed when it is `time` at Redis. -/
def pipelineAt (redis : Redis) (time : ℚ) (clientId : String) (member : Member) :
    PipelineResult × Redis :=
  let kept := keptAt redis time clientId member
  (⟨kept.zcard, kept.zrangeFirst⟩, setEx redis (rlKey clientId) kept (time + windowS))

/-- A check that has its result, the `ZREM` of a declined one apart. -/
structure Attempt where
  client : String
  member : Member
  /-- The pipeline was executed, whether or not it was answered. -/
  executed : Bool
  result : Except RedisError Reply

/-- What it is known by. -/
def Attempt.key (a : Attempt) : String × Member := (a.client, a.member)

/-- The request goes on. -/
def Attempt.passed (a : Attempt) : Bool :=
  match a.result with
  | .ok reply => reply.allowed
  | .error _ => false

/-- The member is to be removed. -/
def Attempt.declined (a : Attempt) : Bool :=
  match a.result with
  | .ok reply => !reply.allowed
  | .error _ => false

/-- Redis with its clock, the members whose `ZREM` is outstanding and those removed, and the
checks so far, newest first. -/
structure Workers where
  redis : Redis
  time : ℚ
  pending : List (String × Member)
  removed : List (String × Member)
  log : List Attempt

namespace Workers

/-- An empty Redis. -/
def init : Workers := ⟨fun _ => none, 0, [], [], []⟩

/-- What may happen next. -/
inductive Action
  | tick (d : ℚ)
  /-- The pipeline of a check, with the timestamp of its worker, is executed or fails. -/
  | check (client : String) (member : Member) (fate : Fate)
  /-- So is the `ZREM` of a declined check. -/
  | zrem (client : String) (member : Member) (fate : Fate)

/-- No check of the client has used this member. -/
def Unused (s : Workers) (client : String) (member : Member) : Prop :=
  (client, member) ∉ s.log.map Attempt.key

instance (s : Workers) (client : String) (member : Member) : Decidable (Unused s client member) :=
  inferInstanceAs (Decidable ((client, member) ∉ s.log.map Attempt.key))

/-- The check of a worker, as it is logged. -/
def attempt (rl : SlidingWindowRateLimiter) (s : Workers) (client : String) (member : Member)
    (fate : Fate) : Attempt where
  client
  member
  executed := fate.effect false true
  result := fate.reply (verdict rl member.now (pipelineAt s.redis s.time client member).1)

/-- One atomic step. Timestamps are after the epoch and members are unique. -/
def step (rl : SlidingWindowRateLimiter) (s : Workers) : Action → Option Workers
  | .tick d => if 0 ≤ d then some { s with time := s.time + d } else none
  | .check client member fate =>
    if 0 ≤ member.now ∧ Unused s client member then
      let a := attempt rl s client member fate
      some { s with
        redis := fate.effect s.redis (pipelineAt s.redis s.time client member).2
        pending := if a.declined then (client, member) :: s.pending else s.pending
        log := a :: s.log }
    else none
  | .zrem client member fate =>
    if s.pending.any (· = (client, member)) then
      some { s with
        redis := fate.effect s.redis (RateLimiter.zrem s.redis client member)
        pending := s.pending.filter fun x => x ≠ (client, member)
        removed := fate.effect s.removed ((client, member) :: s.removed) }
    else none

/-- When a pipeline is executed its timestamp is at most `ahead` ahead of Redis's clock, and at
most `behind` behind it. -/
def Timely (ahead behind : ℚ) (s : Workers) : Action → Prop
  | .check _ member _ => member.now ≤ s.time + ahead ∧ s.time ≤ member.now + behind
  | _ => True

/-- The checks of `client` that passed, with a timestamp in `(since, t]`. -/
def passedIn (s : Workers) (client : String) (since t : ℚ) : List Attempt :=
  s.log.filter fun a => a.client = client ∧ a.passed ∧ since < a.member.now ∧ a.member.now ≤ t

/-- The checks of `client` later than `since` that were executed and whose member has not been
removed. -/
def occupying (s : Workers) (client : String) (since : ℚ) : List Attempt :=
  s.log.filter fun a =>
    a.client = client ∧ a.executed ∧ since < a.member.now ∧
      s.removed.all (· ≠ (client, a.member))

variable {rl : SlidingWindowRateLimiter} {s s' : Workers} {a : Action} {client : String}
  {m : Member} {fate : Fate} {ahead behind time : ℚ} {redis : Redis} {e : Member × ℚ}

/-- The steps, one by one. -/
inductive Move (rl : SlidingWindowRateLimiter) (s : Workers) : Action → Workers → Prop
  | tick {d : ℚ} : 0 ≤ d → Move rl s (.tick d) { s with time := s.time + d }
  | executed {client : String} {member : Member} {fate : Fate} : fate.Executed →
      0 ≤ member.now → Unused s client member →
      Move rl s (.check client member fate)
        { s with
          redis := (pipelineAt s.redis s.time client member).2
          pending := if (attempt rl s client member fate).declined then
            (client, member) :: s.pending else s.pending
          log := attempt rl s client member fate :: s.log }
  | failed {client : String} {member : Member} {err : RedisError} :
      Unused s client member →
      Move rl s (.check client member (.failed err))
        { s with log := ⟨client, member, false, .error err⟩ :: s.log }
  | removed {client : String} {member : Member} {fate : Fate} : (client, member) ∈ s.pending →
      Move rl s (.zrem client member fate)
        { s with
          redis := RateLimiter.zrem s.redis client member
          pending := s.pending.filter fun x => x ≠ (client, member)
          removed := (client, member) :: s.removed }
  | kept {client : String} {member : Member} {err : RedisError} : (client, member) ∈ s.pending →
      Move rl s (.zrem client member (.failed err))
        { s with pending := s.pending.filter fun x => x ≠ (client, member) }

theorem step_move (h : step rl s a = some s') : Move rl s a s' := by
  cases a with
  | tick d =>
    rw [step] at h
    split at h
    · next hd =>
      cases h
      exact .tick hd
    · cases h
  | check client member fate =>
    rw [step] at h
    split at h
    · next henabled =>
      cases h
      cases fate with
      | ok => exact .executed trivial henabled.1 henabled.2
      | lost err => exact .executed trivial henabled.1 henabled.2
      | failed err => exact .failed henabled.2
    · cases h
  | zrem client member fate =>
    rw [step] at h
    split at h
    · next hany =>
      cases h
      have hpending : (client, member) ∈ s.pending := by simpa using hany
      cases fate with
      | ok => exact .removed hpending
      | lost err => exact .removed hpending
      | failed err => exact .kept hpending
    · cases h

/-! ## What Redis holds -/

lemma pipelineAt_self : (pipelineAt redis time client m).2 (rlKey client) =
    some ⟨keptAt redis time client m, time + windowS⟩ := setEx_self

lemma pipelineAt_of_ne {client' : String} (h : client' ≠ client) :
    (pipelineAt redis time client m).2 (rlKey client') = redis (rlKey client') :=
  setEx_of_ne fun heq => h (rlKey_injective heq)

/-- What a pipeline leaves: its own member, and what Redis still showed, but for what is a minute
older than the timestamp. -/
lemma mem_keptAt : e ∈ (keptAt redis time client m).entries ↔
    (e = (m, m.now) ∨ e.1 ≠ m ∧ ∃ cell, redis (rlKey client) = some cell ∧
      time < cell.expireAt ∧ e ∈ cell.value.entries) ∧ ¬ (0 ≤ e.2 ∧ e.2 ≤ m.now - windowS) := by
  have hfound : e ∈ ((get redis time (rlKey client)).getD .empty).entries ↔
      ∃ cell, redis (rlKey client) = some cell ∧ time < cell.expireAt ∧
        e ∈ cell.value.entries := by
    cases hget : get redis time (rlKey client) with
    | none =>
      refine iff_of_false (fun he => nomatch he) ?_
      rintro ⟨cell, hcell, hlive, -⟩
      rw [get_of_cell hcell hlive] at hget
      cases hget
    | some set =>
      obtain ⟨cell, hcell, hlive, rfl⟩ := get_eq_some_iff.mp hget
      constructor
      · intro he
        exact ⟨cell, hcell, hlive, he⟩
      · rintro ⟨cell', hcell', -, he⟩
        cases hcell.symm.trans hcell'
        exact he
  rw [← hfound, keptAt, SortedSet.zremrangebyscore, SortedSet.keep, List.mem_filter]
  refine and_congr ?_ ?_
  · simp [SortedSet.zadd, SortedSet.zrem, SortedSet.keep, and_comm]
  · rw [Bool.not_eq_true', ← Bool.not_eq_true, Bool.and_eq_true, decide_eq_true_eq,
      decide_eq_true_eq]

lemma declined_eq_true {x : Attempt} (h : x.declined = true) : x.passed = false := by
  unfold Attempt.declined at h
  unfold Attempt.passed
  split at h
  · simpa using h
  · rfl

/-- Redis holds members of checks that were executed, with their timestamps, and none that was
removed. -/
structure Inv (s : Workers) : Prop where
  nodup : (s.log.map Attempt.key).Nodup
  entries : ∀ client cell, s.redis (rlKey client) = some cell → ∀ e ∈ cell.value.entries,
    (e.2 = e.1.now ∧ 0 ≤ e.1.now) ∧ (client, e.1) ∉ s.removed ∧
      ∃ x ∈ s.log, x.key = (client, e.1) ∧ x.executed = true
  declined : ∀ y, y ∈ s.pending ∨ y ∈ s.removed → ∃ x ∈ s.log, x.key = y ∧ x.passed = false

theorem inv_init : Inv init where
  nodup := List.nodup_nil
  entries := by
    intro client cell h
    cases h
  declined := by simp [init]

/-- A check that was logged first. -/
lemma Inv.cons (hs : Inv s) {x : Attempt} (hx : x.key ∉ s.log.map Attempt.key) {redis : Redis}
    {pending : List (String × Member)}
    (hentries : ∀ client cell, redis (rlKey client) = some cell → ∀ e ∈ cell.value.entries,
      (e.2 = e.1.now ∧ 0 ≤ e.1.now) ∧ (client, e.1) ∉ s.removed ∧
        ∃ x' ∈ x :: s.log, x'.key = (client, e.1) ∧ x'.executed = true)
    (hpending : ∀ y ∈ pending, y ∈ s.pending ∨ y = x.key ∧ x.passed = false) :
    Inv { s with redis, pending, log := x :: s.log } where
  nodup := List.nodup_cons.mpr ⟨hx, hs.nodup⟩
  entries := hentries
  declined := by
    have hold : ∀ y, y ∈ s.pending ∨ y ∈ s.removed →
        ∃ x' ∈ x :: s.log, x'.key = y ∧ x'.passed = false := by
      intro y hy
      obtain ⟨x', hx', hkey⟩ := hs.declined y hy
      exact ⟨x', List.mem_cons_of_mem _ hx', hkey⟩
    rintro y (hy | hy)
    · rcases hpending y hy with hy | ⟨rfl, hpassed⟩
      · exact hold y (Or.inl hy)
      · exact ⟨x, List.mem_cons_self, rfl, hpassed⟩
    · exact hold y (Or.inr hy)

lemma Inv.unremoved (hs : Inv s) (h : Unused s client m) : (client, m) ∉ s.removed := by
  intro hmem
  obtain ⟨x, hx, hkey, -⟩ := hs.declined _ (Or.inr hmem)
  exact h (List.mem_map.mpr ⟨x, hx, hkey⟩)

theorem inv_step (hs : Inv s) (h : step rl s a = some s') : Inv s' := by
  cases step_move h with
  | tick => exact ⟨hs.nodup, hs.entries, hs.declined⟩
  | @executed client m fate hfate hnonneg hunused =>
    refine hs.cons (x := attempt rl s client m fate) hunused ?_ fun y hy => ?_
    · intro client' cell hcell e he
      by_cases hclient : client' = client
      · subst hclient
        rw [pipelineAt_self] at hcell
        cases hcell
        obtain ⟨rfl | ⟨hne, cell, hold, -, he⟩, -⟩ := mem_keptAt.mp he
        -- the member of the check itself
        · refine ⟨⟨rfl, hnonneg⟩, hs.unremoved hunused, _, List.mem_cons_self, rfl, ?_⟩
          cases fate with
          | failed err => exact hfate.elim
          | _ => rfl
        · obtain ⟨hscore, hremoved, x, hx, hkey⟩ := hs.entries _ cell hold e he
          exact ⟨hscore, hremoved, x, List.mem_cons_of_mem _ hx, hkey⟩
      · rw [pipelineAt_of_ne hclient] at hcell
        obtain ⟨hscore, hremoved, x, hx, hkey⟩ := hs.entries _ cell hcell e he
        exact ⟨hscore, hremoved, x, List.mem_cons_of_mem _ hx, hkey⟩
    · split at hy
      · next hdeclined =>
        rcases List.mem_cons.mp hy with rfl | hy
        · exact Or.inr ⟨rfl, declined_eq_true hdeclined⟩
        · exact Or.inl hy
      · exact Or.inl hy
  | @failed client m err hunused =>
    refine hs.cons (x := ⟨client, m, false, .error err⟩) hunused
      (fun client' cell hcell e he => ?_) fun y hy => Or.inl hy
    obtain ⟨hscore, hremoved, x, hx, hkey⟩ := hs.entries _ cell hcell e he
    exact ⟨hscore, hremoved, x, List.mem_cons_of_mem _ hx, hkey⟩
  | @removed client m fate hpending =>
    refine ⟨hs.nodup, fun client' cell hcell e he => ?_, ?_⟩
    · by_cases hclient : client' = client
      · subst hclient
        dsimp only at hcell
        rw [zrem_self, Option.map_eq_some_iff] at hcell
        obtain ⟨old, hold, rfl⟩ := hcell
        obtain ⟨he, hne⟩ := List.mem_filter.mp he
        obtain ⟨hscore, hremoved, hx⟩ := hs.entries _ old hold e he
        refine ⟨hscore, fun hmem => ?_, hx⟩
        rcases List.mem_cons.mp hmem with heq | hmem
        · exact of_decide_eq_true hne (congrArg Prod.snd heq)
        · exact hremoved hmem
      · dsimp only at hcell
        rw [zrem_of_ne hclient] at hcell
        obtain ⟨hscore, hremoved, hx⟩ := hs.entries _ cell hcell e he
        refine ⟨hscore, fun hmem => ?_, hx⟩
        rcases List.mem_cons.mp hmem with heq | hmem
        · exact hclient (congrArg Prod.fst heq)
        · exact hremoved hmem
    · rintro y (hy | hy)
      · exact hs.declined y (Or.inl (List.mem_filter.mp hy).1)
      · rcases List.mem_cons.mp hy with rfl | hy
        · exact hs.declined _ (Or.inl hpending)
        · exact hs.declined y (Or.inr hy)
  | kept =>
    refine ⟨hs.nodup, hs.entries, ?_⟩
    rintro y (hy | hy)
    · exact hs.declined y (Or.inl (List.mem_filter.mp hy).1)
    · exact hs.declined y (Or.inr hy)

/-! ## Who passes -/

/-- **Only the client's own recent checks count against it.** -/
lemma Inv.allowed_of_occupying (rl : SlidingWindowRateLimiter) (hs : Inv s)
    (hunused : Unused s client m)
    (hlt : (occupying s client (m.now - windowS)).length < rl.limit) :
    (verdict rl m.now (pipelineAt s.redis s.time client m).1).allowed = true := by
  rw [verdict_allowed_iff]
  show (keptAt s.redis s.time client m).entries.length ≤ rl.limit
  -- every other member that is kept occupies a place
  have hsubset : (keptAt s.redis s.time client m).members ⊆
      m :: (occupying s client (m.now - windowS)).map Attempt.member := by
    intro x hx
    obtain ⟨score, he⟩ := SortedSet.mem_members.mp hx
    obtain ⟨hmem, hyoung⟩ := mem_keptAt.mp he
    rcases hmem with heq | ⟨-, cell, hcell, -, he⟩
    · cases heq
      exact List.mem_cons_self
    · obtain ⟨⟨hscore, hnonneg⟩, hremoved, a, ha, hkey, hexecuted⟩ := hs.entries _ cell hcell _ he
      cases hkey
      refine List.mem_cons_of_mem _ (List.mem_map.mpr ⟨a, List.mem_filter.mpr ⟨ha, ?_⟩, rfl⟩)
      have hlater : m.now - windowS < a.member.now := by
        by_contra hold
        exact hyoung ⟨hscore ▸ hnonneg, hscore ▸ not_lt.mp hold⟩
      refine decide_eq_true ⟨rfl, hexecuted, hlater, List.all_eq_true.mpr fun y hy => ?_⟩
      exact decide_eq_true fun heq => hremoved (heq ▸ hy)
  have hle := (List.subperm_of_subset (keptAt s.redis s.time client m).nodup hsubset).length_le
  rw [List.length_cons, List.length_map, List.length_map] at hle
  omega

/-- A check that passed stays in Redis until it is a minute old for the clock that is furthest
ahead. -/
structure Kept (ahead : ℚ) (s : Workers) : Prop where
  past : ∀ x ∈ s.log, x.member.now ≤ s.time + ahead
  kept : ∀ x ∈ s.log, x.passed = true → s.time < x.member.now + windowS - ahead →
    ∃ cell, s.redis (rlKey x.client) = some cell ∧
      (x.member, x.member.now) ∈ cell.value.entries ∧
      x.member.now + windowS - ahead ≤ cell.expireAt

theorem kept_init : Kept ahead init where
  past _ h := nomatch h
  kept _ h := nomatch h

/-- A pipeline does not throw away what may still count for another clock. -/
lemma Kept.pipeline (hs : Kept ahead s) (hahead : m.now ≤ s.time + ahead)
    (hunused : Unused s client m) {x : Attempt} (hx : x ∈ s.log) (hpassed : x.passed = true)
    (hyoung : s.time < x.member.now + windowS - ahead) :
    ∃ cell, (pipelineAt s.redis s.time client m).2 (rlKey x.client) = some cell ∧
      (x.member, x.member.now) ∈ cell.value.entries ∧
      x.member.now + windowS - ahead ≤ cell.expireAt := by
  obtain ⟨cell, hcell, he, hexpire⟩ := hs.kept x hx hpassed hyoung
  by_cases hclient : x.client = client
  · subst hclient
    refine ⟨_, pipelineAt_self, mem_keptAt.mpr ⟨Or.inr ⟨?_, cell, hcell, ?_, he⟩, ?_⟩, ?_⟩
    · rintro rfl
      exact hunused (List.mem_map.mpr ⟨x, hx, rfl⟩)
    · linarith
    · rintro ⟨-, hold⟩
      dsimp only at hold
      linarith
    · have hpast := hs.past x hx
      dsimp only
      linarith
  · exact ⟨cell, (pipelineAt_of_ne hclient).trans hcell, he, hexpire⟩

theorem kept_step (hinv : Inv s) (hs : Kept ahead s) (hok : Timely ahead behind s a)
    (h : step rl s a = some s') : Kept ahead s' := by
  cases step_move h with
  | @tick d hd =>
    refine ⟨fun x hx => ?_, fun x hx hpassed hyoung => ?_⟩
    · have hpast := hs.past x hx
      dsimp only
      linarith
    · refine hs.kept x hx hpassed ?_
      dsimp only at hyoung
      linarith
  | @executed client m fate _ _ hunused =>
    refine ⟨fun x hx => ?_, fun x hx hpassed hyoung => ?_⟩
    · rcases List.mem_cons.mp hx with rfl | hx
      · exact hok.1
      · exact hs.past x hx
    · rcases List.mem_cons.mp hx with rfl | hx
      · refine ⟨_, pipelineAt_self, mem_keptAt.mpr ⟨Or.inl rfl, ?_⟩, ?_⟩
        · rintro ⟨-, hold⟩
          have hle : m.now ≤ m.now - windowS := hold
          norm_num [windowS] at hle
        · have hpast : m.now ≤ s.time + ahead := hok.1
          show m.now + windowS - ahead ≤ s.time + windowS
          linarith
      · exact hs.pipeline hok.1 hunused hx hpassed hyoung
  | failed =>
    refine ⟨fun x hx => ?_, fun x hx hpassed hyoung => ?_⟩
    · rcases List.mem_cons.mp hx with rfl | hx
      · exact hok.1
      · exact hs.past x hx
    · rcases List.mem_cons.mp hx with rfl | hx
      · cases hpassed
      · exact hs.kept x hx hpassed hyoung
  | @removed client m fate hpending =>
    refine ⟨hs.past, fun x hx hpassed hyoung => ?_⟩
    obtain ⟨cell, hcell, he, hexpire⟩ := hs.kept x hx hpassed hyoung
    by_cases hclient : x.client = client
    · subst hclient
      refine ⟨⟨cell.value.zrem m, cell.expireAt⟩, ?_, List.mem_filter.mpr ⟨he, ?_⟩, hexpire⟩
      · dsimp only
        rw [zrem_self, hcell]
        rfl
      -- what is removed is the member of a check that did not pass
      refine decide_eq_true fun heq => ?_
      obtain ⟨y, hy, hkey, hfailed⟩ := hinv.declined _ (Or.inl hpending)
      have hsame : y = x := by
        refine List.inj_on_of_nodup_map hinv.nodup hy hx (hkey.trans ?_)
        rw [← heq]
        rfl
      rw [hsame, hpassed] at hfailed
      cases hfailed
    · exact ⟨cell, (zrem_of_ne hclient).trans hcell, he, hexpire⟩
  | kept => exact ⟨hs.past, hs.kept⟩

/-- The windows hold at most the limit. -/
def Limited (limit : ℕ) (length : ℚ) (s : Workers) : Prop :=
  ∀ client t, (passedIn s client (t - length) t).length ≤ limit

/-- What the last pipeline has counted holds the checks of its window that passed. -/
lemma passedIn_le_of_keptAt (hinv : Inv s') (hkept : Kept ahead s') {x : Attempt} {t : ℚ}
    (hcell : s'.redis (rlKey x.client) =
      some ⟨keptAt s.redis s.time x.client x.member, s.time + windowS⟩)
    (htime : s'.time ≤ t + behind)
    (hcount : (keptAt s.redis s.time x.client x.member).entries.length ≤ rl.limit) :
    (passedIn s' x.client (t - (windowS - (ahead + behind))) t).length ≤ rl.limit := by
  have hsubset : (passedIn s' x.client (t - (windowS - (ahead + behind))) t).map Attempt.member ⊆
      (keptAt s.redis s.time x.client x.member).entries.map Prod.fst := by
    intro y hy
    obtain ⟨z, hz, rfl⟩ := List.mem_map.mp hy
    obtain ⟨hz, hwindow⟩ := List.mem_filter.mp hz
    obtain ⟨hclient, hpassed, hsince, -⟩ := of_decide_eq_true hwindow
    obtain ⟨cell, hcell', he, -⟩ := hkept.kept z hz hpassed (by linarith)
    rw [hclient, hcell] at hcell'
    cases hcell'
    exact List.mem_map_of_mem he
  have hnodup : ((passedIn s' x.client (t - (windowS - (ahead + behind))) t).map
      Attempt.member).Nodup := by
    refine List.Nodup.map_on ?_ (hinv.nodup.of_map.filter _)
    intro y hy z hz heq
    obtain ⟨hy, hywindow⟩ := List.mem_filter.mp hy
    obtain ⟨hz, hzwindow⟩ := List.mem_filter.mp hz
    have hclient := (of_decide_eq_true hywindow).1.trans (of_decide_eq_true hzwindow).1.symm
    exact List.inj_on_of_nodup_map hinv.nodup hy hz (Prod.ext hclient heq)
  have hle := (List.subperm_of_subset hnodup hsubset).length_le
  rw [List.length_map, List.length_map] at hle
  exact hle.trans hcount

lemma count_le_of_passed (h : (attempt rl s client m fate).passed = true) :
    (keptAt s.redis s.time client m).entries.length ≤ rl.limit := by
  cases fate with
  | ok =>
    rw [Attempt.passed, attempt] at h
    exact (verdict_allowed_iff m.now).mp h
  | lost err => cases h
  | failed err => cases h

/-- A check that does not pass leaves the windows as they were. -/
lemma passedIn_cons_of_not {x : Attempt} {client' : String} {since t : ℚ}
    (hlog : s'.log = x :: s.log)
    (h : ¬ (x.client = client' ∧ x.passed = true ∧ since < x.member.now ∧ x.member.now ≤ t)) :
    passedIn s' client' since t = passedIn s client' since t := by
  rw [passedIn, hlog]
  exact List.filter_cons_of_neg fun hx => h (of_decide_eq_true hx)

theorem limited_step (hinv : Inv s') (hkept : Kept ahead s')
    (hs : Limited rl.limit (windowS - (ahead + behind)) s) (hok : Timely ahead behind s a)
    (h : step rl s a = some s') : Limited rl.limit (windowS - (ahead + behind)) s' := by
  intro client' t
  cases step_move h with
  | tick => exact hs client' t
  | @executed client m fate _ _ _ =>
    by_cases hcounts : client = client' ∧ (attempt rl s client m fate).passed = true ∧
        t - (windowS - (ahead + behind)) < m.now ∧ m.now ≤ t
    · obtain ⟨rfl, hpassed, -, hle⟩ := hcounts
      have htime : s.time ≤ m.now + behind := hok.2
      exact passedIn_le_of_keptAt (x := attempt rl s client m fate) hinv hkept pipelineAt_self
        (by dsimp only; linarith) (count_le_of_passed hpassed)
    · rw [passedIn_cons_of_not rfl hcounts]
      exact hs client' t
  | @failed client m err =>
    rw [passedIn_cons_of_not (x := ⟨client, m, false, .error err⟩) rfl
      fun hx => Bool.false_ne_true hx.2.1]
    exact hs client' t
  | removed => exact hs client' t
  | kept => exact hs client' t

section Runs

variable (hs : Run (step rl) (Timely ahead behind) init s)

include hs

theorem inv_of_run : Inv s := hs.invariant inv_init fun _ _ _ hinv _ h => inv_step hinv h

theorem kept_of_run : Kept ahead s :=
  hs.invariant_of_run kept_init fun _ _ _ hrun hkept hok h =>
    kept_step (inv_of_run hrun) hkept hok h

theorem limited_of_run : Limited rl.limit (windowS - (ahead + behind)) s := by
  refine hs.invariant_of_run (fun _ _ => Nat.zero_le _) fun s a s' hrun hlimited hok h => ?_
  have hrun' := hrun.tail hok h
  exact limited_step (inv_of_run hrun') (kept_of_run hrun') hlimited hok h

end Runs

/-! ## One clock -/

/-- The same Redis, and the same decisions. -/
structure OneClock (s : System) (w : Workers) : Prop where
  redis : w.redis = s.redis
  time : w.time = s.now
  nonneg : 0 ≤ w.time
  pending : w.pending = s.unremoved
  log : s.log = w.log.map fun x => ⟨x.client, x.member, x.passed⟩

lemma OneClock.unused {s : System} {w : Workers} (h : OneClock s w) (hfresh : Fresh s client m) :
    Unused w client m := by
  intro hmem
  obtain ⟨x, hx, hkey⟩ := List.mem_map.mp hmem
  cases hkey
  refine hfresh ⟨x.client, x.member, x.passed⟩ ?_ rfl rfl
  rw [h.log]
  exact List.mem_map.mpr ⟨x, hx, rfl⟩

/-- **The limiter's system has one clock.** Its runs are runs of workers without skew in which
nothing fails. -/
theorem exists_oneClock {s : System} (hs : Reachable rl s) :
    ∃ w, Run (step rl) (Timely 0 0) init w ∧ OneClock s w := by
  refine Run.simulate hs (fun s w a s' hrel _ h => ?_) ⟨rfl, rfl, le_rfl, rfl, rfl⟩
  cases a with
  | check client m =>
    rw [RateLimiter.step] at h
    split at h
    · next henabled =>
      cases h
      obtain ⟨hnow, hfresh⟩ := henabled
      rw [← hrel.time] at hnow
      -- time passes up to the timestamp, and the pipeline is executed
      have htick : step rl w (.tick (m.now - w.time)) = some { w with time := m.now } := by
        rw [step, if_pos (sub_nonneg.mpr hnow), add_sub_cancel]
      have hidle : Timely 0 0 w (.tick (m.now - w.time)) := trivial
      have hnonneg : 0 ≤ m.now := hrel.nonneg.trans hnow
      have hok : Timely 0 0 { w with time := m.now } (.check client m .ok) :=
        ⟨(add_zero m.now).ge, (add_zero m.now).ge⟩
      have hcheck : step rl { w with time := m.now } (.check client m .ok) = _ :=
        if_pos ⟨hnonneg, hrel.unused hfresh⟩
      have hpassed : (attempt rl { w with time := m.now } client m .ok).passed =
          (check rl s.redis client m).1.allowed := by
        rw [← hrel.redis]
        rfl
      have hdeclined : (attempt rl { w with time := m.now } client m .ok).declined =
          !(check rl s.redis client m).1.allowed := by
        rw [← hrel.redis]
        rfl
      refine ⟨_, (Run.refl.tail hidle htick).tail hok hcheck, ?_, rfl, hnonneg, ?_, ?_⟩
      · show (pipelineAt w.redis m.now client m).2 = (check rl s.redis client m).2
        rw [hrel.redis]
        rfl
      · show (if (attempt rl { w with time := m.now } client m .ok).declined then
            (client, m) :: w.pending else w.pending) =
          if (check rl s.redis client m).1.allowed then s.unremoved
            else (client, m) :: s.unremoved
        rw [hdeclined, hrel.pending]
        cases (check rl s.redis client m).1.allowed <;> rfl
      · rw [List.map_cons, hpassed, ← hrel.log]
        rfl
    · cases h
  | zrem client m =>
    rw [RateLimiter.step] at h
    split at h
    · next hmem =>
      cases h
      have hok : Timely 0 0 w (.zrem client m .ok) := trivial
      have hzrem : step rl w (.zrem client m .ok) = _ :=
        if_pos (by simpa [hrel.pending] using hmem)
      refine ⟨_, Run.refl.tail hok hzrem, ?_, hrel.time, hrel.nonneg, ?_, hrel.log⟩
      · show RateLimiter.zrem w.redis client m = RateLimiter.zrem s.redis client m
        rw [hrel.redis]
      · dsimp only
        rw [hrel.pending]
    · cases h

/-! ## No longer window will do -/

lemma occupying_le (s : Workers) (client : String) (since : ℚ) :
    (occupying s client since).length ≤ s.log.length := List.length_filter_le ..

/-- A check that is executed and allowed passes. -/
lemma passed_of_allowed
    (h : (verdict rl m.now (pipelineAt s.redis s.time client m).1).allowed = true) :
    (attempt rl s client m .ok).passed = true := h

lemma step_check_ok (hnonneg : 0 ≤ m.now) (hunused : Unused s client m)
    (h : (attempt rl s client m .ok).passed = true) :
    step rl s (.check client m .ok) = some { s with
      redis := (pipelineAt s.redis s.time client m).2
      log := attempt rl s client m .ok :: s.log } := by
  have hdeclined : (attempt rl s client m .ok).declined = false := by
    rw [Attempt.passed, attempt] at h
    rw [Attempt.declined, attempt]
    exact congrArg Bool.not h
  rw [step, if_pos ⟨hnonneg, hunused⟩]
  dsimp only
  rw [hdeclined]
  rfl

/-- `k` checks that pass at once, by the clock that is ahead. -/
lemma exists_burst (rl : SlidingWindowRateLimiter) (client : String) (hahead : 0 ≤ ahead)
    (hbehind : 0 ≤ behind) {k : ℕ} (hk : k ≤ rl.limit) :
    ∃ s, Run (step rl) (Timely ahead behind) init s ∧ s.time = 0 ∧ s.log.length = k ∧
      (∀ x ∈ s.log, x.client = client ∧ x.passed = true ∧ x.member.now = ahead ∧
        x.member.uuid < k) ∧
      ∀ cell, s.redis (rlKey client) = some cell → cell.expireAt ≤ windowS := by
  induction k with
  | zero => exact ⟨init, .refl, rfl, rfl, fun x hx => (nomatch hx), fun cell h => (nomatch h)⟩
  | succ k ih =>
    obtain ⟨s, hrun, htime, hlength, hlog, -⟩ := ih (Nat.le_of_succ_le hk)
    have hunused : Unused s client ⟨ahead, k⟩ := by
      intro hmem
      obtain ⟨x, hx, hkey⟩ := List.mem_map.mp hmem
      obtain ⟨-, -, -, huuid⟩ := hlog x hx
      have heq : x.member = ⟨ahead, k⟩ := congrArg Prod.snd hkey
      rw [heq] at huuid
      exact lt_irrefl k huuid
    have hallowed := (inv_of_run hrun).allowed_of_occupying rl hunused
      ((occupying_le s client _).trans_lt (by omega))
    have hstep := step_check_ok (m := ⟨ahead, k⟩) hahead hunused (passed_of_allowed hallowed)
    have hok : Timely ahead behind s (.check client ⟨ahead, k⟩ .ok) := by
      constructor
      · show ahead ≤ s.time + ahead
        linarith
      · show s.time ≤ ahead + behind
        linarith
    refine ⟨_, hrun.tail hok hstep, htime, congrArg (· + 1) hlength, fun x hx => ?_, ?_⟩
    · rcases List.mem_cons.mp hx with rfl | hx
      · exact ⟨rfl, hallowed, rfl, Nat.lt_succ_self k⟩
      · obtain ⟨hclient, hpassed, hnow, huuid⟩ := hlog x hx
        exact ⟨hclient, hpassed, hnow, Nat.lt_succ_of_lt huuid⟩
    · intro cell hcell
      dsimp only at hcell
      rw [pipelineAt_self] at hcell
      cases hcell
      show s.time + windowS ≤ windowS
      linarith

/-- Where the key has expired, a check is allowed. -/
lemma allowed_of_expired (rl : SlidingWindowRateLimiter) (m : Member)
    (hexpired : ∀ cell, s.redis (rlKey client) = some cell → cell.expireAt ≤ s.time) :
    (verdict rl m.now (pipelineAt s.redis s.time client m).1).allowed = true := by
  rw [verdict_allowed_iff]
  show (keptAt s.redis s.time client m).entries.length ≤ rl.limit
  have hsubset : (keptAt s.redis s.time client m).members ⊆ [m] := by
    intro x hx
    obtain ⟨score, he⟩ := SortedSet.mem_members.mp hx
    rcases (mem_keptAt.mp he).1 with heq | ⟨-, cell, hcell, hlive, -⟩
    · cases heq
      exact List.mem_singleton_self m
    · exact absurd hlive (not_lt.mpr (hexpired cell hcell))
  have hle := (List.subperm_of_subset (keptAt s.redis s.time client m).nodup hsubset).length_le
  rw [List.length_map, List.length_singleton] at hle
  exact hle.trans rl.limit_pos

/-- The key of a burst expires while the burst still counts for a clock that is behind. -/
lemma exists_exceeding (rl : SlidingWindowRateLimiter) (hahead : 0 ≤ ahead) (hbehind : 0 ≤ behind)
    (hle : ahead + behind ≤ windowS) {length : ℚ} (hlength : windowS - (ahead + behind) < length) :
    ∃ s, Run (step rl) (Timely ahead behind) init s ∧ ¬ Limited rl.limit length s := by
  obtain ⟨s, hrun, htime, hcount, hlog, hexpire⟩ :=
    exists_burst rl "a" hahead hbehind le_rfl
  have hwindow : (0 : ℚ) ≤ windowS := by norm_num [windowS]
  have htick : step rl s (.tick windowS) = some { s with time := s.time + windowS } := by
    rw [step, if_pos hwindow]
  have hidle : Timely ahead behind s (.tick windowS) := trivial
  have hunused : Unused { s with time := s.time + windowS } "a" ⟨windowS - behind, rl.limit⟩ := by
    intro hmem
    obtain ⟨x, hx, hkey⟩ := List.mem_map.mp hmem
    obtain ⟨-, -, -, huuid⟩ := hlog x hx
    have heq : x.member = ⟨windowS - behind, rl.limit⟩ := congrArg Prod.snd hkey
    rw [heq] at huuid
    exact lt_irrefl rl.limit huuid
  have hexpired : ∀ cell, s.redis (rlKey "a") = some cell → cell.expireAt ≤ s.time + windowS := by
    intro cell hcell
    have hcell := hexpire cell hcell
    linarith
  have hallowed := allowed_of_expired (s := { s with time := s.time + windowS }) rl
    ⟨windowS - behind, rl.limit⟩ hexpired
  have hnonneg : 0 ≤ windowS - behind := by linarith
  have hcheck := step_check_ok hnonneg hunused (passed_of_allowed hallowed)
  have hok : Timely ahead behind { s with time := s.time + windowS }
      (.check "a" ⟨windowS - behind, rl.limit⟩ .ok) := by
    constructor
    · show windowS - behind ≤ s.time + windowS + ahead
      linarith
    · show s.time + windowS ≤ windowS - behind + behind
      linarith
  refine ⟨_, (hrun.tail hidle htick).tail hok hcheck, fun hlimited => ?_⟩
  have hmany := hlimited "a" (windowS - behind)
  -- the window has the whole log
  have hall : passedIn { s with
      redis := (pipelineAt s.redis (s.time + windowS) "a" ⟨windowS - behind, rl.limit⟩).2
      time := s.time + windowS
      log := attempt rl { s with time := s.time + windowS } "a" ⟨windowS - behind, rl.limit⟩ .ok ::
        s.log } "a" (windowS - behind - length) (windowS - behind) =
      attempt rl { s with time := s.time + windowS } "a" ⟨windowS - behind, rl.limit⟩ .ok ::
        s.log := by
    refine List.filter_eq_self.mpr fun x hx => decide_eq_true ?_
    rcases List.mem_cons.mp hx with rfl | hx
    · refine ⟨rfl, hallowed, ?_, le_rfl⟩
      show windowS - behind - length < windowS - behind
      linarith
    · obtain ⟨hclient, hpassed, hnow, -⟩ := hlog x hx
      refine ⟨hclient, hpassed, ?_, ?_⟩
      · linarith
      · linarith
  rw [hall, List.length_cons, hcount] at hmany
  exact Nat.not_succ_le_self _ hmany

/-- **The limit with many clocks.** In the runs of any number of workers whose clocks are at most
`ahead` ahead of Redis's and whose pipelines are executed with timestamps at most `behind` old, in
any order and whatever fails or is lost: at most `limit` checks of a client pass in any
`60 - (ahead + behind)` seconds. And a check that is executed is allowed unless `limit` others of
the same client, executed, of the last minute and not removed, are there before it. -/
theorem limit_under_skew (rl : SlidingWindowRateLimiter) (ahead behind : ℚ)
    (hahead : 0 ≤ ahead) (hbehind : 0 ≤ behind) (hle : ahead + behind ≤ windowS) :
    (∀ length, (∀ s, Run (step rl) (Timely ahead behind) init s → Limited rl.limit length s) ↔
        length ≤ windowS - (ahead + behind)) ∧
      ∀ s client m, Run (step rl) (Timely ahead behind) init s → Unused s client m →
        (occupying s client (m.now - windowS)).length < rl.limit →
        (verdict rl m.now (pipelineAt s.redis s.time client m).1).allowed = true := by
  refine ⟨fun length => ⟨fun hall => ?_, fun hlength s hs client t => ?_⟩,
    fun s client m hs hunused hlt => (inv_of_run hs).allowed_of_occupying rl hunused hlt⟩
  · by_contra hlong
    obtain ⟨s, hs, hexceeds⟩ := exists_exceeding rl hahead hbehind hle (not_le.mp hlong)
    exact hexceeds (hall s hs)
  · -- a shorter window holds no more
    refine le_trans (List.Sublist.length_le (List.monotone_filter_right _ fun x hx => ?_))
      (limited_of_run hs client t)
    obtain ⟨hclient, hpassed, hsince, ht⟩ := of_decide_eq_true hx
    exact decide_eq_true ⟨hclient, hpassed, by linarith, ht⟩

/-- Clocks that are a second off cost two seconds of the minute. -/
theorem limit_under_skew_second :
    (∀ s, Run (step ⟨1, le_refl 1⟩) (Timely 1 1) init s → Limited 1 58 s) ∧
      ¬ ∀ s, Run (step ⟨1, le_refl 1⟩) (Timely 1 1) init s → Limited 1 windowS s := by
  obtain ⟨hiff, -⟩ := limit_under_skew ⟨1, le_refl 1⟩ 1 1 zero_le_one zero_le_one
    (by norm_num [windowS])
  constructor
  · exact (hiff 58).mpr (by norm_num [windowS])
  · rw [hiff windowS]
    norm_num

end Workers
end RateLimiter
end InferenceApi
