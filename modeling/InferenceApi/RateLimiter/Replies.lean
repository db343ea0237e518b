import InferenceApi.RateLimiter.Theorems

/-!
# What a check answers

Everything in a reply follows from the members that count at the time of the check: how many
there are, and the timestamp of the oldest. `Inv.check_eq` says how.
-/

namespace InferenceApi
namespace RateLimiter

open SlidingWindow TtlStore

variable {rl : SlidingWindowRateLimiter} {s : System} {client : String} {m : Member} {t o : ℚ}

/-- The members of `client` that count at `t`: admitted, or declined and not yet removed. -/
def counting (s : System) (client : String) (t : ℚ) : List Member :=
  recent minute Member.now t (admitted s.log client ++ lingering s.unremoved client)

/-- The timestamps of some members. -/
def timestamps (l : List Member) : Set ℚ := {u | ∃ x ∈ l, x.now = u}

lemma mem_counting {x : Member} :
    x ∈ counting s client t ↔
      x ∈ admitted s.log client ++ lingering s.unremoved client ∧ t - windowS < x.now := by
  rw [counting, recent, List.mem_filter, minute_live_iff, sub_lt_comm]

/-- What counts is in the past. -/
lemma Inv.counting_le (hinv : Inv rl s) {x : Member} (hx : x ∈ counting s client t) :
    x.now ≤ s.now :=
  Inv.past hinv.times hinv.declined client x (mem_counting.mp hx).1

/-- What a pipeline keeps is what counts, and its own member. -/
lemma Inv.kept_perm (hinv : Inv rl s) (hnow : s.now ≤ m.now) (hfresh : Fresh s client m) :
    ((((get s.redis m.now (rlKey client)).getD .empty).zadd m m.now).zremrangebyscore 0
        (m.now - windowS)).members.Perm (m :: counting s client m.now) := by
  rw [hinv.pipeline_members hnow hfresh, recent_cons_live (minute_live_self m)]
  exact (hinv.counted client m.now hnow).cons m

/-- The entry a pipeline returns is one of the oldest that count. -/
lemma Inv.oldest (hinv : Inv rl s) (hnow : s.now ≤ m.now) (hfresh : Fresh s client m) :
    ∃ x o, (pipeline s.redis client m).1.oldest = some (x, o) ∧
      IsLeast (timestamps (m :: counting s client m.now)) o := by
  have hperm := hinv.kept_perm hnow hfresh
  have hscore : ∀ e ∈ ((((get s.redis m.now (rlKey client)).getD .empty).zadd m
      m.now).zremrangebyscore 0 (m.now - windowS)).entries, e.2 = e.1.now := by
    intro e he
    rcases List.mem_cons.mp (List.mem_filter.mp he).1 with rfl | he
    · rfl
    · exact (hinv.found e (List.mem_filter.mp he).1).1.1
  change ∃ x o, ((((get s.redis m.now (rlKey client)).getD .empty).zadd m
      m.now).zremrangebyscore 0 (m.now - windowS)).zrangeFirst = some (x, o) ∧ _
  -- from here on only the entries and their scores matter
  generalize (((get s.redis m.now (rlKey client)).getD .empty).zadd m m.now).zremrangebyscore 0
    (m.now - windowS) = kept at hperm hscore ⊢
  cases hfirst : kept.zrangeFirst with
  | none =>
    have hnil : kept.entries = [] := List.argmin_eq_none.mp hfirst
    have hm : m ∈ kept.members := hperm.mem_iff.mpr List.mem_cons_self
    rw [SortedSet.members, hnil] at hm
    cases hm
  | some e =>
    obtain ⟨x, o⟩ := e
    have hmem : (x, o) ∈ kept.entries := List.argmin_mem hfirst
    refine ⟨x, o, rfl, ⟨x, hperm.mem_iff.mp (List.mem_map_of_mem hmem), (hscore _ hmem).symm⟩, ?_⟩
    rintro u ⟨y, hy, rfl⟩
    obtain ⟨score, hy⟩ := SortedSet.mem_members.mp (hperm.mem_iff.mpr hy)
    have hle : o ≤ score := List.le_of_mem_argmin hy hfirst
    exact hle.trans_eq (hscore _ hy)

/-- **The reply to a check**, from what counts: it is allowed below the limit, with the rest
of the limit remaining, and the reset comes when the oldest member is a minute old. -/
theorem Inv.check_eq (hinv : Inv rl s) (hnow : s.now ≤ m.now) (hfresh : Fresh s client m)
    (ho : IsLeast (timestamps (m :: counting s client m.now)) o) :
    (check rl s.redis client m).1 =
      if (counting s client m.now).length < rl.limit then
        ⟨true, 0, rl.limit - ((counting s client m.now).length + 1 : ℕ),
          pyInt (o + windowS - m.now)⟩
      else ⟨false, o + windowS - m.now, 0, pyInt (o + windowS - m.now)⟩ := by
  obtain ⟨x, o', hoopt, ho'⟩ := hinv.oldest hnow hfresh
  obtain rfl := ho.unique ho'
  have hcount : (pipeline s.redis client m).1.count = (counting s client m.now).length + 1 := by
    rw [hinv.count_eq hnow hfresh, counting, recent_append, List.length_append]
  -- the oldest member is less than a minute old, so nothing is cut off at zero
  have hpos : 0 ≤ o + windowS - m.now := by
    obtain ⟨y, hy, rfl⟩ := ho.1
    rcases List.mem_cons.mp hy with rfl | hy
    · rw [add_sub_cancel_left]
      norm_num [windowS]
    · linarith [(mem_counting.mp hy).2]
  change verdict rl m.now (pipeline s.redis client m).1 = _
  unfold verdict
  rw [hoopt, hcount]
  dsimp only
  rw [max_eq_right hpos]
  by_cases hlt : (counting s client m.now).length < rl.limit
  · rw [if_pos (Nat.succ_le_of_lt hlt), if_pos hlt, max_eq_right (by omega)]
  · rw [if_neg (mt Nat.lt_of_succ_le hlt), if_neg hlt]

/-- A check is allowed if fewer members count than the limit. -/
lemma Inv.allowed_iff (hinv : Inv rl s) (hnow : s.now ≤ m.now) (hfresh : Fresh s client m) :
    (check rl s.redis client m).1.allowed = true ↔
      (counting s client m.now).length < rl.limit := by
  obtain ⟨_, o, -, ho⟩ := hinv.oldest hnow hfresh
  rw [hinv.check_eq hnow hfresh ho]
  split
  · next hlt => exact ⟨fun _ => hlt, fun _ => rfl⟩
  · next hge => exact ⟨fun h => absurd h Bool.false_ne_true, fun hlt => absurd hlt hge⟩

/-! ## A whole call -/

/-- A call of `check` from its pipeline to the `ZREM`, if there is one. -/
def call (rl : SlidingWindowRateLimiter) (s : System) (client : String) (m : Member) :
    Reply × System :=
  let (reply, redis) := check rl s.redis client m
  let redis := if reply.allowed then redis else zrem redis client m
  (reply,
    { redis, now := m.now, unremoved := s.unremoved, log := ⟨client, m, reply.allowed⟩ :: s.log })

@[simp] lemma call_reply : (call rl s client m).1 = (check rl s.redis client m).1 := rfl

@[simp] lemma call_now : (call rl s client m).2.now = m.now := rfl

@[simp] lemma call_unremoved : (call rl s client m).2.unremoved = s.unremoved := rfl

@[simp] lemma call_log : (call rl s client m).2.log =
    ⟨client, m, (check rl s.redis client m).1.allowed⟩ :: s.log := rfl

/-- A call is a check step and, if it is declined, the `ZREM` step of its member. -/
lemma reachable_call (hs : Reachable rl s) (hnow : s.now ≤ m.now) (hfresh : Fresh s client m) :
    Reachable rl (call rl s client m).2 := by
  have hcheck : step rl s (.check client m) = some
      { redis := (check rl s.redis client m).2
        now := m.now
        unremoved := if (check rl s.redis client m).1.allowed then s.unremoved
          else (client, m) :: s.unremoved
        log := ⟨client, m, (check rl s.redis client m).1.allowed⟩ :: s.log } :=
    if_pos ⟨hnow, hfresh⟩
  have hrun := Transition.Run.tail hs trivial hcheck
  unfold call
  cases hallowed : (check rl s.redis client m).1.allowed with
  | true =>
    rw [hallowed] at hrun
    simpa [hallowed] using hrun
  | false =>
    rw [hallowed] at hrun
    have hold : (client, m) ∉ s.unremoved := by
      intro hmem
      obtain ⟨c, hc, hclient, hmember, -⟩ := (inv_of_reachable hs).declined _ hmem
      exact hfresh c hc hclient hmember
    have hrest : ((client, m) :: s.unremoved).filter (fun x => x ≠ (client, m)) = s.unremoved := by
      rw [List.filter_cons_of_neg (by simp)]
      refine List.filter_eq_self.mpr fun x hx => ?_
      have hne : x ≠ (client, m) := fun heq => hold (heq ▸ hx)
      simpa using hne
    have hzrem : step rl
        { redis := (check rl s.redis client m).2
          now := m.now
          unremoved := (client, m) :: s.unremoved
          log := ⟨client, m, false⟩ :: s.log } (.zrem client m) = some
        { redis := zrem (check rl s.redis client m).2 client m
          now := m.now
          unremoved := s.unremoved
          log := ⟨client, m, false⟩ :: s.log } := by
      rw [step, if_pos List.mem_cons_self, hrest]
    simpa [hallowed] using hrun.tail trivial hzrem

/-- After a declined call the same members count as before it. -/
lemma counting_call_declined (hdeclined : (check rl s.redis client m).1.allowed = false) :
    counting (call rl s client m).2 client t = counting s client t := by
  rw [counting, call_log, call_unremoved, hdeclined]
  simp [admitted, counting]

/-- After an allowed call its member counts too. -/
lemma counting_call_allowed (hallowed : (check rl s.redis client m).1.allowed = true)
    (hlive : t < m.now + windowS) :
    counting (call rl s client m).2 client t = m :: counting s client t := by
  have hadmitted : admitted (⟨client, m, true⟩ :: s.log) client = m :: admitted s.log client := by
    simp [admitted]
  rw [counting, call_log, call_unremoved, hallowed, hadmitted, List.cons_append,
    recent_cons_live (minute_live_iff.mpr (by linarith)), counting]

/-! ## Later on -/

/-- Later, what still counts is some of what counts now. -/
lemma counting_later {t' : ℚ} (htt : t ≤ t') :
    counting s client t' = recent minute Member.now t' (counting s client t) :=
  (recent_recent htt).symm

/-- Before the oldest member is a minute old everything still counts. -/
lemma counting_eq_of_lt {t' : ℚ} (htt : t ≤ t') (ho : IsLeast (timestamps (counting s client t)) o)
    (hlt : t' < o + windowS) : counting s client t' = counting s client t := by
  rw [counting_later htt]
  refine List.filter_eq_self.mpr fun x hx => minute_live_iff.mpr ?_
  have hox : o ≤ x.now := ho.2 ⟨x, hx, rfl⟩
  linarith

/-- If something counts already, a new member does not change which is the oldest. -/
lemma isLeast_of_timestamps_cons {l : List Member} (ho : IsLeast (timestamps (m :: l)) o)
    (hne : l ≠ []) (hle : ∀ x ∈ l, x.now ≤ m.now) : IsLeast (timestamps l) o := by
  have hlower : o ∈ lowerBounds (timestamps l) := by
    rintro u ⟨x, hx, rfl⟩
    exact ho.2 ⟨x, List.mem_cons_of_mem _ hx, rfl⟩
  obtain ⟨x, hx⟩ := List.exists_mem_of_ne_nil l hne
  have hox : o ≤ x.now := hlower ⟨x, hx, rfl⟩
  obtain ⟨y, hy, rfl⟩ := ho.1
  rcases List.mem_cons.mp hy with rfl | hy
  · exact ⟨⟨x, hx, le_antisymm (hle x hx) hox⟩, hlower⟩
  · exact ⟨⟨y, hy, rfl⟩, hlower⟩

/-- The oldest member at a declined check was there before it. -/
lemma Inv.isLeast_of_declined (hinv : Inv rl s) (hnow : s.now ≤ m.now)
    (hge : rl.limit ≤ (counting s client m.now).length)
    (ho : IsLeast (timestamps (m :: counting s client m.now)) o) :
    IsLeast (timestamps (counting s client m.now)) o := by
  refine isLeast_of_timestamps_cons ho (fun hnil => ?_) fun x hx => (hinv.counting_le hx).trans hnow
  rw [hnil] at hge
  exact absurd rl.limit_pos (by simpa using hge)

end RateLimiter
end InferenceApi
