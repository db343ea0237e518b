import InferenceApi.RateLimiter.Replies

/-!
# One call at a time

When each call of `check` is finished before the next one starts, no declined member is ever
left behind, and what counts is exactly what was allowed in the last minute. The limiter then
is the exact sliding log: it allows below the limit, and the numbers in its replies are what
they say, the further calls it would allow and the time until it would allow one.
-/

namespace InferenceApi
namespace RateLimiter

open SlidingWindow

variable {rl : SlidingWindowRateLimiter} {s : System} {client : String} {m : Member} {t o : ℚ}

/-- The states after calls made one after the other, of any clients, with new members and at
nondecreasing times. -/
inductive Sequential (rl : SlidingWindowRateLimiter) : System → Prop
  | init : Sequential rl System.init
  | next {s : System} {client : String} {m : Member} : Sequential rl s → s.now ≤ m.now →
      Fresh s client m → Sequential rl (call rl s client m).2

theorem Sequential.reachable (hs : Sequential rl s) : Reachable rl s := by
  induction hs with
  | init => exact .refl
  | next _ hnow hfresh ih => exact reachable_call ih hnow hfresh

lemma Sequential.inv (hs : Sequential rl s) : Inv rl s := inv_of_reachable hs.reachable

/-- No `ZREM` is outstanding. -/
lemma Sequential.unremoved (hs : Sequential rl s) : s.unremoved = [] := by
  induction hs with
  | init => rfl
  | next _ _ _ ih => exact ih

/-- What counts are the admissions of the last minute. -/
lemma Sequential.counting_eq (hs : Sequential rl s) (ht : s.now ≤ t) :
    counting s client t = (allowedIn s client t).map Check.member := by
  rw [counting, hs.unremoved, lingering, List.filter_nil, List.map_nil, List.append_nil, recent,
    admitted, List.filter_map, List.filter_filter, allowedIn]
  congr 1
  -- both lists are the log filtered twice, by the same things in another order
  refine List.filter_congr fun c hc => ?_
  have hle := ((hs.inv.times c hc).2).trans ht
  rw [Bool.eq_iff_iff]
  simp only [Function.comp_apply, Bool.and_eq_true, decide_eq_true_eq, minute_live_iff]
  constructor
  · rintro ⟨hlive, hclient, hallowed⟩
    exact ⟨hclient, hallowed, by linarith, hle⟩
  · rintro ⟨hclient, hallowed, hlt, -⟩
    exact ⟨by linarith, hclient, hallowed⟩

lemma Sequential.counting_length (hs : Sequential rl s) (ht : s.now ≤ t) :
    (counting s client t).length = (allowedIn s client t).length := by
  rw [hs.counting_eq ht, List.length_map]

/-! ## Further calls at the same instant -/

/-- The replies to calls made one after the other. -/
def calls (rl : SlidingWindowRateLimiter) (s : System) (client : String) :
    List Member → List Reply
  | [] => []
  | m :: ms => (call rl s client m).1 :: calls rl (call rl s client m).2 client ms

lemma Fresh.after_call {x : Member} (hx : Fresh s client x) (hne : m ≠ x) :
    Fresh (call rl s client m).2 client x := by
  intro c hc hclient
  rcases List.mem_cons.mp hc with rfl | hc
  · exact hne
  · exact hx c hc hclient

/-- Of several calls at one instant as many are allowed as the limit leaves room for. -/
theorem Sequential.countP_calls (hs : Sequential rl s) (ht : s.now ≤ t) {ms : List Member}
    (hms : ∀ x ∈ ms, x.now = t) (hnodup : ms.Nodup) (hfresh : ∀ x ∈ ms, Fresh s client x) :
    (calls rl s client ms).countP Reply.allowed =
      min ms.length (rl.limit - (counting s client t).length) := by
  induction ms generalizing s with
  | nil => simp [calls]
  | cons m ms ih =>
    obtain ⟨hm, hms⟩ := List.forall_mem_cons.mp hms
    obtain ⟨hnot, hnodup⟩ := List.nodup_cons.mp hnodup
    obtain ⟨hfm, hfresh⟩ := List.forall_mem_cons.mp hfresh
    subst hm
    -- the first call takes up one place or none, and the others are as new to it as before
    have hrest : ∀ x ∈ ms, Fresh (call rl s client m).2 client x := fun x hx =>
      (hfresh x hx).after_call fun heq => hnot (heq ▸ hx)
    have ih := ih (hs.next ht hfm) le_rfl hms hnodup hrest
    have hallowed := hs.inv.allowed_iff ht hfm
    rw [calls, List.countP_cons, ih, call_reply, List.length_cons]
    cases hreply : (check rl s.redis client m).1.allowed with
    | true =>
      have hlt := hallowed.mp hreply
      rw [counting_call_allowed hreply (by norm_num [windowS]), List.length_cons, if_pos rfl]
      omega
    | false =>
      have hge : ¬ (counting s client m.now).length < rl.limit := fun hlt => by
        rw [hallowed.mpr hlt] at hreply
        cases hreply
      rw [counting_call_declined hreply, if_neg Bool.false_ne_true]
      omega

/-! ## The replies -/

/-- A declined caller gets through exactly when the oldest admission is a minute old. -/
lemma Sequential.allowed_later_iff (hs : Sequential rl s) (hnow : s.now ≤ m.now)
    (hfresh : Fresh s client m) (hdeclined : (check rl s.redis client m).1.allowed = false)
    (ho : IsLeast (timestamps (counting s client m.now)) o) {m' : Member}
    (hle : m.now ≤ m'.now) (hfresh' : Fresh (call rl s client m).2 client m') :
    (check rl (call rl s client m).2.redis client m').1.allowed = true ↔ o + windowS ≤ m'.now := by
  have hge : rl.limit ≤ (counting s client m.now).length := by
    rw [← not_lt, ← hs.inv.allowed_iff hnow hfresh, hdeclined]
    exact Bool.false_ne_true
  -- no more were allowed than the limit
  have hmost : (counting s client m.now).length ≤ rl.limit := by
    rw [hs.counting_length hnow]
    exact allowed_in_window_le rl s hs.reachable client m.now
  rw [(hs.next hnow hfresh).inv.allowed_iff hle hfresh', counting_call_declined hdeclined]
  constructor
  · intro hlt
    -- before that nothing has left the window, which was full
    by_contra hbefore
    rw [counting_eq_of_lt hle ho (not_le.mp hbefore)] at hlt
    exact absurd hge (not_le.mpr hlt)
  · intro hafter
    obtain ⟨x, hx, rfl⟩ := ho.1
    rw [counting_later hle]
    -- the oldest is out, and one free place is enough
    refine (List.length_filter_lt_length_iff_exists.mpr ⟨x, hx, ?_⟩).trans_le hmost
    rw [minute_live_iff, not_lt]
    linarith

/-- The admissions that count right after a call, and the oldest of them. -/
lemma Sequential.isLeast_allowedIn (hs : Sequential rl s) (hnow : s.now ≤ m.now)
    (hfresh : Fresh s client m) (ho : IsLeast (timestamps (m :: counting s client m.now)) o) :
    IsLeast {u | ∃ c ∈ allowedIn (call rl s client m).2 client m.now, c.member.now = u} o := by
  -- after a sequential call what counts and what was allowed are the same
  have hset : {u | ∃ c ∈ allowedIn (call rl s client m).2 client m.now, c.member.now = u} =
      timestamps (counting (call rl s client m).2 client m.now) := by
    rw [(hs.next hnow hfresh).counting_eq (le_refl m.now)]
    ext u
    simp [timestamps]
  rw [hset]
  cases hreply : (check rl s.redis client m).1.allowed with
  | true =>
    rw [counting_call_allowed hreply (by norm_num [windowS])]
    exact ho
  | false =>
    rw [counting_call_declined hreply]
    refine hs.inv.isLeast_of_declined hnow ?_ ho
    rw [← not_lt, ← hs.inv.allowed_iff hnow hfresh, hreply]
    exact Bool.false_ne_true

/-- **The sequential limiter is the exact sliding log.** With `k` admissions in the last
minute a call is allowed exactly if `k` is below the limit. `remaining` is how many more would
be allowed at once, `retry_after` the least wait after which a call would be allowed, and
`reset` the whole seconds until the oldest admission leaves the window. -/
theorem sequential_call (rl : SlidingWindowRateLimiter) (s : System) (hs : Sequential rl s)
    (client : String) (m : Member) (hnow : s.now ≤ m.now) (hfresh : Fresh s client m) :
    ((call rl s client m).1.allowed = true ↔ (allowedIn s client m.now).length < rl.limit) ∧
    ((call rl s client m).1.allowed = true →
      ∀ ms : List Member, (∀ x ∈ ms, x.now = m.now) → ms.Nodup →
        (∀ x ∈ ms, Fresh (call rl s client m).2 client x) →
          ((calls rl (call rl s client m).2 client ms).countP Reply.allowed : ℤ) =
            min (ms.length : ℤ) (call rl s client m).1.remaining) ∧
    ((call rl s client m).1.allowed = false → 0 ≤ (call rl s client m).1.retryAfterS ∧
      ∀ w : ℚ, 0 ≤ w → ∀ m' : Member, m'.now = m.now + w →
        Fresh (call rl s client m).2 client m' →
          ((call rl (call rl s client m).2 client m').1.allowed = true ↔
            (call rl s client m).1.retryAfterS ≤ w)) ∧
    ∃ o, IsLeast {u | ∃ c ∈ allowedIn (call rl s client m).2 client m.now, c.member.now = u} o ∧
      (call rl s client m).1.resetS = pyInt (o + windowS - m.now) := by
  obtain ⟨_, o, -, ho⟩ := hs.inv.oldest hnow hfresh
  have heq := hs.inv.check_eq hnow hfresh ho
  have hallowed := hs.inv.allowed_iff hnow hfresh
  simp only [call_reply]
  refine ⟨?_, fun hreply ms hms hnodup hms' => ?_, fun hreply => ?_, o,
    hs.isLeast_allowedIn hnow hfresh ho, ?_⟩
  · rw [hallowed, hs.counting_length hnow]
  · have hlt := hallowed.mp hreply
    rw [heq, if_pos hlt, (hs.next hnow hfresh).countP_calls (le_refl m.now) hms hnodup hms',
      counting_call_allowed hreply (by norm_num [windowS]), List.length_cons]
    push_cast
    omega
  · have hge : ¬ (counting s client m.now).length < rl.limit := fun hlt => by
      rw [hallowed.mpr hlt] at hreply
      cases hreply
    have hold := hs.inv.isLeast_of_declined hnow (not_lt.mp hge) ho
    have hretry : (check rl s.redis client m).1.retryAfterS = o + windowS - m.now := by
      rw [heq, if_neg hge]
    rw [hretry]
    constructor
    · obtain ⟨x, hx, rfl⟩ := hold.1
      linarith [(mem_counting.mp hx).2]
    · intro w hw m' hm' hfresh'
      rw [hs.allowed_later_iff hnow hfresh hreply hold (by linarith) hfresh', hm']
      constructor <;> intro hle <;> linarith
  · rw [heq]
    split <;> rfl

/-- A limit of one: admitted at 0, and a call at 30. -/
theorem sequential_call_thirty :
    (call ⟨1, le_refl 1⟩ (call ⟨1, le_refl 1⟩ System.init "a" ⟨0, 0⟩).2 "a" ⟨30, 1⟩).1.allowed =
        true ↔
      (allowedIn (call ⟨1, le_refl 1⟩ System.init "a" ⟨0, 0⟩).2 "a" 30).length < 1 :=
  (sequential_call ⟨1, le_refl 1⟩ _ (.next .init le_rfl (by decide +kernel)) "a" ⟨30, 1⟩
    (by decide +kernel) (by decide +kernel)).1

end RateLimiter
end InferenceApi
