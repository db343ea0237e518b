import InferenceApi.RateLimiter.Limiter

/-!
# What the rate limiter admits, over every interleaving

The invariant `Inv` says what the sorted set of a client holds: read at any time from
now on, its live members are exactly the live members that were admitted together with
the live members of declined checks whose `ZREM` is still outstanding. A pipeline
therefore counts the sliding log of admissions plus the lingering declined members.
The first summand gives the bound on admissions, the second says when a request is
declined without need.
-/

namespace InferenceApi
namespace RateLimiter

open SlidingWindow TtlStore

/-- A member counts for less than a minute. -/
def minute : Window ℚ where
  live age := decide (age < windowS)
  fading hab hb := decide_eq_true (hab.trans_lt (of_decide_eq_true hb))

lemma minute_live_iff {age : ℚ} : minute.live age = true ↔ age < windowS := by
  simp [minute]

/-- The members of live entries that belong to `client`'s admitted checks. -/
def admitted (log : List Check) (client : String) : List Member :=
  (log.filter fun c => c.client = client ∧ c.allowed).map Check.member

/-- The declined members of `client` whose `ZREM` has not been executed. -/
def lingering (unremoved : List (String × Member)) (client : String) : List Member :=
  (unremoved.filter fun x => x.1 = client).map Prod.snd

/-- The members a pipeline at `t` would find under the client's key. -/
def visible (redis : Redis) (client : String) (t : ℚ) : List Member :=
  ((get redis t (rlKey client)).getD .empty).members

lemma rlKey_injective : Function.Injective rlKey := fun a b h => by
  unfold rlKey at h
  exact (String.append_right_inj _).mp h

/-! ## The pipeline -/

section Pipeline

variable {set : SortedSet Member ℚ} {m : Member} {redis : Redis} {client : String}

/-- `ZADD` then `ZREMRANGEBYSCORE` leaves the live members and the new one. -/
lemma kept_members (hm : 0 ≤ m.now) (hnew : m ∉ set.members)
    (hscore : ∀ e ∈ set.entries, e.2 = e.1.now ∧ 0 ≤ e.1.now) :
    ((set.zadd m m.now).zremrangebyscore 0 (m.now - windowS)).members
      = recent minute Member.now m.now (m :: set.members) := by
  have hentries : (set.zadd m m.now).entries = (m, m.now) :: set.entries :=
    SortedSet.zadd_entries_of_notMem _ hnew
  have hall : ∀ e ∈ (set.zadd m m.now).entries, e.2 = e.1.now ∧ 0 ≤ e.1.now := by
    intro e he
    rw [hentries] at he
    rcases List.mem_cons.mp he with rfl | he
    · exact ⟨rfl, hm⟩
    · exact hscore e he
  have hmembers : m :: set.members = (set.zadd m m.now).entries.map Prod.fst := by
    rw [hentries]
    rfl
  rw [hmembers, recent, List.filter_map, SortedSet.members, SortedSet.zremrangebyscore,
    SortedSet.keep]
  congr 1
  refine List.filter_congr fun e he => ?_
  obtain ⟨he1, he2⟩ := hall e he
  rw [Bool.eq_iff_iff]
  simp only [he1, he2, decide_true, Bool.true_and, Bool.not_eq_true', decide_eq_false_iff_not,
    not_le, Function.comp_apply, minute_live_iff]
  constructor <;> intro hlt <;> linarith

/-- The client's own key holds what was kept, for another minute. -/
lemma pipeline_self :
    (pipeline redis client m).2 (rlKey client) =
      some ⟨(((get redis m.now (rlKey client)).getD .empty).zadd m m.now).zremrangebyscore 0
        (m.now - windowS), m.now + windowS⟩ :=
  setEx_self

/-- Under another key nothing changes. -/
lemma pipeline_of_ne {client' : String} (h : client' ≠ client) :
    (pipeline redis client m).2 (rlKey client') = redis (rlKey client') :=
  setEx_of_ne fun heq => h (rlKey_injective heq)

lemma zrem_self : zrem redis client m (rlKey client) =
    (redis (rlKey client)).map fun cell => { cell with value := cell.value.zrem m } :=
  modify_self _

lemma zrem_of_ne {client' : String} (h : client' ≠ client) :
    zrem redis client m (rlKey client') = redis (rlKey client') :=
  modify_of_ne (fun heq => h (rlKey_injective heq)) _

lemma visible_zrem_self (t : ℚ) :
    visible (zrem redis client m) client t = (visible redis client t).filter fun x => x ≠ m := by
  rw [visible, zrem, get_modify_self, visible]
  cases get redis t (rlKey client) with
  | none => rfl
  | some set => exact SortedSet.zrem_members set m

lemma visible_congr {redis' : Redis} (t : ℚ)
    (h : redis' (rlKey client) = redis (rlKey client)) :
    visible redis' client t = visible redis client t := by
  rw [visible, get_congr h, visible]

end Pipeline

/-! ## The invariant -/

/-- What Redis holds, in terms of the checks decided so far. -/
structure Inv (rl : SlidingWindowRateLimiter) (s : System) : Prop where
  nonneg : 0 ≤ s.now
  /-- Members carry the time of their check, which is in the past. -/
  times : ∀ c ∈ s.log, 0 ≤ c.member.now ∧ c.member.now ≤ s.now
  /-- Members are unique for a client. -/
  unique : ∀ c ∈ s.log, ∀ c' ∈ s.log, c.client = c'.client → c.member = c'.member →
    c.allowed = c'.allowed
  /-- An outstanding `ZREM` belongs to a declined check. -/
  declined : ∀ x ∈ s.unremoved, ∃ c ∈ s.log, c.client = x.1 ∧ c.member = x.2 ∧ c.allowed = false
  /-- Every stored entry was added by a check of the client, with its time as score. -/
  entries : ∀ client cell, s.redis (rlKey client) = some cell → ∀ e ∈ cell.value.entries,
    e.2 = e.1.now ∧ ∃ c ∈ s.log, c.client = client ∧ c.member = e.1
  /-- The live members, now and later. -/
  counted : ∀ client t, s.now ≤ t →
    (recent minute Member.now t (visible s.redis client t)).Perm
      (recent minute Member.now t (admitted s.log client ++ lingering s.unremoved client))
  /-- Every admission was within the limit when it was made. -/
  bounded : ∀ client, Bounded minute Member.now rl.limit (admitted s.log client)

variable {rl : SlidingWindowRateLimiter} {s s' : System}

theorem inv_init : Inv rl System.init where
  nonneg := le_refl _
  times := by simp [System.init]
  unique := by simp [System.init]
  declined := by simp [System.init]
  entries := by simp [System.init]
  counted _ _ _ := List.Perm.refl _
  bounded _ := .nil

/-- The set a pipeline finds, whether or not the key exists. -/
lemma Inv.found (hinv : Inv rl s) {client : String} {t : ℚ} :
    ∀ e ∈ ((get s.redis t (rlKey client)).getD .empty).entries,
      (e.2 = e.1.now ∧ 0 ≤ e.1.now) ∧ ∃ c ∈ s.log, c.client = client ∧ c.member = e.1 := by
  intro e he
  cases hget : get s.redis t (rlKey client) with
  | none =>
    rw [hget] at he
    cases he
  | some set =>
    rw [hget, Option.getD_some] at he
    obtain ⟨cell, hcell, -, rfl⟩ := get_eq_some_iff.mp hget
    obtain ⟨hscore, c, hc, hclient, hmember⟩ := hinv.entries client cell hcell e he
    exact ⟨⟨hscore, hmember ▸ (hinv.times c hc).1⟩, c, hc, hclient, hmember⟩

/-- After the pipeline of `m` the key holds `m` and what was live before it. -/
lemma Inv.pipeline_members (hinv : Inv rl s) {client : String} {m : Member}
    (hnow : s.now ≤ m.now) (hfresh : Fresh s client m) :
    ((((get s.redis m.now (rlKey client)).getD .empty).zadd m m.now).zremrangebyscore 0
        (m.now - windowS)).members
      = recent minute Member.now m.now (m :: visible s.redis client m.now) := by
  refine kept_members (hinv.nonneg.trans hnow) ?_ fun e he => (hinv.found e he).1
  intro hmem
  obtain ⟨score, he⟩ := SortedSet.mem_members.mp hmem
  obtain ⟨-, c, hc, hclient, hmember⟩ := hinv.found _ he
  exact hfresh c hc hclient hmember

lemma minute_live_self (m : Member) : minute.live (m.now - m.now) = true := by
  rw [minute_live_iff, sub_self]
  norm_num [windowS]

/-- **What a check counts**: itself, the live admissions and the live lingering members. -/
lemma Inv.count_eq (hinv : Inv rl s) {client : String} {m : Member}
    (hnow : s.now ≤ m.now) (hfresh : Fresh s client m) :
    (pipeline s.redis client m).1.count =
      (recent minute Member.now m.now (admitted s.log client)).length
        + (recent minute Member.now m.now (lingering s.unremoved client)).length + 1 := by
  have hcard : (pipeline s.redis client m).1.count
      = (recent minute Member.now m.now (m :: visible s.redis client m.now)).length := by
    rw [← hinv.pipeline_members hnow hfresh, SortedSet.members, List.length_map]
    rfl
  rw [hcard, recent_cons_live (minute_live_self m), List.length_cons,
    (hinv.counted client m.now hnow).length_eq, recent_append, List.length_append]

lemma verdict_allowed_iff (now : ℚ) {r : PipelineResult} :
    (verdict rl now r).allowed = true ↔ r.count ≤ rl.limit := by
  unfold verdict
  simp only
  split
  · next h => exact ⟨fun _ => h, fun _ => rfl⟩
  · next h => exact ⟨fun hf => absurd hf (by simp), fun hle => absurd hle h⟩

/-! ## One step preserves the invariant -/

lemma mem_admitted {log : List Check} {client : String} {m : Member} :
    m ∈ admitted log client ↔ ∃ c ∈ log, (c.client = client ∧ c.allowed = true) ∧ c.member = m := by
  simp [admitted, and_assoc]

lemma mem_lingering {unremoved : List (String × Member)} {client : String} {m : Member} :
    m ∈ lingering unremoved client ↔ (client, m) ∈ unremoved := by
  simp [lingering]

/-- All members of the lists a pipeline counts are in the past. -/
lemma Inv.past (times : ∀ c ∈ s.log, 0 ≤ c.member.now ∧ c.member.now ≤ s.now)
    (declined : ∀ x ∈ s.unremoved, ∃ c ∈ s.log, c.client = x.1 ∧ c.member = x.2 ∧
      c.allowed = false) (client : String) :
    ∀ m ∈ admitted s.log client ++ lingering s.unremoved client, m.now ≤ s.now := by
  intro m hm
  rcases List.mem_append.mp hm with hm | hm
  · obtain ⟨c, hc, -, rfl⟩ := mem_admitted.mp hm
    exact (times c hc).2
  · obtain ⟨c, hc, -, hmember, -⟩ := declined _ (mem_lingering.mp hm)
    have hle := (times c hc).2
    rwa [hmember] at hle

/-- Members a minute old no longer count. -/
lemma recent_eq_nil_of_old {t u : ℚ} {l : List Member} (h : ∀ m ∈ l, m.now ≤ u)
    (hold : u + windowS ≤ t) : recent minute Member.now t l = [] := by
  refine List.filter_eq_nil_iff.mpr fun m hm => ?_
  rw [minute_live_iff]
  linarith [h m hm]

/-- The log and the outstanding `ZREM`s after a check of `m`, seen by its client: `m` is
in one of the two lists. -/
lemma counted_after_check (client : String) (m : Member) (allowed : Bool) :
    (admitted (⟨client, m, allowed⟩ :: s.log) client
        ++ lingering (if allowed then s.unremoved else (client, m) :: s.unremoved) client).Perm
      (m :: (admitted s.log client ++ lingering s.unremoved client)) := by
  cases allowed with
  | true => simp [admitted]
  | false =>
    simp only [admitted, lingering, Bool.false_eq_true, if_false, and_false, decide_false,
      List.filter_cons_of_neg, not_false_eq_true, decide_true, List.filter_cons_of_pos,
      List.map_cons]
    exact List.perm_middle

/-- A check leaves the lists of every other client alone. -/
lemma counted_after_check_of_ne (s : System) {client client' : String} (h : client ≠ client')
    (m : Member)
    (allowed : Bool) :
    admitted (⟨client, m, allowed⟩ :: s.log) client' = admitted s.log client' ∧
      lingering (if allowed then s.unremoved else (client, m) :: s.unremoved) client'
        = lingering s.unremoved client' := by
  cases allowed <;> simp [admitted, lingering, h]

/-- What a check's pipeline leaves visible counts the same as the lists do. -/
lemma Inv.counted_self (hinv : Inv rl s) {client : String} {m : Member} (hnow : s.now ≤ m.now)
    (hfresh : Fresh s client m) {t : ℚ} (ht : m.now ≤ t) :
    (recent minute Member.now t (visible (pipeline s.redis client m).2 client t)).Perm
      (recent minute Member.now t
        (m :: (admitted s.log client ++ lingering s.unremoved client))) := by
  have hvisible : visible (pipeline s.redis client m).2 client t
      = if t < m.now + windowS then
          recent minute Member.now m.now (m :: visible s.redis client m.now) else [] := by
    rw [← hinv.pipeline_members hnow hfresh, visible, pipeline, get_setEx_self]
    split <;> rfl
  rw [hvisible]
  split
  · -- the key is still there: pruning at `m.now` is invisible at `t`
    rw [recent_recent ht]
    have hperm : (recent minute Member.now t (visible s.redis client m.now)).Perm
        (recent minute Member.now t
          (admitted s.log client ++ lingering s.unremoved client)) := by
      have h := (hinv.counted client m.now hnow).filter fun x => minute.live (t - x.now)
      change (recent minute Member.now t _).Perm (recent minute Member.now t _) at h
      rwa [recent_recent ht, recent_recent ht] at h
    rw [← List.singleton_append, recent_append, ← @List.singleton_append _ m (_ ++ _),
      recent_append]
    exact hperm.append_left _
  · -- the key has expired, and with it everything that could still count
    next hexp =>
    have hpast : ∀ x ∈ m :: (admitted s.log client ++ lingering s.unremoved client),
        x.now ≤ m.now := by
      intro x hx
      rcases List.mem_cons.mp hx with rfl | hx
      · exact le_refl _
      · exact (Inv.past hinv.times hinv.declined client x hx).trans hnow
    rw [recent_eq_nil_of_old hpast (not_lt.mp hexp)]
    exact List.Perm.refl _

theorem inv_check (hinv : Inv rl s) {client : String} {m : Member} (hnow : s.now ≤ m.now)
    (hfresh : Fresh s client m) (allowed : Bool)
    (hallowed : allowed = true ↔ (pipeline s.redis client m).1.count ≤ rl.limit) :
    Inv rl
      { redis := (pipeline s.redis client m).2
        now := m.now
        unremoved := if allowed then s.unremoved else (client, m) :: s.unremoved
        log := ⟨client, m, allowed⟩ :: s.log } where
  nonneg := hinv.nonneg.trans hnow
  times c hc := by
    rcases List.mem_cons.mp hc with rfl | hc
    · exact ⟨hinv.nonneg.trans hnow, le_refl _⟩
    · exact ⟨(hinv.times c hc).1, (hinv.times c hc).2.trans hnow⟩
  unique c hc c' hc' hclient hmember := by
    rcases List.mem_cons.mp hc with rfl | hc <;> rcases List.mem_cons.mp hc' with rfl | hc'
    · rfl
    -- a new member is not that of any earlier check
    · exact absurd hmember.symm (hfresh c' hc' hclient.symm)
    · exact absurd hmember (hfresh c hc hclient)
    · exact hinv.unique c hc c' hc' hclient hmember
  declined x hx := by
    cases allowed with
    | true =>
      obtain ⟨c, hc, h⟩ := hinv.declined x hx
      exact ⟨c, List.mem_cons_of_mem _ hc, h⟩
    | false =>
      rcases List.mem_cons.mp hx with rfl | hx
      · exact ⟨_, List.mem_cons_self, rfl, rfl, rfl⟩
      · obtain ⟨c, hc, h⟩ := hinv.declined x hx
        exact ⟨c, List.mem_cons_of_mem _ hc, h⟩
  entries client' cell hcell e he := by
    by_cases hclient : client' = client
    · subst hclient
      obtain rfl := Option.some.inj (pipeline_self.symm.trans hcell)
      have hadded := (List.mem_filter.mp he).1
      -- the set holds the new member and what it held before
      rcases List.mem_cons.mp hadded with rfl | hadded
      · exact ⟨rfl, _, List.mem_cons_self, rfl, rfl⟩
      · obtain ⟨⟨hscore, -⟩, c, hc, h⟩ := hinv.found e (List.mem_filter.mp hadded).1
        exact ⟨hscore, c, List.mem_cons_of_mem _ hc, h⟩
    · have hold := (pipeline_of_ne hclient).symm.trans hcell
      obtain ⟨hscore, c, hc, h⟩ := hinv.entries client' cell hold e he
      exact ⟨hscore, c, List.mem_cons_of_mem _ hc, h⟩
  counted client' t ht := by
    by_cases hclient : client = client'
    · subst hclient
      refine (hinv.counted_self hnow hfresh ht).trans (List.Perm.filter _ ?_)
      exact (counted_after_check client m allowed).symm
    · obtain ⟨hadm, hling⟩ := counted_after_check_of_ne s hclient m allowed
      rw [hadm, hling, visible_congr t (pipeline_of_ne (Ne.symm hclient))]
      exact hinv.counted client' t (hnow.trans ht)
  bounded client' := by
    by_cases hclient : client = client'
    · subst hclient
      cases allowed with
      | true =>
        have hcons : admitted (⟨client, m, true⟩ :: s.log) client
            = m :: admitted s.log client := by simp [admitted]
        rw [hcons]
        refine .cons ?_ (hinv.bounded client)
        -- it was allowed, so with it the admissions are within the limit
        have hcount := hallowed.mp rfl
        rw [hinv.count_eq hnow hfresh] at hcount
        rw [recent_cons_live (minute_live_self m), List.length_cons]
        omega
      | false =>
        have hsame : admitted (⟨client, m, false⟩ :: s.log) client = admitted s.log client := by
          simp [admitted]
        rw [hsame]
        exact hinv.bounded client
    · rw [(counted_after_check_of_ne s hclient m allowed).1]
      exact hinv.bounded client'

theorem inv_zrem (hinv : Inv rl s) {client : String} {m : Member}
    (hmem : (client, m) ∈ s.unremoved) :
    Inv rl { s with
      redis := zrem s.redis client m
      unremoved := s.unremoved.filter fun x => x ≠ (client, m) } where
  nonneg := hinv.nonneg
  times := hinv.times
  unique := hinv.unique
  declined x hx := hinv.declined x (List.mem_filter.mp hx).1
  entries client' cell hcell e he := by
    by_cases hclient : client' = client
    · subst hclient
      obtain ⟨old, hold, rfl⟩ := Option.map_eq_some_iff.mp (zrem_self.symm.trans hcell)
      exact hinv.entries client' old hold e (List.mem_filter.mp he).1
    · exact hinv.entries client' cell ((zrem_of_ne hclient).symm.trans hcell) e he
  counted client' t ht := by
    by_cases hclient : client' = client
    · subst hclient
      -- the member was declined, so no admission goes with it
      have hadm : (admitted s.log client').filter (fun x => x ≠ m) = admitted s.log client' := by
        refine List.filter_eq_self.mpr fun x hx => ?_
        obtain ⟨c, hc, ⟨hclient, hallowed⟩, rfl⟩ := mem_admitted.mp hx
        obtain ⟨c', hc', hclient', hmember', hdeclined⟩ := hinv.declined _ hmem
        have hne : c.member ≠ m := by
          intro heq
          have := hinv.unique c hc c' hc' (hclient.trans hclient'.symm) (heq.trans hmember'.symm)
          rw [hallowed, hdeclined] at this
          cases this
        simpa using hne
      have hling : lingering (s.unremoved.filter fun x => x ≠ (client', m)) client'
          = (lingering s.unremoved client').filter fun x => x ≠ m := by
        rw [lingering, lingering, List.filter_map, List.filter_filter, List.filter_filter]
        congr 1
        refine List.filter_congr fun x _ => ?_
        obtain ⟨y, n⟩ := x
        by_cases hy : y = client' <;> simp [hy]
      -- removing the member from both sides keeps them equal
      rw [visible_zrem_self, hling, ← hadm, ← List.filter_append, recent, List.filter_comm]
      have h := (hinv.counted client' t ht).filter fun x => x ≠ m
      rw [recent, recent, List.filter_comm _ _ (admitted _ _ ++ _)] at h
      exact h
    -- another client's declined members stay
    · have hling : lingering (s.unremoved.filter fun x => x ≠ (client, m)) client'
          = lingering s.unremoved client' := by
        rw [lingering, lingering, List.filter_filter]
        congr 1
        refine List.filter_congr fun x _ => ?_
        obtain ⟨y, n⟩ := x
        by_cases hy : y = client'
        · simp [hy, hclient]
        · simp [hy]
      rw [hling, visible_congr t (zrem_of_ne hclient)]
      exact hinv.counted client' t ht
  bounded := hinv.bounded

theorem inv_step {a : Action} (hinv : Inv rl s) (hs : step rl s a = some s') : Inv rl s' := by
  cases a with
  | check client m =>
    rw [step] at hs
    split at hs
    · next hen =>
      rw [Option.some.injEq] at hs
      exact hs ▸ inv_check hinv hen.1 hen.2 _ (verdict_allowed_iff _)
    · cases hs
  | zrem client m =>
    rw [step] at hs
    split at hs
    · next hmem =>
      rw [Option.some.injEq] at hs
      exact hs ▸ inv_zrem hinv hmem
    · cases hs

theorem inv_of_reachable (h : Reachable rl s) : Inv rl s :=
  h.invariant inv_init fun _ _ _ hinv _ hs => inv_step hinv hs

/-! ## Admissions are bounded -/

/-- The admissions of a window, read off the log, are those of `admitted`. -/
lemma allowedIn_length (s : System) (client : String) (t : ℚ) :
    (allowedIn s client t).length
      = (window minute Member.now t (admitted s.log client)).length := by
  rw [window, admitted, List.filter_map, List.length_map, List.filter_filter, allowedIn]
  congr 1
  refine List.filter_congr fun c _ => ?_
  rw [Bool.eq_iff_iff]
  simp only [decide_eq_true_eq, Bool.and_eq_true, Function.comp_apply, minute_live_iff]
  constructor
  · rintro ⟨h1, h2, h3, h4⟩
    exact ⟨⟨h4, by linarith⟩, h1, h2⟩
  · rintro ⟨⟨h4, h3⟩, h1, h2⟩
    exact ⟨h1, h2, by linarith, h4⟩

/-- **Rate limit bound.** In every run of concurrent checks whose pipelines run at the times they
have read and in the order of these, as they do with one clock, whatever the ZREMs of declined
checks do, every window `(t - 60, t]` holds at most `limit` admissions of a client. -/
theorem allowed_in_window_le (rl : SlidingWindowRateLimiter) (s : System) (h : Reachable rl s)
    (client : String) (t : ℚ) : (allowedIn s client t).length ≤ rl.limit := by
  rw [allowedIn_length]
  exact window_length_le ((inv_of_reachable h).bounded client) t

/-- A limit of one: admitted at 0, declined at 30. -/
def declinedAtThirty : System :=
  System.after ⟨1, le_refl 1⟩ [.check "a" ⟨0, 0⟩, .check "a" ⟨30, 1⟩]

theorem allowed_in_window_le_declinedAtThirty :
    (allowedIn declinedAtThirty "a" 30).length = 1 ∧
      (allowedIn declinedAtThirty "a" 30).length ≤ 1 :=
  ⟨by decide +kernel,
    allowed_in_window_le ⟨1, le_refl 1⟩ declinedAtThirty (reachable_after _ _) "a" 30⟩

/-! ## When a request is declined -/

lemma lingeringIn_length (s : System) (client : String) (t : ℚ) :
    (lingeringIn s client t).length
      = (window minute Member.now t (lingering s.unremoved client)).length := by
  rw [window, lingering, List.filter_map, List.length_map, List.filter_filter, lingeringIn]
  congr 1
  refine List.filter_congr fun x _ => ?_
  rw [Bool.eq_iff_iff]
  simp only [decide_eq_true_eq, Bool.and_eq_true, Function.comp_apply, minute_live_iff]
  constructor
  · rintro ⟨h1, h2, h3⟩
    exact ⟨⟨h3, by linarith⟩, h1⟩
  · rintro ⟨⟨h3, h2⟩, h1⟩
    exact ⟨h1, by linarith, h3⟩

/-- For a time that is not in the past, windows and live members are the same. -/
lemma window_eq_recent {t : ℚ} {l : List Member} (h : ∀ m ∈ l, m.now ≤ t) :
    window minute Member.now t l = recent minute Member.now t l := by
  refine List.filter_congr fun m hm => ?_
  rw [decide_eq_true (h m hm), Bool.true_and]

/-- **What a check counts**, in terms of the log: the admissions of the last minute, the
lingering declined members of the last minute, and itself. -/
theorem count_eq_allowed_add_lingering (hinv : Inv rl s) {client : String} {m : Member}
    (hnow : s.now ≤ m.now) (hfresh : Fresh s client m) :
    (pipeline s.redis client m).1.count =
      (allowedIn s client m.now).length + (lingeringIn s client m.now).length + 1 := by
  have hpast : ∀ x ∈ admitted s.log client ++ lingering s.unremoved client, x.now ≤ m.now :=
    fun x hx => (Inv.past hinv.times hinv.declined client x hx).trans hnow
  rw [hinv.count_eq hnow hfresh, allowedIn_length, lingeringIn_length,
    window_eq_recent fun x hx => hpast x (List.mem_append_left _ hx),
    window_eq_recent fun x hx => hpast x (List.mem_append_right _ hx)]

/-- **When a declined request is declined rightly.** In every run with one clock, as above, a
check that is declined finds the limit used up by admissions of the last minute exactly if the
lingering declined members do not fill what the admissions leave free. -/
theorem declined_only_if_full_iff (rl : SlidingWindowRateLimiter) (s : System)
    (h : Reachable rl s) (client : String) (m : Member) (hnow : s.now ≤ m.now)
    (hfresh : Fresh s client m) :
    ((check rl s.redis client m).1.allowed = false →
        rl.limit ≤ (allowedIn s client m.now).length) ↔
      rl.limit ≤ (allowedIn s client m.now).length ∨
        (allowedIn s client m.now).length + (lingeringIn s client m.now).length < rl.limit := by
  have hdeclined : (check rl s.redis client m).1.allowed = false ↔
      ¬ (pipeline s.redis client m).1.count ≤ rl.limit := by
    rw [← verdict_allowed_iff m.now, Bool.not_eq_true]
    rfl
  -- a check is declined if it, the admissions and the lingering members exceed the limit
  rw [hdeclined, count_eq_allowed_add_lingering (inv_of_reachable h) hnow hfresh]
  omega

/-- The check declined at 30 still fills the set at 61, when the admission is gone: the
check at 61 is declined although nothing was admitted in the minute before. -/
theorem declined_without_admissions :
    ¬ ∀ (rl : SlidingWindowRateLimiter) (s : System) (client : String) (m : Member),
      Reachable rl s → s.now ≤ m.now → Fresh s client m →
        (check rl s.redis client m).1.allowed = false →
          rl.limit ≤ (allowedIn s client m.now).length := by
  intro hall
  have h := hall ⟨1, le_refl 1⟩ declinedAtThirty "a" ⟨61, 2⟩ (reachable_after _ _)
    (by decide +kernel) (by decide +kernel) (by decide +kernel)
  have hnone : (allowedIn declinedAtThirty "a" 61).length = 0 := by decide +kernel
  rw [hnone] at h
  exact absurd h (by decide)

theorem declined_only_if_full_iff_declinedAtThirty :
    ((check ⟨1, le_refl 1⟩ declinedAtThirty.redis "a" ⟨61, 2⟩).1.allowed = false →
        1 ≤ (allowedIn declinedAtThirty "a" 61).length) ↔
      1 ≤ (allowedIn declinedAtThirty "a" 61).length ∨
        (allowedIn declinedAtThirty "a" 61).length
          + (lingeringIn declinedAtThirty "a" 61).length < 1 :=
  declined_only_if_full_iff ⟨1, le_refl 1⟩ declinedAtThirty (reachable_after _ _) "a" ⟨61, 2⟩
    (by decide +kernel) (by decide +kernel)

end RateLimiter
end InferenceApi
