import Mathlib

/-!
# Sorted sets

The sorted set of a Redis server as far as `ZADD`, `ZREMRANGEBYSCORE`, `ZCARD`,
`ZRANGE 0 0 WITHSCORES` and `ZREM` use it: members with scores, each member once.
-/

/-- Members with scores; no member occurs twice. -/
structure SortedSet (α ρ : Type*) where
  entries : List (α × ρ)
  nodup : (entries.map Prod.fst).Nodup

namespace SortedSet

variable {α ρ : Type*}

/-- The members, without their scores. -/
def members (s : SortedSet α ρ) : List α := s.entries.map Prod.fst

/-- The empty set, which is what an absent key holds. -/
def empty : SortedSet α ρ := ⟨[], List.nodup_nil⟩

/-- Keep the entries that satisfy `p`. -/
def keep (s : SortedSet α ρ) (p : α × ρ → Bool) : SortedSet α ρ :=
  ⟨s.entries.filter p, s.nodup.sublist (List.filter_sublist.map _)⟩

/-- `ZCARD`. -/
def zcard (s : SortedSet α ρ) : ℕ := s.entries.length

/-- `ZREM`. -/
def zrem [DecidableEq α] (s : SortedSet α ρ) (m : α) : SortedSet α ρ :=
  s.keep fun e => e.1 ≠ m

/-- `ZADD` of one member: a member already present gets the new score. -/
def zadd [DecidableEq α] (s : SortedSet α ρ) (m : α) (score : ρ) : SortedSet α ρ where
  entries := (m, score) :: (s.zrem m).entries
  nodup := by
    refine List.nodup_cons.mpr ⟨?_, (s.zrem m).nodup⟩
    simp [zrem, keep]

/-- `ZREMRANGEBYSCORE lo hi`, both ends included. -/
def zremrangebyscore [LE ρ] [DecidableLE ρ] (s : SortedSet α ρ) (lo hi : ρ) : SortedSet α ρ :=
  s.keep fun e => !(decide (lo ≤ e.2) && decide (e.2 ≤ hi))

/-- `ZRANGE 0 0 WITHSCORES`: an entry of lowest score. -/
def zrangeFirst [LinearOrder ρ] (s : SortedSet α ρ) : Option (α × ρ) := s.entries.argmin Prod.snd

lemma mem_members {s : SortedSet α ρ} {m : α} :
    m ∈ s.members ↔ ∃ score, (m, score) ∈ s.entries := by
  simp [members]

/-- Removing an absent member changes nothing. -/
lemma zrem_entries_of_notMem [DecidableEq α] {s : SortedSet α ρ} {m : α} (h : m ∉ s.members) :
    (s.zrem m).entries = s.entries := by
  refine List.filter_eq_self.mpr fun e he => ?_
  have hne : e.1 ≠ m := by
    rintro rfl
    exact h (List.mem_map_of_mem he)
  simpa using hne

/-- A new member is added in front. -/
lemma zadd_entries_of_notMem [DecidableEq α] {s : SortedSet α ρ} {m : α} (score : ρ)
    (h : m ∉ s.members) : (s.zadd m score).entries = (m, score) :: s.entries := by
  have hentries : (s.zadd m score).entries = (m, score) :: (s.zrem m).entries := rfl
  rw [hentries, zrem_entries_of_notMem h]

lemma zrem_members [DecidableEq α] (s : SortedSet α ρ) (m : α) :
    (s.zrem m).members = s.members.filter fun x => x ≠ m := by
  simp only [members, zrem, keep, List.filter_map]
  rfl

end SortedSet
