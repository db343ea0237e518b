import InferenceApi.Lib.Simulation
import InferenceApi.RateLimiter.Replies

/-!
# Clients do not notice each other

The limiter keeps one sorted set for each client. So the answers a client gets in a run are those
it would get in the same run without the checks and removals of all other clients.
-/

namespace InferenceApi
namespace RateLimiter

open TtlStore Transition

/-- The client an action is made for. -/
def Action.client : Action → String
  | .check client _ => client
  | .zrem client _ => client

/-- `t` has what `client` can see of `s`. -/
structure Sees (client : String) (s t : System) : Prop where
  cell : t.redis (rlKey client) = s.redis (rlKey client)
  now : t.now ≤ s.now
  unremoved : t.unremoved = s.unremoved.filter fun x => x.1 = client
  log : t.log = s.log.filter fun c => c.client = client

variable {rl : SlidingWindowRateLimiter} {s s' t : System} {client : String} {a : Action}

/-- A pipeline reads and writes the client's cell only. -/
lemma pipeline_congr {redis redis' : Redis} (m : Member)
    (h : redis' (rlKey client) = redis (rlKey client)) :
    (pipeline redis' client m).1 = (pipeline redis client m).1 ∧
      (pipeline redis' client m).2 (rlKey client) = (pipeline redis client m).2 (rlKey client) := by
  have hget : get redis' m.now (rlKey client) = get redis m.now (rlKey client) := get_congr h
  constructor
  · unfold pipeline
    dsimp only
    rw [hget]
  · rw [pipeline_self, pipeline_self, hget]

/-- The reply to a check follows from what its client sees. -/
lemma Sees.check_eq (h : Sees client s t) (m : Member) :
    (check rl t.redis client m).1 = (check rl s.redis client m).1 ∧
      (check rl t.redis client m).2 (rlKey client) =
        (check rl s.redis client m).2 (rlKey client) := by
  obtain ⟨hresult, hcell⟩ := pipeline_congr m h.cell
  refine ⟨?_, hcell⟩
  show verdict rl m.now (pipeline t.redis client m).1 =
    verdict rl m.now (pipeline s.redis client m).1
  rw [hresult]

/-- What the client does, it can do alone. -/
lemma Sees.own (h : Sees client s t) (ha : a.client = client) (hs : step rl s a = some s') :
    ∃ t', step rl t a = some t' ∧ Sees client s' t' := by
  cases a with
  | check client' m =>
    obtain rfl : client' = client := ha
    rw [step] at hs
    split at hs
    · next henabled =>
      cases hs
      obtain ⟨hnow, hfresh⟩ := henabled
      obtain ⟨hreply, hcell⟩ := @Sees.check_eq rl s t client' h m
      have hfresh' : Fresh t client' m := by
        intro c hc
        rw [h.log] at hc
        exact hfresh c (List.mem_filter.mp hc).1
      refine ⟨_, if_pos ⟨h.now.trans hnow, hfresh'⟩, ⟨hcell, le_rfl, ?_, ?_⟩⟩
      · show (if (check rl t.redis client' m).1.allowed then t.unremoved
            else (client', m) :: t.unremoved) =
          (if (check rl s.redis client' m).1.allowed then s.unremoved
            else (client', m) :: s.unremoved).filter fun x => x.1 = client'
        rw [hreply, h.unremoved]
        split
        · rfl
        · rw [List.filter_cons_of_pos (by simp)]
      · show ⟨client', m, (check rl t.redis client' m).1.allowed⟩ :: t.log =
          (⟨client', m, (check rl s.redis client' m).1.allowed⟩ :: s.log).filter
            fun c => c.client = client'
        rw [hreply, h.log, List.filter_cons_of_pos (by simp)]
    · cases hs
  | zrem client' m =>
    obtain rfl : client' = client := ha
    rw [step] at hs
    split at hs
    · next hmem =>
      cases hs
      have hmem' : (client', m) ∈ t.unremoved := by
        rw [h.unremoved]
        exact List.mem_filter.mpr ⟨hmem, by simp⟩
      refine ⟨_, if_pos hmem', ⟨?_, h.now, ?_, h.log⟩⟩
      · dsimp only
        rw [zrem_self, zrem_self, h.cell]
      · dsimp only
        rw [h.unremoved, List.filter_filter, List.filter_filter]
        refine List.filter_congr fun x _ => ?_
        exact Bool.and_comm _ _
    · cases hs

/-- What another client does, the client does not see. -/
lemma Sees.other (h : Sees client s t) (ha : a.client ≠ client) (hs : step rl s a = some s') :
    Sees client s' t := by
  cases a with
  | check client' m =>
    have hne : client' ≠ client := ha
    rw [step] at hs
    split at hs
    · next henabled =>
      cases hs
      refine ⟨?_, h.now.trans henabled.1, ?_, ?_⟩
      · exact h.cell.trans (pipeline_of_ne hne.symm).symm
      · dsimp only
        rw [h.unremoved]
        split
        · rfl
        · rw [List.filter_cons_of_neg (by simpa using hne)]
      · dsimp only
        rw [h.log, List.filter_cons_of_neg (by simpa using hne)]
    · cases hs
  | zrem client' m =>
    have hne : client' ≠ client := ha
    rw [step] at hs
    split at hs
    · cases hs
      refine ⟨h.cell.trans (zrem_of_ne hne.symm).symm, h.now, ?_, h.log⟩
      dsimp only
      rw [h.unremoved, List.filter_filter]
      refine List.filter_congr fun x _ => ?_
      -- the member removed is not the client's
      by_cases hx : x.1 = client
      · have hother : x ≠ (client', m) := by
          rintro rfl
          exact hne hx
        simp [hx, hother]
      · simp [hx]
    · cases hs

/-- **Clients do not notice each other.** For every run of the limiter and every client: the
same run without all other clients is possible, decides the client's checks as they were decided,
and a further check of it, at any time from then on, gets the same reply. -/
theorem clients_isolated (rl : SlidingWindowRateLimiter) (client : String) (as : List Action)
    (s : System) (hrun : execute (step rl) (fun _ _ => true) System.init as = some s) :
    ∃ t, execute (step rl) (fun _ _ => true) System.init (as.filter (·.client = client)) = some t ∧
      t.log = s.log.filter (fun c => c.client = client) ∧
      ∀ m, (check rl t.redis client m).1 = (check rl s.redis client m).1 := by
  have hinit : Sees client System.init System.init := ⟨rfl, le_rfl, rfl, rfl⟩
  have hkeep : ∀ s t a s', Sees client s t → decide (a.client = client) = true →
      step rl s a = some s' → ∃ t', step rl t a = some t' ∧ Sees client s' t' :=
    fun _ _ _ _ hrel ha hs => hrel.own (of_decide_eq_true ha) hs
  have hdrop : ∀ s t a s', Sees client s t → decide (a.client = client) = false →
      step rl s a = some s' → Sees client s' t :=
    fun _ _ _ _ hrel ha hs => hrel.other (of_decide_eq_false ha) hs
  obtain ⟨t, ht, hsees⟩ := execute_purge hkeep hdrop hinit hrun
  exact ⟨t, ht, hsees.log, fun m => hsees.check_eq m |>.1⟩

/-- With a limit of one: the checks of "b" in between leave "a" where it was. -/
theorem clients_isolated_two : ∃ s t,
    execute (step ⟨1, le_refl 1⟩) (fun _ _ => true) System.init
      [.check "b" ⟨0, 0⟩, .check "a" ⟨1, 0⟩, .check "b" ⟨2, 1⟩] = some s ∧
    execute (step ⟨1, le_refl 1⟩) (fun _ _ => true) System.init [.check "a" ⟨1, 0⟩] = some t ∧
    t.log = s.log.filter (fun c => c.client = "a") := by
  obtain ⟨t, ht, hlog, -⟩ := clients_isolated ⟨1, le_refl 1⟩ "a"
    [.check "b" ⟨0, 0⟩, .check "a" ⟨1, 0⟩, .check "b" ⟨2, 1⟩] _ rfl
  exact ⟨_, t, rfl, ht, hlog⟩

end RateLimiter
end InferenceApi
