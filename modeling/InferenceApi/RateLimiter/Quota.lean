import InferenceApi.Lib.Simulation
import InferenceApi.RateLimiter.Replies

/-!
# What `X-RateLimit-Remaining` promises

A reply says how many more requests the client may make. Other clients cannot spend them, time
only adds to them, and a removal that is still outstanding can only free more: so as long as the
client itself has not made that many checks, its next one is allowed.
-/

namespace InferenceApi
namespace RateLimiter

open SlidingWindow Transition

/-- How many checks of the client have been decided. -/
def checksOf (s : System) (client : String) : ℕ :=
  s.log.countP fun c => c.client = client

variable {rl : SlidingWindowRateLimiter} {s s' s₁ s₂ : System} {client : String} {m : Member}
  {a : Action} {t t' : ℚ}

/-! ## What a step does to the books -/

/-- A check is logged, and if it was declined its removal is outstanding. -/
lemma of_step_check (h : step rl s (.check client m) = some s') :
    (s.now ≤ m.now ∧ Fresh s client m) ∧ s'.now = m.now ∧
      s'.log = ⟨client, m, (check rl s.redis client m).1.allowed⟩ :: s.log ∧
      s'.unremoved = if (check rl s.redis client m).1.allowed then s.unremoved
        else (client, m) :: s.unremoved := by
  rw [step] at h
  split at h
  · next henabled =>
    cases h
    exact ⟨henabled, rfl, rfl, rfl⟩
  · cases h

/-- A removal is no longer outstanding. -/
lemma of_step_zrem (h : step rl s (.zrem client m) = some s') :
    s'.now = s.now ∧ s'.log = s.log ∧
      s'.unremoved = s.unremoved.filter fun x => x ≠ (client, m) := by
  rw [step] at h
  split at h
  · cases h
    exact ⟨rfl, rfl, rfl⟩
  · cases h

/-! ## What counts later -/

/-- Nothing begins to count with time. -/
lemma counting_length_anti (htt : t ≤ t') :
    (counting s client t').length ≤ (counting s client t).length := by
  refine List.Sublist.length_le (List.monotone_filter_right _ fun x hx => ?_)
  exact live_of_later htt hx

/-- What a step adds to what counts is at most the client's own check. -/
lemma counting_step (h : step rl s a = some s') (client : String) (t : ℚ) :
    (counting s' client t).length + checksOf s client ≤
      (counting s client t).length + checksOf s' client := by
  cases a with
  | check client' m =>
    obtain ⟨-, -, hlog, hunremoved⟩ := of_step_check h
    rw [counting, counting, checksOf, checksOf, hlog, hunremoved]
    by_cases hclient : client' = client
    · subst hclient
      have hperm := counted_after_check (s := s) client' m (check rl s.redis client' m).1.allowed
      have hlength := (hperm.filter fun x => minute.live (t - x.now)).length_eq
      rw [List.countP_cons_of_pos (by simp), recent, hlength, List.filter_cons]
      split
      · rw [List.length_cons, recent]
        omega
      · rw [recent]
        omega
    · obtain ⟨hadm, hling⟩ := counted_after_check_of_ne s hclient m
        (check rl s.redis client' m).1.allowed
      rw [List.countP_cons_of_neg (by simpa using hclient), hadm, hling]
  | zrem client' m =>
    obtain ⟨-, hlog, hunremoved⟩ := of_step_zrem h
    rw [counting, counting, checksOf, checksOf, hlog, hunremoved]
    -- the removal takes a member away, if anything
    have hsublist : (lingering (s.unremoved.filter fun x => x ≠ (client', m)) client).Sublist
        (lingering s.unremoved client) := (List.filter_sublist.filter _).map _
    have hrecent := (hsublist.append_left (admitted s.log client)).filter
      fun x => minute.live (t - x.now)
    exact Nat.add_le_add_right hrecent.length_le _

/-- In a whole run, what counts grows by no more than the client's own checks. -/
lemma counting_run (h : Run (step rl) anyAction s₁ s₂) (client : String) (t : ℚ) :
    (counting s₂ client t).length + checksOf s₁ client ≤
      (counting s₁ client t).length + checksOf s₂ client := by
  induction h with
  | refl => exact le_rfl
  | tail _ _ hstep ih =>
    have hone := counting_step hstep client t
    omega

/-- A check is not forgotten. -/
lemma checksOf_le_of_run (h : Run (step rl) anyAction s₁ s₂) (client : String) :
    checksOf s₁ client ≤ checksOf s₂ client := by
  induction h with
  | refl => exact le_rfl
  | @tail s s' a _ _ hstep ih =>
    refine ih.trans ?_
    cases a with
    | check client' m =>
      rw [checksOf, checksOf, (of_step_check hstep).2.2.1, List.countP_cons]
      exact Nat.le_add_right _ _
    | zrem client' m => rw [checksOf, checksOf, (of_step_zrem hstep).2.1]

lemma now_le_of_run (h : Run (step rl) anyAction s₁ s₂) : s₁.now ≤ s₂.now := by
  induction h with
  | refl => exact le_rfl
  | @tail s s' a _ _ hstep ih =>
    refine ih.trans ?_
    cases a with
    | check client m =>
      obtain ⟨⟨hnow, -⟩, hnow', -⟩ := of_step_check hstep
      exact hnow.trans_eq hnow'.symm
    | zrem client m => exact (of_step_zrem hstep).1.ge

/-! ## Replies -/

/-- What the limiter has let through of a client counts. -/
lemma allowedIn_le_counting (s : System) (client : String) (t : ℚ) :
    (allowedIn s client t).length ≤ (counting s client t).length := by
  rw [allowedIn_length, counting, recent_append, List.length_append]
  refine le_trans (List.Sublist.length_le (List.monotone_filter_right _ fun x hx => ?_))
    (Nat.le_add_right _ _)
  rw [Bool.and_eq_true] at hx
  exact hx.2

/-- What remains, of a reply. -/
lemma Inv.remaining_eq (hinv : Inv rl s) (hnow : s.now ≤ m.now) (hfresh : Fresh s client m) :
    (check rl s.redis client m).1.remaining =
      max 0 ((rl.limit : ℤ) - ((counting s client m.now).length + 1 : ℕ)) := by
  obtain ⟨_, o, -, ho⟩ := hinv.oldest hnow hfresh
  rw [hinv.check_eq hnow hfresh ho]
  split
  · next hlt =>
    dsimp only
    omega
  · next hge =>
    dsimp only
    omega

/-- **The advertised rest is there.** In every run, with removals at any point or never: a reply
advertises no more than the limit has left above what was let through of the client in the last
minute. And from an allowed check on, whatever happens, as long as the client has made fewer
checks since than were advertised, its next one is allowed, at any time, and advertises what is
left. There is one clock: the pipelines run in the order of their timestamps. -/
theorem remaining_honoured (rl : SlidingWindowRateLimiter) (s : System) (hs : Reachable rl s)
    (client : String) (m : Member) (s₁ : System) (hstep : step rl s (.check client m) = some s₁) :
    (0 ≤ (check rl s.redis client m).1.remaining ∧
      (check rl s.redis client m).1.remaining + (allowedIn s₁ client m.now).length ≤ rl.limit) ∧
    ∀ s₂ m', Run (step rl) anyAction s₁ s₂ → s₂.now ≤ m'.now → Fresh s₂ client m' →
      checksOf s₂ client < checksOf s₁ client + (check rl s.redis client m).1.remaining →
        (check rl s₂.redis client m').1.allowed = true ∧
        checksOf s₁ client + (check rl s.redis client m).1.remaining ≤
          checksOf s₂ client + 1 + (check rl s₂.redis client m').1.remaining := by
  have hinv := inv_of_reachable hs
  obtain ⟨⟨hnow, hfresh⟩, hnow₁, hlog, -⟩ := of_step_check hstep
  have hone := counting_step hstep client m.now
  have hchecks : checksOf s₁ client = checksOf s client + 1 := by
    rw [checksOf, hlog]
    exact List.countP_cons_of_pos (by simp)
  have hremaining := hinv.remaining_eq hnow hfresh
  have hinv₁ := inv_of_reachable (hs.tail trivial hstep)
  refine ⟨⟨?_, ?_⟩, ?_⟩
  · rw [hremaining]
    exact le_max_left _ _
  · rw [hremaining]
    have hallowed := allowedIn_le_counting s₁ client m.now
    have hlimit : (allowedIn s₁ client m.now).length ≤ rl.limit := by
      rw [allowedIn_length]
      exact window_length_le (hinv₁.bounded client) m.now
    omega
  · intro s₂ m' hrun hnow' hfresh' hfew
    have hinv₂ := inv_of_reachable (Run.trans (hs.tail trivial hstep) hrun)
    have hrest := hinv₂.remaining_eq hnow' hfresh'
    have hgrown := counting_run hrun client m'.now
    have hsince := checksOf_le_of_run hrun client
    have hlater : m.now ≤ m'.now := hnow₁.symm.le.trans ((now_le_of_run hrun).trans hnow')
    have holder := @counting_length_anti s₁ client _ _ hlater
    rw [hinv₂.allowed_iff hnow' hfresh', hrest]
    rw [hremaining] at hfew ⊢
    omega

/-- A limit of two, one check made, and another client's after it. -/
theorem remaining_honoured_two :
    (check { limit := 2 } (System.after { limit := 2 }
      [.check "a" ⟨0, 0⟩, .check "b" ⟨10, 0⟩]).redis "a" ⟨30, 1⟩).1.allowed = true := by
  have hfirst : step { limit := 2 } System.init (.check "a" ⟨0, 0⟩) =
      some (System.after { limit := 2 } [.check "a" ⟨0, 0⟩]) := rfl
  have hsecond : step { limit := 2 } (System.after { limit := 2 } [.check "a" ⟨0, 0⟩])
      (.check "b" ⟨10, 0⟩) =
        some (System.after { limit := 2 } [.check "a" ⟨0, 0⟩, .check "b" ⟨10, 0⟩]) := rfl
  refine ((remaining_honoured { limit := 2 } System.init .refl "a" ⟨0, 0⟩ _ hfirst).2 _ ⟨30, 1⟩
    (.tail .refl trivial hsecond) ?_ ?_ ?_).1
  · decide +kernel
  · decide +kernel
  · decide +kernel

end RateLimiter
end InferenceApi
