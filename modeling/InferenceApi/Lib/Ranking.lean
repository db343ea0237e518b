import InferenceApi.Lib.Transition

/-!
# Ranking functions

A rank that no step raises and every marked step lowers bounds the marked steps of a run,
whatever the others do in between.
-/

namespace Transition

variable {σ α : Type*} {step : σ → α → Option σ} {marked : α → Bool} {rank : σ → ℕ}

/-- No step raises the rank, and a marked one lowers it. -/
def Ranks (step : σ → α → Option σ) (marked : α → Bool) (rank : σ → ℕ) : Prop :=
  ∀ s a s', step s a = some s' → rank s' + (if marked a then 1 else 0) ≤ rank s

/-- **The ranking rule.** The marked steps of a run and what is left of the rank. -/
theorem Ranks.countP_add_le (h : Ranks step marked rank) {ok : σ → α → Bool} {as : List α}
    {s s' : σ} (hrun : execute step ok s as = some s') : as.countP marked + rank s' ≤ rank s := by
  induction as generalizing s with
  | nil =>
    rw [execute, Option.some.injEq] at hrun
    subst hrun
    rw [List.countP_nil, Nat.zero_add]
  | cons a as ih =>
    rw [execute] at hrun
    split at hrun
    · split at hrun
      · next s₁ hs =>
        have hfirst := h s a s₁ hs
        have hrest := ih hrun
        rw [List.countP_cons]
        omega
      · cases hrun
    · cases hrun

end Transition
