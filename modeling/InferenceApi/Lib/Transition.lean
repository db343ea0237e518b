import Mathlib

/-!
# Runs of a partial step function

A system is a function `step : σ → α → Option σ` that executes one action where it is
enabled. A property of schedules is a predicate on states and the actions taken in them;
`Run step ok s₀ s` is a run from `s₀` to `s` in which every action taken was `ok`.
-/

namespace Transition

variable {σ α : Type*}

/-- A finite run all of whose actions were permitted where they were taken. -/
inductive Run (step : σ → α → Option σ) (ok : σ → α → Prop) (s₀ : σ) : σ → Prop
  | refl : Run step ok s₀ s₀
  | tail {s s' : σ} {a : α} : Run step ok s₀ s → ok s a → step s a = some s' → Run step ok s₀ s'

/-- Every schedule. -/
def anyAction : σ → α → Prop := fun _ _ => True

variable {step : σ → α → Option σ} {ok ok' : σ → α → Prop} {s₀ s s' : σ}

/-- **The invariant rule.** What holds initially and is preserved by every permitted step
holds in every state a run reaches. -/
theorem Run.invariant {P : σ → Prop} (h : Run step ok s₀ s) (h0 : P s₀)
    (hstep : ∀ s a s', P s → ok s a → step s a = some s' → P s') : P s := by
  induction h with
  | refl => exact h0
  | tail _ hok hs ih => exact hstep _ _ _ ih hok hs

/-- The invariant rule with the run so far at hand, to use invariants already proved. -/
theorem Run.invariant_of_run {P : σ → Prop} (h : Run step ok s₀ s) (h0 : P s₀)
    (hstep : ∀ s a s', Run step ok s₀ s → P s → ok s a → step s a = some s' → P s') : P s := by
  induction h with
  | refl => exact h0
  | tail hr hok hs ih => exact hstep _ _ _ hr ih hok hs

/-- A run under a stricter schedule is a run under a laxer one. -/
theorem Run.mono (h : Run step ok s₀ s) (hle : ∀ s a, ok s a → ok' s a) :
    Run step ok' s₀ s := by
  induction h with
  | refl => exact .refl
  | tail _ hok hs ih => exact .tail ih (hle _ _ hok) hs

/-- Forget the restriction on schedules. -/
theorem Run.any (h : Run step ok s₀ s) : Run step anyAction s₀ s := h.mono fun _ _ _ => trivial

/-- Execute a list of actions, checking that each is enabled and satisfies `ok`. -/
def execute (step : σ → α → Option σ) (ok : σ → α → Bool) : σ → List α → Option σ
  | s, [] => some s
  | s, a :: as =>
    if ok s a then
      match step s a with
      | some s' => execute step ok s' as
      | none => none
    else none

/-- What executes is a run, of the actions in the list. -/
theorem run_of_execute {ok : σ → α → Bool} {P : α → Prop} {as : List α}
    (h0 : Run step (fun s a => ok s a ∧ P a) s₀ s) (has : ∀ a ∈ as, P a)
    (h : execute step ok s as = some s') : Run step (fun s a => ok s a ∧ P a) s₀ s' := by
  induction as generalizing s with
  | nil =>
    rw [execute, Option.some.injEq] at h
    exact h ▸ h0
  | cons a as ih =>
    rw [execute] at h
    split at h
    · next hok =>
      split at h
      · next s₁ hs =>
        exact ih (h0.tail ⟨hok, has a List.mem_cons_self⟩ hs)
          (fun b hb => has b (List.mem_cons_of_mem _ hb)) h
      · cases h
    · cases h

/-- The state a list of actions leads to, with what can be computed of it. -/
theorem exists_run_of_execute {ok : σ → α → Bool} {P : α → Prop} {as : List α} {q : σ → Bool}
    (has : ∀ a ∈ as, P a) (h : (execute step ok s₀ as).any q = true) :
    ∃ s, Run step (fun s a => ok s a ∧ P a) s₀ s ∧ q s = true := by
  cases hs : execute step ok s₀ as with
  | none => simp [hs] at h
  | some s =>
    rw [hs] at h
    exact ⟨s, run_of_execute .refl has hs, h⟩

/-- The last action of a list is executed after the others. -/
lemma execute_concat {ok : σ → α → Bool} (s : σ) (as : List α) (a : α) :
    execute step ok s (as ++ [a]) =
      (execute step ok s as).bind fun s => if ok s a then step s a else none := by
  induction as generalizing s with
  | nil =>
    simp only [List.nil_append, execute, Option.bind_some]
    split
    · cases step s a <;> rfl
    · rfl
  | cons b as ih =>
    rw [List.cons_append, execute, execute]
    split
    · cases step s b with
      | none => rfl
      | some s₁ => exact ih s₁
    · rfl

end Transition
