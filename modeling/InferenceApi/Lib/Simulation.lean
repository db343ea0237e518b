import InferenceApi.Lib.Transition

/-!
# Parts and parties of a system

A system made of parts runs in each part as the part would by itself, if every step is a step of
the part or leaves it as it was. And a party does not notice the others, if what it can see of a
run is kept when their actions are left out.
-/

namespace Transition

variable {σ τ α β : Type*} {step : σ → α → Option σ} {step' : τ → β → Option τ} {f : σ → τ}
  {ok : σ → α → Prop} {s₀ s : σ}

/-- Runs compose. -/
theorem Run.trans {s' : σ} (h : Run step ok s₀ s) (h' : Run step ok s s') : Run step ok s₀ s' := by
  induction h' with
  | refl => exact h
  | tail _ hok hs ih => exact ih.tail hok hs

/-- What is permitted in the states of a run may be looked at in those states only. -/
theorem Run.mono_of_run {ok' : σ → α → Prop} (h : Run step ok s₀ s)
    (hle : ∀ s a, Run step ok s₀ s → ok s a → ok' s a) : Run step ok' s₀ s := by
  induction h with
  | refl => exact .refl
  | tail hrun hok hs ih => exact ih.tail (hle _ _ hrun hok) hs

/-- Every step of the whole is a step of the part or does nothing to it. -/
def Projects (step : σ → α → Option σ) (step' : τ → β → Option τ) (f : σ → τ) : Prop :=
  ∀ s a s', step s a = some s' → f s' = f s ∨ ∃ b, step' (f s) b = some (f s')

/-- **The projection rule.** A run of the whole is a run of the part. -/
theorem Projects.run (h : Projects step step' f) (hrun : Run step ok s₀ s) :
    Run step' anyAction (f s₀) (f s) := by
  induction hrun with
  | refl => exact .refl
  | tail _ _ hs ih =>
    rcases h _ _ _ hs with hsame | ⟨b, hb⟩
    · rw [hsame]
      exact ih
    · exact ih.tail trivial hb

/-- **The simulation rule.** Where every permitted step can be followed by permitted steps of
another system so that a relation is kept, so can every run. -/
theorem Run.simulate {ok' : τ → β → Prop} {R : σ → τ → Prop} {t₀ : τ} (h : Run step ok s₀ s)
    (hstep : ∀ s t a s', R s t → ok s a → step s a = some s' →
      ∃ t', Run step' ok' t t' ∧ R s' t') (hrel : R s₀ t₀) :
    ∃ t, Run step' ok' t₀ t ∧ R s t := by
  induction h with
  | refl => exact ⟨t₀, .refl, hrel⟩
  | tail _ hok hs ih =>
    obtain ⟨t, ht, hrel'⟩ := ih
    obtain ⟨t', ht', hrel''⟩ := hstep _ t _ _ hrel' hok hs
    exact ⟨t', ht.trans ht', hrel''⟩

/-- **The purging rule.** A relation that is kept by the actions of one party on both sides, and
by the others' on one side only, relates a run to the same run without the others. -/
theorem execute_purge {step' : τ → α → Option τ} {R : σ → τ → Prop} {keep : α → Bool}
    (hkeep : ∀ s t a s', R s t → keep a = true → step s a = some s' →
      ∃ t', step' t a = some t' ∧ R s' t')
    (hdrop : ∀ s t a s', R s t → keep a = false → step s a = some s' → R s' t)
    {as : List α} {s s' : σ} {t : τ} (hrel : R s t)
    (hrun : execute step (fun _ _ => true) s as = some s') :
    ∃ t', execute step' (fun _ _ => true) t (as.filter keep) = some t' ∧ R s' t' := by
  induction as generalizing s t with
  | nil =>
    rw [execute, Option.some.injEq] at hrun
    subst hrun
    exact ⟨t, rfl, hrel⟩
  | cons a as ih =>
    rw [execute, if_pos rfl] at hrun
    split at hrun
    · next s₁ hs =>
      cases hk : keep a with
      | true =>
        obtain ⟨t₁, ht, hrel₁⟩ := hkeep s t a s₁ hrel hk hs
        obtain ⟨t', ht', hrel'⟩ := ih hrel₁ hrun
        refine ⟨t', ?_, hrel'⟩
        rw [List.filter_cons_of_pos hk, execute, if_pos rfl, ht]
        exact ht'
      | false =>
        rw [List.filter_cons_of_neg (by rw [hk]; exact Bool.false_ne_true)]
        exact ih (hdrop s t a s₁ hrel hk hs) hrun
    · cases hrun

/-- **The lockstep rule.** Where `f` commutes with the steps in the states of a run, it commutes
with the execution of a list. -/
theorem execute_map {step' : τ → α → Option τ} {P : α → Prop} {as : List α}
    (hstep : ∀ s a, Run step (fun _ a => P a) s₀ s → P a → step' (f s) a = (step s a).map f)
    (has : ∀ a ∈ as, P a) (hrun : Run step (fun _ a => P a) s₀ s) :
    execute step' (fun _ _ => true) (f s) as =
      (execute step (fun _ _ => true) s as).map f := by
  induction as generalizing s with
  | nil => rfl
  | cons a as ih =>
    have ha := has a List.mem_cons_self
    rw [execute, execute, if_pos rfl, if_pos rfl, hstep s a hrun ha]
    cases hs : step s a with
    | none => rfl
    | some s' => exact ih (fun b hb => has b (List.mem_cons_of_mem _ hb)) (hrun.tail ha hs)

end Transition
