import InferenceApi.Lib.Double
import InferenceApi.Services.Events

/-!
# The usage recorder

`record_usage_metrics` of `app/main.py`. Its counters are those of `prometheus_client` and hold
doubles: totals are rounded from `2 ^ 53` on, and a count that is too large for a double is not
added at all. Where a count is refused, what comes after it is not recorded either.
-/

namespace InferenceApi

/-! ## Counters -/

/-- A value that can be added to a number. -/
def asNumber : Json → Option PyNum
  | .bool b => some (.int (if b then 1 else 0))
  | .num n => some n
  | _ => none

/-- `value + amount`. -/
def plus (value : PyFloat) (amount : PyNum) : Except Exn PyFloat :=
  match amount.toFloat with
  | some x => .ok (value.add x)
  | none => .error (.other "OverflowError")

/-- `Counter.inc` of `prometheus_client`, which is not part of the repository: from the value of a
counter and an amount its new value. What is assumed of it is that a counter is not decremented,
and that other amounts are added to the float it holds. -/
structure Counter where
  inc : PyFloat → Json → Except Exn PyFloat
  /-- "Counters can only be incremented by non-negative amounts." -/
  inc_of_neg : ∀ value amount n, asNumber amount = some n → n.isNeg = true →
    inc value amount = .error (.other "ValueError")
  inc_of_nonneg : ∀ value amount n, asNumber amount = some n → n.isNeg = false →
    inc value amount = plus value n
  /-- What is no number cannot be compared with zero. -/
  inc_of_not_number : ∀ value amount, asNumber amount = none →
    inc value amount = .error .typeError

/-- A counter that does what is assumed. -/
def Counter.plain : Counter where
  inc value amount :=
    match asNumber amount with
    | none => .error .typeError
    | some n => if n.isNeg then .error (.other "ValueError") else plus value n
  inc_of_neg value amount n hn hneg := by
    rw [hn]
    exact if_pos hneg
  inc_of_nonneg value amount n hn hneg := by
    rw [hn]
    exact if_neg (by simp [hneg])
  inc_of_not_number value amount hn := by rw [hn]

/-! ## The recorder -/

/-- The settings `_estimate_cost_usd` reads; both have `ge=0.0`. -/
structure Prices where
  llmPriceInputPer1kTokensUsd : PyFloat := .ofRat (15 / 100000)
  llmPriceOutputPer1kTokensUsd : PyFloat := .ofRat (6 / 10000)
  input_nonneg : llmPriceInputPer1kTokensUsd.isNonneg = true := by decide +kernel
  output_nonneg : llmPriceOutputPer1kTokensUsd.isNonneg = true := by decide +kernel

/-- `value / 1000`. -/
def perThousand (value : Json) : Except Exn PyFloat :=
  match asNumber value with
  | none => .error .typeError
  | some n =>
    match n.divNat 1000 with
    | some x => .ok x
    | none => .error (.other "OverflowError")

/-- `_estimate_cost_usd`. -/
def estimateCostUsd (prices : Prices) (usage : Usage) : Except Exn PyFloat := do
  let input ← perThousand usage.tokensIn
  let output ← perThousand usage.tokensOut
  return (input.mul prices.llmPriceInputPer1kTokensUsd).add
    (output.mul prices.llmPriceOutputPer1kTokensUsd)

/-- The counters of a model: `TOKENS` with its label `type`, and `COST_ESTIMATED`. -/
inductive UsageCounter
  | input
  | output
  | costEstimated
deriving DecidableEq

/-- Their values, by model. -/
abbrev Totals := String → UsageCounter → PyFloat

/-- Nothing has been recorded. -/
def Totals.zero : Totals := fun _ _ => .rat 0

/-- The totals with one value changed. -/
def Totals.set (totals : Totals) (model : String) (label : UsageCounter) (value : PyFloat) :
    Totals :=
  fun model' label' => if model' = model ∧ label' = label then value else totals model' label'

variable (counter : Counter) (prices : Prices)

/-- `labels(model=model, ...).inc(amount)`. -/
def Totals.inc (totals : Totals) (model : String) (label : UsageCounter) (amount : Json) :
    Totals × Except Exn Unit :=
  match counter.inc (totals model label) amount with
  | .error e => (totals, .error e)
  | .ok value => (totals.set model label value, .ok ())

/-- `record_usage_metrics`: the totals after the call, and whether it raised. -/
def recordUsageMetrics (totals : Totals) (model : String) (usage : Usage) :
    Totals × Except Exn Unit :=
  match totals.inc counter model .input usage.tokensIn with
  | (totals, .error e) => (totals, .error e)
  | (totals, .ok ()) =>
    match totals.inc counter model .output usage.tokensOut with
    | (totals, .error e) => (totals, .error e)
    | (totals, .ok ()) =>
      match estimateCostUsd prices usage with
      | .error e => (totals, .error e)
      | .ok cost => totals.inc counter model .costEstimated (.num (.float cost))

/-- What `infer` sees of it. -/
def recordUsageOutcome (model : String) (usage : Usage) : Except Exn Unit :=
  (recordUsageMetrics counter prices .zero model usage).2

/-! ## What it raises -/

section Outcome

variable {counter prices} {totals totals' : Totals} {model : String} {label : UsageCounter}
  {amount : Json} {usage : Usage} {m n : ℤ}

/-- What a counter does, spelled out. -/
lemma Totals.inc_eq (totals : Totals) : totals.inc counter model label amount =
    match asNumber amount with
    | none => (totals, .error .typeError)
    | some n =>
      if n.isNeg then (totals, .error (.other "ValueError"))
      else
        match n.toFloat with
        | none => (totals, .error (.other "OverflowError"))
        | some x => (totals.set model label ((totals model label).add x), .ok ()) := by
  unfold Totals.inc
  cases hnumber : asNumber amount with
  | none => rw [counter.inc_of_not_number _ _ hnumber]
  | some n =>
    dsimp only
    cases hneg : n.isNeg with
    | true =>
      rw [counter.inc_of_neg _ _ n hnumber hneg]
      rfl
    | false =>
      rw [counter.inc_of_nonneg _ _ n hnumber hneg, plus]
      cases n.toFloat <;> rfl

/-- Whether an amount is refused does not depend on the value. -/
lemma Totals.inc_cases (amount : Json) :
    (∃ e, ∀ totals : Totals, totals.inc counter model label amount = (totals, .error e)) ∨
      ∃ x, ∀ totals : Totals, totals.inc counter model label amount =
        (totals.set model label ((totals model label).add x), .ok ()) := by
  simp only [Totals.inc_eq]
  cases asNumber amount with
  | none => exact Or.inl ⟨_, fun _ => rfl⟩
  | some n =>
    dsimp only
    cases n.isNeg with
    | true => exact Or.inl ⟨_, fun _ => rfl⟩
    | false =>
      cases n.toFloat with
      | none => exact Or.inl ⟨_, fun _ => rfl⟩
      | some x => exact Or.inr ⟨x, fun _ => rfl⟩

/-- So whether the recorder raises does not depend on what was recorded before. -/
lemma recordUsageMetrics_outcome (totals : Totals) (model : String) (usage : Usage) :
    (recordUsageMetrics counter prices totals model usage).2 =
      recordUsageOutcome counter prices model usage := by
  unfold recordUsageOutcome recordUsageMetrics
  rcases @Totals.inc_cases counter model .input usage.tokensIn with ⟨e, h⟩ | ⟨x, h⟩
  · rw [h, h]
  · rw [h, h]
    dsimp only
    rcases @Totals.inc_cases counter model .output usage.tokensOut with ⟨e, h⟩ | ⟨y, h⟩
    · rw [h, h]
    · rw [h, h]
      dsimp only
      cases estimateCostUsd prices usage with
      | error e => rfl
      | ok cost =>
        dsimp only
        rcases @Totals.inc_cases counter model .costEstimated (.num (.float cost)) with
          ⟨e, h⟩ | ⟨z, h⟩
        · rw [h, h]
        · rw [h, h]

/-! ## Counts -/

/-- A count that a counter takes: it is not negative, and there is a double for it. -/
def Metered (n : ℤ) : Prop := 0 ≤ n ∧ n < PyFloat.limit

/-- What recording two counts leaves. -/
def Totals.recorded (totals : Totals) (model : String) (m n : ℤ) (cost : PyFloat) : Totals :=
  let input := (totals model .input).add (.rat (PyFloat.rounded m))
  let output := (totals model .output).add (.rat (PyFloat.rounded n))
  ((totals.set model .input input).set model .output output).set model .costEstimated
    ((totals model .costEstimated).add cost)

lemma toFloat_of_metered (h : Metered n) :
    (PyNum.int n).toFloat = some (.rat (PyFloat.rounded n)) :=
  PyFloat.finite_of_lt (by exact_mod_cast h.1) (by exact_mod_cast h.2)

lemma Totals.inc_of_toFloat {amount : PyNum} {x : PyFloat} (hneg : amount.isNeg = false)
    (hfloat : amount.toFloat = some x) (totals : Totals) :
    totals.inc counter model label (.num amount) =
      (totals.set model label ((totals model label).add x), .ok ()) := by
  rw [Totals.inc_eq]
  simp only [asNumber, hneg, hfloat, Bool.false_eq_true, if_false]

lemma Totals.inc_of_metered (h : Metered n) (totals : Totals) :
    totals.inc counter model label (.num (.int n)) =
      (totals.set model label ((totals model label).add (.rat (PyFloat.rounded n))), .ok ()) :=
  have hneg : (PyNum.int n).isNeg = false := decide_eq_false h.1.not_gt
  inc_of_toFloat hneg (toFloat_of_metered h) totals

lemma Totals.inc_of_not_metered (h : ¬ Metered n) (totals : Totals) :
    ∃ name, totals.inc counter model label (.num (.int n)) = (totals, .error (.other name)) := by
  rw [Totals.inc_eq]
  dsimp only [asNumber]
  cases hneg : (PyNum.int n).isNeg with
  | true => exact ⟨"ValueError", rfl⟩
  | false =>
    have hnonneg : 0 ≤ n := not_lt.mp (of_decide_eq_false hneg)
    have hlimit : PyFloat.limit ≤ n := not_lt.mp fun hlt => h ⟨hnonneg, hlt⟩
    have hnone : (PyNum.int n).toFloat = none :=
      PyFloat.finite_of_le (by exact_mod_cast hnonneg) (by exact_mod_cast hlimit)
    rw [hnone]
    exact ⟨"OverflowError", rfl⟩

lemma perThousand_of_metered (h : Metered n) :
    ∃ x, perThousand (.num (.int n)) = .ok x ∧ x.isNeg = false := by
  have hnonneg : (0 : ℚ) ≤ n := by exact_mod_cast h.1
  have hlimit : (n : ℚ) < PyFloat.limit := by exact_mod_cast h.2
  have hquotient : (0 : ℚ) ≤ n / (1000 : ℕ) := div_nonneg hnonneg (Nat.cast_nonneg _)
  have hsmaller : (n : ℚ) / (1000 : ℕ) ≤ n := div_le_self hnonneg (by norm_num)
  refine ⟨.rat (PyFloat.rounded (n / (1000 : ℕ))), ?_,
    decide_eq_false (PyFloat.rounded_nonneg hquotient).not_gt⟩
  rw [perThousand, asNumber]
  dsimp only
  rw [PyNum.divNat, PyFloat.finite_of_lt hquotient (hsmaller.trans_lt hlimit)]

/-- The estimate of a cost can be recorded. -/
lemma estimateCostUsd_of_metered (prices : Prices) (hm : Metered m) (hn : Metered n) :
    ∃ cost, estimateCostUsd prices ⟨.num (.int m), .num (.int n)⟩ = .ok cost ∧
      cost.isNeg = false := by
  obtain ⟨x, hx, hxneg⟩ := perThousand_of_metered hm
  obtain ⟨y, hy, hyneg⟩ := perThousand_of_metered hn
  refine ⟨_, bind_eq_ok.mpr ⟨x, hx, bind_eq_ok.mpr ⟨y, hy, rfl⟩⟩, ?_⟩
  exact PyFloat.isNeg_add (PyFloat.isNeg_mul hxneg (PyFloat.isNeg_of_isNonneg prices.input_nonneg))
    (PyFloat.isNeg_mul hyneg (PyFloat.isNeg_of_isNonneg prices.output_nonneg))

/-- Both counts are added, and a cost. -/
theorem recordUsageMetrics_of_metered (totals : Totals) (model : String) (hm : Metered m)
    (hn : Metered n) : ∃ cost,
      recordUsageMetrics counter prices totals model ⟨.num (.int m), .num (.int n)⟩ =
        (totals.recorded model m n cost, .ok ()) := by
  obtain ⟨cost, hcost, hcostNeg⟩ := estimateCostUsd_of_metered prices hm hn
  have hneg : (PyNum.float cost).isNeg = false := hcostNeg
  refine ⟨cost, ?_⟩
  unfold recordUsageMetrics
  rw [Totals.inc_of_metered hm]
  dsimp only
  rw [Totals.inc_of_metered hn]
  dsimp only
  rw [hcost]
  dsimp only
  rw [Totals.inc_of_toFloat hneg rfl]
  simp [Totals.recorded, Totals.set]

/-- The recorder of the application accepts exactly such counts. -/
theorem recordUsageOutcome_int (counter : Counter) (prices : Prices) (model : String) (m n : ℤ) :
    (Metered m ∧ Metered n ∧
        recordUsageOutcome counter prices model ⟨.num (.int m), .num (.int n)⟩ = .ok ()) ∨
      (¬ (Metered m ∧ Metered n) ∧ ∃ name,
        recordUsageOutcome counter prices model ⟨.num (.int m), .num (.int n)⟩ =
          .error (.other name)) := by
  by_cases hm : Metered m
  · by_cases hn : Metered n
    · obtain ⟨cost, h⟩ := recordUsageMetrics_of_metered .zero model hm hn
      exact Or.inl ⟨hm, hn, congrArg Prod.snd h⟩
    · obtain ⟨name, h⟩ := Totals.inc_of_not_metered hn
        (Totals.zero.set model .input ((Totals.zero model .input).add (.rat (PyFloat.rounded m))))
      refine Or.inr ⟨fun hboth => hn hboth.2, name, ?_⟩
      unfold recordUsageOutcome recordUsageMetrics
      rw [Totals.inc_of_metered hm]
      dsimp only
      rw [h]
  · obtain ⟨name, h⟩ := Totals.inc_of_not_metered hm .zero
    refine Or.inr ⟨fun hboth => hm hboth.1, name, ?_⟩
    unfold recordUsageOutcome recordUsageMetrics
    rw [h]

/-- Small totals are exact. -/
lemma add_rounded (hm : 0 ≤ m) (hn : 0 ≤ n) (h : m + n ≤ 2 ^ 53) :
    (PyFloat.rat m).add (.rat (PyFloat.rounded n)) = .rat (m + n : ℤ) := by
  have hsum := PyFloat.ofRat_intCast (add_nonneg hm hn) h
  rw [PyFloat.rounded_intCast hn (by omega)]
  push_cast at hsum ⊢
  exact hsum

/-! ## Other models -/

lemma Totals.inc_of_ne {model' : String} (h : model' ≠ model) (totals : Totals) :
    (totals.inc counter model label amount).1 model' = totals model' := by
  unfold Totals.inc
  split
  · rfl
  · funext label'
    exact if_neg fun hsame => h hsame.1

/-- The totals of one model are not those of another. -/
lemma recordUsageMetrics_of_ne {model' : String} (h : model' ≠ model) (totals : Totals) :
    (recordUsageMetrics counter prices totals model usage).1 model' = totals model' := by
  unfold recordUsageMetrics
  have hin : (totals.inc counter model .input usage.tokensIn).1 model' = totals model' :=
    Totals.inc_of_ne h totals
  split
  · next htotals =>
    rw [htotals] at hin
    exact hin
  · next totals₁ htotals =>
    rw [htotals] at hin
    have hout : (totals₁.inc counter model .output usage.tokensOut).1 model' = totals₁ model' :=
      Totals.inc_of_ne h totals₁
    split
    · next htotals =>
      rw [htotals] at hout
      exact hout.trans hin
    · next totals₂ htotals =>
      rw [htotals] at hout
      split
      · exact hout.trans hin
      · exact (Totals.inc_of_ne h totals₂).trans (hout.trans hin)

end Outcome

end InferenceApi
