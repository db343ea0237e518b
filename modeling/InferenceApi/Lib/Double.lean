import InferenceApi.Lib.Json

/-!
# Doubles

Finite doubles are rationals here, so that a result is the exact one, rounded: to a multiple of the
distance between the doubles of its size, of two that are as near to the even one. Integers up to
`2 ^ 53` are not rounded, and what would have to be `2 ^ 1024` is an infinity.
-/

namespace PyFloat

/-! ## Rounding -/

/-- The integer nearest to `q`, of two the even one. -/
def halfEven (q : ℚ) : ℤ :=
  if Int.fract q < 1 / 2 ∨ Int.fract q = 1 / 2 ∧ Even ⌊q⌋ then ⌊q⌋ else ⌊q⌋ + 1

/-- The distance between the doubles of the size of `q`. -/
def ulp (q : ℚ) : ℚ := 2 ^ max (Int.log 2 |q| - 52) (-1074)

/-- The multiple of the distance that is nearest to `q`. -/
def rounded (q : ℚ) : ℚ := halfEven (q / ulp q) * ulp q

/-- The double for `q`. -/
def ofRat (q : ℚ) : PyFloat :=
  if 2 ^ (1024 : ℤ) ≤ |rounded q| then .inf (q < 0)
  else if rounded q = 0 ∧ q < 0 then .negZero
  else .rat (rounded q)

/-- A float that is no infinity. -/
def unlessInf : PyFloat → Option PyFloat
  | .inf _ => none
  | x => some x

/-- The double for `q`, where that is finite. -/
def finite (q : ℚ) : Option PyFloat := (ofRat q).unlessInf

/-- The value from which on there is no double. -/
def limit : ℤ := 2 ^ 1024 - 2 ^ 970

section Rounding

variable {q : ℚ} {n : ℤ}

lemma halfEven_intCast (n : ℤ) : halfEven n = n := by
  rw [halfEven, Int.fract_intCast, Int.floor_intCast]
  exact if_pos (Or.inl (by norm_num))

lemma le_halfEven (h : n ≤ q) : n ≤ halfEven q := by
  have hfloor : n ≤ ⌊q⌋ := Int.le_floor.mpr h
  unfold halfEven
  split <;> omega

/-- At half the way it depends on which of the two is even. -/
lemma le_halfEven_of_even (hn : Even n) (h : n - 1 / 2 ≤ q) : n ≤ halfEven q := by
  by_cases hle : (n : ℚ) ≤ q
  · exact le_halfEven hle
  · have hfloor : ⌊q⌋ = n - 1 := by
      rw [Int.floor_eq_iff]
      push_cast
      constructor <;> linarith
    have hfract : 1 / 2 ≤ Int.fract q := by
      rw [Int.fract, hfloor]
      push_cast
      linarith
    have hodd : ¬ Even ⌊q⌋ := by
      rw [hfloor, Int.not_even_iff_odd]
      exact hn.sub_odd odd_one
    unfold halfEven
    rw [if_neg]
    · omega
    · rintro (hlt | ⟨-, heven⟩)
      · exact absurd hlt (not_lt.mpr hfract)
      · exact hodd heven

lemma halfEven_le (h : q < n + 1 / 2) : halfEven q ≤ n := by
  by_cases hlt : q < n
  · have hfloor : ⌊q⌋ < n := Int.floor_lt.mpr hlt
    unfold halfEven
    split <;> omega
  · have hfloor : ⌊q⌋ = n := by
      rw [Int.floor_eq_iff]
      constructor <;> linarith
    have hfract : Int.fract q < 1 / 2 := by
      rw [Int.fract, hfloor]
      linarith
    unfold halfEven
    rw [if_pos (Or.inl hfract), hfloor]

lemma ulp_pos (q : ℚ) : 0 < ulp q := zpow_pos two_pos _

lemma rounded_nonneg (h : 0 ≤ q) : 0 ≤ rounded q := by
  have hquotient : ((0 : ℤ) : ℚ) ≤ q / ulp q := by
    rw [Int.cast_zero]
    exact div_nonneg h (ulp_pos q).le
  have hnonneg : (0 : ℚ) ≤ halfEven (q / ulp q) := by exact_mod_cast le_halfEven hquotient
  exact mul_nonneg hnonneg (ulp_pos q).le

/-- What is a multiple of the distance is not rounded. -/
lemma rounded_of_multiple (h : q = n * ulp q) : rounded q = q := by
  have hquotient : q / ulp q = n := by
    rw [div_eq_iff (ulp_pos q).ne']
    exact h
  rw [rounded, hquotient, halfEven_intCast]
  exact h.symm

/-- The distance where `q` is in the range of a power of two. -/
lemma ulp_eq {e : ℤ} (hlow : 2 ^ e ≤ q) (hhigh : q < 2 ^ (e + 1)) :
    ulp q = 2 ^ max (e - 52) (-1074) := by
  have hpos : 0 < q := (zpow_pos two_pos e).trans_le hlow
  have hlog : Int.log 2 q = e := by
    have hle : e ≤ Int.log 2 q :=
      (Int.zpow_le_iff_le_log one_lt_two hpos).mp (by exact_mod_cast hlow)
    have hlt : Int.log 2 q < e + 1 :=
      (Int.lt_zpow_iff_log_lt one_lt_two hpos).mp (by exact_mod_cast hhigh)
    omega
  rw [ulp, abs_of_pos hpos, hlog]

lemma rounded_zero : rounded 0 = 0 := by
  have hmultiple : (0 : ℚ) = ((0 : ℤ) : ℚ) * ulp 0 := by simp
  exact rounded_of_multiple hmultiple

/-- Small integers are doubles. -/
lemma rounded_intCast (h0 : 0 ≤ n) (h : n ≤ 2 ^ 53) : rounded n = n := by
  rcases h0.eq_or_lt with rfl | hpos
  · exact_mod_cast rounded_zero
  obtain ⟨k, rfl⟩ := Int.eq_ofNat_of_zero_le h0
  have hk : k ≠ 0 := by omega
  have hlow : (2 : ℚ) ^ ((Nat.log 2 k : ℕ) : ℤ) ≤ ((k : ℤ) : ℚ) := by
    exact_mod_cast Nat.pow_log_le_self 2 hk
  have hhigh : ((k : ℤ) : ℚ) < 2 ^ (((Nat.log 2 k : ℕ) : ℤ) + 1) := by
    exact_mod_cast Nat.lt_pow_succ_log_self one_lt_two k
  have hulp := ulp_eq hlow hhigh
  rw [max_eq_left (by omega)] at hulp
  by_cases hsmall : Nat.log 2 k ≤ 52
  -- the distance is a fraction of one
  · refine rounded_of_multiple (n := k * 2 ^ (52 - Nat.log 2 k)) ?_
    have hexponent : ((Nat.log 2 k : ℕ) : ℤ) - 52 = -((52 - Nat.log 2 k : ℕ) : ℤ) := by omega
    rw [hulp, hexponent, zpow_neg, zpow_natCast]
    push_cast
    rw [mul_assoc, mul_inv_cancel₀ (by positivity), mul_one]
  -- and `2 ^ 53` is a multiple of two
  · have hpow : 2 ^ Nat.log 2 k ≤ k := Nat.pow_log_le_self 2 hk
    have hmore : 2 ^ 53 ≤ 2 ^ Nat.log 2 k := Nat.pow_le_pow_right two_pos (by omega)
    obtain rfl : k = 2 ^ 53 := by omega
    refine rounded_of_multiple (n := 2 ^ 52) ?_
    rw [hulp, Nat.log_pow one_lt_two]
    norm_num

/-- Powers of two in half a distance. -/
lemma zpow_eq_mul (e : ℤ) (k : ℕ) : (2 : ℚ) ^ (e - 53 + k) = 2 ^ k * 2 ^ (e - 53) := by
  rw [zpow_add₀ two_ne_zero, zpow_natCast, mul_comm]

lemma zpow_succ_eq_mul (e : ℤ) : (2 : ℚ) ^ (e + 1) = 2 ^ 54 * 2 ^ (e - 53) := by
  rw [← zpow_eq_mul e 54]
  congr 1
  omega

lemma zpow_self_eq_mul (e : ℤ) : (2 : ℚ) ^ e = 2 ^ 53 * 2 ^ (e - 53) := by
  rw [← zpow_eq_mul e 53]
  congr 1
  omega

lemma zpow_pred_eq_mul (e : ℤ) : (2 : ℚ) ^ (e - 52) = 2 * 2 ^ (e - 53) := by
  have hone := zpow_eq_mul e 1
  rw [pow_one] at hone
  rw [← hone]
  congr 1
  push_cast
  ring

/-- The distance in a range of normal doubles. -/
lemma ulp_eq_two_mul {e : ℤ} (he : -1022 ≤ e) (hlow : 2 ^ e ≤ q) (hhigh : q < 2 ^ (e + 1)) :
    ulp q = 2 * 2 ^ (e - 53) := by
  rw [ulp_eq hlow hhigh, max_eq_left (by omega), zpow_pred_eq_mul]

lemma rounded_le_add_ulp (q : ℚ) : rounded q ≤ q + ulp q := by
  have hnext : (halfEven (q / ulp q) : ℚ) ≤ q / ulp q + 1 := by
    have hfloor := Int.floor_le (q / ulp q)
    unfold halfEven
    split
    · linarith
    · push_cast
      linarith
  have hmul := mul_le_mul_of_nonneg_right hnext (ulp_pos q).le
  rwa [add_mul, div_mul_cancel₀ _ (ulp_pos q).ne', one_mul] at hmul

/-- What is below half the distance is rounded to something smaller. -/
lemma rounded_lt {e : ℤ} (he : -1022 ≤ e) (h0 : 0 ≤ q) (h : q < 2 ^ (e + 1) - 2 ^ (e - 53)) :
    rounded q < 2 ^ (e + 1) := by
  have hunit : (0 : ℚ) < 2 ^ (e - 53) := zpow_pos two_pos _
  by_cases hle : 2 ^ e ≤ q
  -- the same distance on both sides
  · have hulp := ulp_eq_two_mul he hle (by linarith)
    rw [zpow_succ_eq_mul] at h ⊢
    have hquotient : q / ulp q < ((2 ^ 53 - 1 : ℤ) : ℚ) + 1 / 2 := by
      rw [div_lt_iff₀ (ulp_pos q), hulp]
      push_cast
      linarith
    have hbound : (halfEven (q / ulp q) : ℚ) ≤ ((2 ^ 53 - 1 : ℤ) : ℚ) := by
      exact_mod_cast halfEven_le hquotient
    have hmul := mul_le_mul_of_nonneg_right hbound (ulp_pos q).le
    rw [rounded]
    refine hmul.trans_lt ?_
    rw [hulp]
    push_cast
    linarith
  -- far below
  · rcases h0.eq_or_lt with rfl | hpos
    · rw [rounded_zero]
      exact zpow_pos two_pos _
    · have hlog : Int.log 2 q < e :=
        (Int.lt_zpow_iff_log_lt one_lt_two hpos).mp (by exact_mod_cast not_le.mp hle)
      have hulp : ulp q ≤ 2 ^ (e - 52) := by
        rw [ulp, abs_of_pos hpos]
        exact zpow_le_zpow_right₀ one_le_two (by omega)
      have hnext := rounded_le_add_ulp q
      have hsmall := not_le.mp hle
      rw [zpow_pred_eq_mul] at hulp
      rw [zpow_self_eq_mul] at hsmall
      rw [zpow_succ_eq_mul]
      linarith

/-- The power of two below a number is below what it is rounded to. -/
lemma zpow_log_le_rounded (h0 : 0 < q) (hlog : -1022 ≤ Int.log 2 q) :
    2 ^ Int.log 2 q ≤ rounded q := by
  have hself : (2 : ℚ) ^ Int.log 2 q ≤ q := by
    exact_mod_cast Int.zpow_log_le_self one_lt_two h0
  have hulp : ulp q = 2 ^ (Int.log 2 q - 52) := by
    rw [ulp, abs_of_pos h0, max_eq_left (by omega)]
  have hsplit : ((2 ^ 52 : ℤ) : ℚ) * ulp q = 2 ^ Int.log 2 q := by
    rw [hulp, zpow_sub₀ two_ne_zero]
    norm_num
    exact mul_div_cancel₀ _ (by norm_num)
  have hquotient : ((2 ^ 52 : ℤ) : ℚ) ≤ q / ulp q := by
    rw [le_div_iff₀ (ulp_pos q), hsplit]
    exact hself
  have hbound : ((2 ^ 52 : ℤ) : ℚ) ≤ halfEven (q / ulp q) := by
    exact_mod_cast le_halfEven hquotient
  rw [← hsplit, rounded]
  exact mul_le_mul_of_nonneg_right hbound (ulp_pos q).le

/-- From half the distance below on, `2 ^ (e + 1)` is nearest. -/
lemma two_zpow_le_rounded_iff {e : ℤ} (he : -1022 ≤ e) (h0 : 0 ≤ q) :
    2 ^ (e + 1) ≤ rounded q ↔ 2 ^ (e + 1) - 2 ^ (e - 53) ≤ q := by
  constructor
  · intro hrounded
    by_contra hbelow
    exact absurd hrounded (not_le.mpr (rounded_lt he h0 (not_le.mp hbelow)))
  · intro hle
    by_cases hlt : q < 2 ^ (e + 1)
    -- the quotient is at least half the way to an even number
    · have hunit : (0 : ℚ) < 2 ^ (e - 53) := zpow_pos two_pos _
      rw [zpow_succ_eq_mul] at hle ⊢
      have hlow : 2 ^ e ≤ q := by
        rw [zpow_self_eq_mul]
        linarith
      have hulp := ulp_eq_two_mul he hlow hlt
      have heven : Even (2 ^ 53 : ℤ) := ⟨2 ^ 52, by norm_num⟩
      have hquotient : ((2 ^ 53 : ℤ) : ℚ) - 1 / 2 ≤ q / ulp q := by
        rw [le_div_iff₀ (ulp_pos q), hulp]
        push_cast
        linarith
      have hbound : ((2 ^ 53 : ℤ) : ℚ) ≤ halfEven (q / ulp q) := by
        exact_mod_cast le_halfEven_of_even heven hquotient
      have hmul := mul_le_mul_of_nonneg_right hbound (ulp_pos q).le
      rw [rounded]
      refine le_trans ?_ hmul
      rw [hulp]
      push_cast
      linarith
    · have hpos : 0 < q := (zpow_pos two_pos _).trans_le (not_lt.mp hlt)
      have hlog : e + 1 ≤ Int.log 2 q :=
        (Int.zpow_le_iff_le_log one_lt_two hpos).mp (by exact_mod_cast not_lt.mp hlt)
      exact (zpow_le_zpow_right₀ one_le_two hlog).trans (zpow_log_le_rounded hpos (by omega))

lemma limit_eq : (limit : ℚ) = 2 ^ ((1023 : ℤ) + 1) - 2 ^ ((1023 : ℤ) - 53) := by
  have hlow : (1023 : ℤ) - 53 = ((970 : ℕ) : ℤ) := by norm_num
  have hhigh : (1023 : ℤ) + 1 = ((1024 : ℕ) : ℤ) := by norm_num
  rw [limit, hlow, hhigh, zpow_natCast, zpow_natCast, Int.cast_sub, Int.cast_pow, Int.cast_pow,
    Int.cast_ofNat]

lemma limit_le_iff (h0 : 0 ≤ q) : (limit : ℚ) ≤ q ↔ 2 ^ (1024 : ℤ) ≤ rounded q := by
  have hexponent : (1023 : ℤ) + 1 = 1024 := by norm_num
  rw [limit_eq, ← two_zpow_le_rounded_iff (by norm_num) h0, hexponent]

lemma ofRat_of_lt (h0 : 0 ≤ q) (h : q < limit) : ofRat q = .rat (rounded q) := by
  rw [ofRat, abs_of_nonneg (rounded_nonneg h0),
    if_neg fun hle => h.not_ge ((limit_le_iff h0).mpr hle), if_neg fun hzero => hzero.2.not_ge h0]

lemma ofRat_of_le (h0 : 0 ≤ q) (h : limit ≤ q) : ofRat q = .inf false := by
  rw [ofRat, abs_of_nonneg (rounded_nonneg h0), if_pos ((limit_le_iff h0).mp h),
    decide_eq_false h0.not_gt]

lemma finite_of_lt (h0 : 0 ≤ q) (h : q < limit) : finite q = some (.rat (rounded q)) := by
  rw [finite, ofRat_of_lt h0 h]
  rfl

lemma finite_of_le (h0 : 0 ≤ q) (h : limit ≤ q) : finite q = none := by
  rw [finite, ofRat_of_le h0 h]
  rfl

/-- Small integers are below the limit. -/
lemma lt_limit (h : n ≤ 2 ^ 53) : n < limit := by
  refine h.trans_lt ?_
  decide +kernel

/-- Small integers are doubles. -/
lemma ofRat_intCast (h0 : 0 ≤ n) (h : n ≤ 2 ^ 53) : ofRat n = .rat n := by
  rw [ofRat_of_lt (by exact_mod_cast h0) (by exact_mod_cast lt_limit h), rounded_intCast h0 h]

example : ofRat (2 ^ 53 + 1) = .rat (2 ^ 53) := by decide +kernel

end Rounding

/-! ## Arithmetic -/

/-- The sign of a number or a zero. -/
def isNegative : PyFloat → Bool
  | .nan => false
  | .inf negative => negative
  | .negZero => true
  | .rat q => q < 0

/-- A zero with a sign. -/
def zero (negative : Bool) : PyFloat := if negative then .negZero else .rat 0

/-- `x < 0.0`. -/
def isNeg : PyFloat → Bool
  | .inf negative => negative
  | .rat q => q < 0
  | _ => false

/-- `x >= 0.0`. -/
def isNonneg : PyFloat → Bool
  | .nan => false
  | .inf negative => !negative
  | .negZero => true
  | .rat q => 0 ≤ q

/-- `x + y`. -/
def add : PyFloat → PyFloat → PyFloat
  | .nan, _ => .nan
  | _, .nan => .nan
  | .inf negative, .inf negative' => if negative = negative' then .inf negative else .nan
  | .inf negative, _ => .inf negative
  | _, .inf negative => .inf negative
  | .negZero, y => y
  | x, .negZero => x
  | .rat p, .rat q => ofRat (p + q)

/-- `x * y`. -/
def mul (x y : PyFloat) : PyFloat :=
  let negative := x.isNegative != y.isNegative
  match x, y with
  | .nan, _ => .nan
  | _, .nan => .nan
  | .rat p, .rat q => if p = 0 ∨ q = 0 then zero negative else ofRat (p * q)
  | .inf _, y => if y = .negZero ∨ y = .rat 0 then .nan else .inf negative
  | x, .inf _ => if x = .negZero ∨ x = .rat 0 then .nan else .inf negative
  -- one of them is `-0.0`
  | _, _ => zero negative

/-- `x / d` for a small `d`. -/
def divNat (x : PyFloat) (d : ℕ) : PyFloat :=
  match x with
  | .rat q => ofRat (q / d)
  | x => x

section Arithmetic

variable {x y : PyFloat} {q : ℚ}

lemma isNeg_ofRat (h : 0 ≤ q) : (ofRat q).isNeg = false := by
  by_cases hlt : q < limit
  · rw [ofRat_of_lt h hlt]
    exact decide_eq_false (rounded_nonneg h).not_gt
  · rw [ofRat_of_le h (not_lt.mp hlt)]
    rfl

lemma isNeg_of_isNonneg (h : x.isNonneg = true) : x.isNeg = false := by
  cases x with
  | nan => rfl
  | inf negative =>
    cases negative with
    | false => rfl
    | true => cases h
  | negZero => rfl
  | rat q => exact decide_eq_false (of_decide_eq_true h).not_gt

lemma isNeg_zero (negative : Bool) : (zero negative).isNeg = false := by
  cases negative <;> rfl

lemma isNeg_add (hx : x.isNeg = false) (hy : y.isNeg = false) : (x.add y).isNeg = false := by
  cases x with
  | nan => rfl
  | inf negative =>
    obtain rfl : negative = false := hx
    cases y with
    | inf negative' =>
      obtain rfl : negative' = false := hy
      rfl
    | _ => rfl
  | negZero =>
    cases y with
    | nan => rfl
    | _ => exact hy
  | rat p =>
    cases y with
    | nan => rfl
    | inf => exact hy
    | negZero => exact hx
    | rat q =>
      exact isNeg_ofRat (add_nonneg (not_lt.mp (of_decide_eq_false hx))
        (not_lt.mp (of_decide_eq_false hy)))

lemma isNeg_mul (hx : x.isNeg = false) (hy : y.isNeg = false) : (x.mul y).isNeg = false := by
  cases x with
  | nan => rfl
  | inf negative =>
    obtain rfl : negative = false := hx
    cases y with
    | nan => rfl
    | inf negative' =>
      obtain rfl : negative' = false := hy
      rfl
    | negZero => rfl
    | rat q =>
      unfold mul
      dsimp only
      split
      · rfl
      · simpa [isNeg, isNegative] using hy
  | negZero =>
    cases y with
    | nan => rfl
    | inf => rfl
    | negZero => rfl
    | rat q => exact isNeg_zero _
  | rat p =>
    cases y with
    | nan => rfl
    | inf negative' =>
      obtain rfl : negative' = false := hy
      unfold mul
      dsimp only
      split
      · rfl
      · simpa [isNeg, isNegative] using hx
    | negZero => exact isNeg_zero _
    | rat q =>
      unfold mul
      dsimp only
      split
      · exact isNeg_zero _
      · exact isNeg_ofRat (mul_nonneg (not_lt.mp (of_decide_eq_false hx))
          (not_lt.mp (of_decide_eq_false hy)))

end Arithmetic
end PyFloat

/-! ## Integers and floats -/

namespace PyNum

/-- `float(x)`, where it does not raise `OverflowError`. -/
def toFloat : PyNum → Option PyFloat
  | .int z => PyFloat.finite z
  | .float f => some f

/-- `x < 0`. -/
def isNeg : PyNum → Bool
  | .int z => z < 0
  | .float f => f.isNeg

/-- `x / d` for a small `d`, where it does not raise `OverflowError`. -/
def divNat (x : PyNum) (d : ℕ) : Option PyFloat :=
  match x with
  | .int z => PyFloat.finite (z / d)
  | .float f => some (f.divNat d)

end PyNum
