import InferenceApi.Lib.JsonText

/-!
# Reading JSON text

`loads` is Python's `json.loads` on a string: white space between tokens, every escape, the
number grammar with its three words for non-finite floats, and for a key given twice its last
value. `none` is a `JSONDecodeError`. It undoes `render` (`loads_render`).

The value of a float literal is a parameter. An escaped surrogate without its other half, which
Python keeps as it is, is no Unicode scalar value and refused here. Python's limits on the depth
of nesting and on the number of digits are left out.
-/

namespace Json

/-! ## Tokens -/

/-- `WHITESPACE`. -/
def isBlank (c : Char) : Bool := c = ' ' || c = '\t' || c = '\n' || c = '\r'

/-- Skip white space. -/
def skip (cs : List Char) : List Char := cs.dropWhile isBlank

/-- What follows an element or a field: the closing bracket, or a comma. -/
def delimiter (close : Char) (cs : List Char) : Option (Bool × List Char) :=
  match skip cs with
  | [] => none
  | c :: rest =>
    if c = close then some (true, rest)
    else if c = ',' then some (false, skip rest)
    else none

/-- Read a fixed word. -/
def literal (word cs : List Char) : Option (List Char) :=
  if word.isPrefixOf cs then some (cs.drop word.length) else none

/-- The value of a hexadecimal digit, if it is one. -/
def hexDigit (c : Char) : Option ℕ :=
  if c.isDigit then some (c.toNat - 48)
  else if 97 ≤ c.toNat ∧ c.toNat ≤ 102 then some (c.toNat - 87)
  else if 65 ≤ c.toNat ∧ c.toNat ≤ 70 then some (c.toNat - 55)
  else none

/-- `_decode_uXXXX`. -/
def decodeHex4 : List Char → Option (ℕ × List Char)
  | a :: b :: c :: d :: rest => do
    return ((← hexDigit a) * 4096 + (← hexDigit b) * 256 + (← hexDigit c) * 16 + (← hexDigit d),
      rest)
  | _ => none

/-- The second half of a surrogate pair. -/
def decodeLow (hi : ℕ) : List Char → Option (Char × List Char)
  | '\\' :: 'u' :: rest => do
    let (lo, rest) ← decodeHex4 rest
    if 0xdc00 ≤ lo ∧ lo ≤ 0xdfff then
      return (Char.ofNat (0x10000 + (hi - 0xd800) * 1024 + (lo - 0xdc00)), rest)
    else none
  | _ => none

/-- The letters after a backslash, without `u`: `BACKSLASH`. -/
def letters : List (Char × Char) := ('/', '/') :: shortEscapes

/-- An escape, after its backslash. -/
def decodeEscape : List Char → Option (Char × List Char)
  | [] => none
  | letter :: rest =>
    if letter = 'u' then do
      let (n, rest) ← decodeHex4 rest
      if n < 0xd800 ∨ 0xdfff < n then return (Char.ofNat n, rest)
      else if n ≤ 0xdbff then decodeLow n rest
      else none
    else (letters.find? fun e => e.2 = letter).map fun e => (e.1, rest)

/-- One character of a string. Control characters have to be escaped. -/
def decodeChar : List Char → Option (Char × List Char)
  | [] => none
  | c :: rest =>
    if c = '\\' then decodeEscape rest
    else if c.toNat < 32 then none
    else some (c, rest)

/-- `scanstring`: a string after its opening quote. -/
def scanString : ℕ → List Char → Option (List Char × List Char)
  | 0, _ => none
  | n + 1, cs =>
    if cs.head? = some '\x22' then some ([], cs.tail)
    else do
      let (c, rest) ← decodeChar cs
      let (s, rest) ← scanString n rest
      return (c :: s, rest)

/-! ## Numbers -/

/-- `0|[1-9][0-9]*`. -/
def intPart (cs : List Char) : Option (List Char × List Char) :=
  if cs.head? = some '0' then some (['0'], cs.tail)
  else
    let digits := cs.takeWhile Char.isDigit
    if digits = [] then none else some (digits, cs.drop digits.length)

/-- `(\.[0-9]+)?`. -/
def fracPart : List Char → List Char × List Char
  | '.' :: cs =>
    let digits := cs.takeWhile Char.isDigit
    if digits = [] then ([], '.' :: cs) else ('.' :: digits, cs.drop digits.length)
  | cs => ([], cs)

/-- `([eE][-+]?[0-9]+)?`. -/
def expPart (cs : List Char) : List Char × List Char :=
  let letter := cs.takeWhile fun c => c = 'e' || c = 'E'
  let sign := (cs.drop 1).takeWhile fun c => c = '-' || c = '+'
  let digits := (cs.drop (1 + sign.length)).takeWhile Char.isDigit
  if letter = [] ∨ 1 < sign.length ∨ digits = [] then ([], cs)
  else (cs.take (1 + sign.length) ++ digits, cs.drop (1 + sign.length + digits.length))

/-- The value of the digits of an integer. -/
def intValue (negative : Bool) (digits : List Char) : ℤ :=
  if negative then -(Nat.ofDigitChars 10 digits 0 : ℤ) else Nat.ofDigitChars 10 digits 0

variable (toFloat : List Char → PyFloat)

/-- A numeral after its sign. -/
def unsigned (sign cs : List Char) : Option (Json × List Char) := do
  let (int, rest) ← intPart cs
  let (frac, rest) := fracPart rest
  let (exp, rest) := expPart rest
  if frac = [] ∧ exp = [] then return (num (.int (intValue (sign ≠ []) int)), rest)
  else return (num (.float (toFloat (sign ++ int ++ frac ++ exp))), rest)

/-- `NUMBER_RE`. -/
def numeral (cs : List Char) : Option (Json × List Char) :=
  if cs.head? = some '-' then unsigned toFloat ['-'] cs.tail else unsigned toFloat [] cs

/-- A number, or one of the words that `json` accepts for the non-finite floats. -/
def number (cs : List Char) : Option (Json × List Char) :=
  match literal ['N', 'a', 'N'] cs with
  | some rest => some (num (.float .nan), rest)
  | none =>
    match literal ['I', 'n', 'f', 'i', 'n', 'i', 't', 'y'] cs with
    | some rest => some (num (.float (.inf false)), rest)
    | none =>
      match literal ['-', 'I', 'n', 'f', 'i', 'n', 'i', 't', 'y'] cs with
      | some rest => some (num (.float (.inf true)), rest)
      | none => numeral toFloat cs

/-! ## Values -/

mutual

/-- `scan_once`. The fuel bounds the depth and the number of elements. -/
def value : ℕ → List Char → Option (Json × List Char)
  | 0, _ => none
  | _, [] => none
  | n + 1, c :: cs =>
    match Tag.ofChar c with
    | .null => do return (null, ← literal ['u', 'l', 'l'] cs)
    | .true => do return (bool true, ← literal ['r', 'u', 'e'] cs)
    | .false => do return (bool false, ← literal ['a', 'l', 's', 'e'] cs)
    | .str => do
      let (s, rest) ← scanString (cs.length + 1) cs
      return (str (String.ofList s), rest)
    | .arr =>
      if (skip cs).head? = some ']' then some (arr [], (skip cs).tail)
      else do
        let (vs, rest) ← elems n (skip cs)
        return (arr vs, rest)
    | .obj =>
      if (skip cs).head? = some '}' then some (obj [], (skip cs).tail)
      else do
        let (fs, rest) ← fields n (skip cs)
        -- `dict(pairs)`
        return (obj (update [] fs), rest)
    | .num => number toFloat (c :: cs)

/-- `JSONArray`, from its first element on. -/
def elems : ℕ → List Char → Option (List Json × List Char)
  | 0, _ => none
  | n + 1, cs => do
    let (v, rest) ← value n cs
    let (closed, rest) ← delimiter ']' rest
    if closed then return ([v], rest)
    else do
      let (vs, rest) ← elems n rest
      return (v :: vs, rest)

/-- `JSONObject`, from its first key on. -/
def fields : ℕ → List Char → Option (List (String × Json) × List Char)
  | 0, _ => none
  | n + 1, cs => do
    let cs ← literal ['\x22'] cs
    let (k, rest) ← scanString (cs.length + 1) cs
    let rest ← literal [':'] (skip rest)
    let (v, rest) ← value n (skip rest)
    let (closed, rest) ← delimiter '}' rest
    if closed then return ([(String.ofList k, v)], rest)
    else do
      let (fs, rest) ← fields n rest
      return ((String.ofList k, v) :: fs, rest)

end

/-- `json.loads`. -/
def loads (s : List Char) : Option Json := do
  let (v, rest) ← value toFloat (s.length + 1) (skip s)
  if skip rest = [] then return v else none

/-! ## Reading back what was written -/

/-- The fuel that the text of a value takes. -/
def size : Json → ℕ
  | arr xs => 1 + sizeElems xs
  | obj fields => 1 + sizeFields fields
  | _ => 1
where
  /-- The fuel of elements. -/
  sizeElems : List Json → ℕ
    | [] => 0
    | v :: vs => 1 + size v + sizeElems vs
  /-- The fuel of fields. -/
  sizeFields : List (String × Json) → ℕ
    | [] => 0
    | (_, v) :: fields => 1 + size v + sizeFields fields

section Strings

lemma hexDigit_digitChar {n : ℕ} (h : n < 16) : hexDigit (Nat.digitChar n) = some n := by
  interval_cases n <;> decide

lemma decodeHex4_hex4 {n : ℕ} (h : n < 65536) (rest : List Char) :
    decodeHex4 (hex4 n ++ rest) = some (n, rest) := by
  have hn : n / 4096 % 16 * 4096 + n / 256 % 16 * 256 + n / 16 % 16 * 16 + n % 16 = n := by omega
  simp only [hex4, List.cons_append, List.nil_append, decodeHex4,
    hexDigit_digitChar (Nat.mod_lt _ (by norm_num : 0 < 16))]
  exact congrArg (fun m => some (m, rest)) hn

lemma decodeChar_unicodeEscape {n : ℕ} (h : n < 65536) (hs : n < 0xd800 ∨ 0xdfff < n)
    (rest : List Char) : decodeChar (unicodeEscape n ++ rest) = some (Char.ofNat n, rest) := by
  simp only [unicodeEscape, List.cons_append, decodeChar, decodeEscape, if_true,
    decodeHex4_hex4 h]
  exact if_pos hs

lemma decodeChar_pair {hi lo : ℕ} (hhi : 0xd800 ≤ hi) (hhi' : hi ≤ 0xdbff) (hlo : 0xdc00 ≤ lo)
    (hlo' : lo ≤ 0xdfff) (rest : List Char) :
    decodeChar (unicodeEscape hi ++ unicodeEscape lo ++ rest) =
      some (Char.ofNat (0x10000 + (hi - 0xd800) * 1024 + (lo - 0xdc00)), rest) := by
  have hlo'' : lo < 65536 := by omega
  have hhi'' : hi < 65536 := by omega
  have hsecond : decodeLow hi (unicodeEscape lo ++ rest) =
      some (Char.ofNat (0x10000 + (hi - 0xd800) * 1024 + (lo - 0xdc00)), rest) := by
    simp only [unicodeEscape, List.cons_append, decodeLow, decodeHex4_hex4 hlo'']
    exact if_pos ⟨hlo, hlo'⟩
  have hnot : ¬ (hi < 0xd800 ∨ 0xdfff < hi) := by omega
  rw [List.append_assoc, unicodeEscape]
  simp only [List.cons_append, decodeChar, decodeEscape, if_true,
    decodeHex4_hex4 hhi'']
  dsimp only [bind, Option.bind]
  rw [if_neg hnot, if_pos hhi']
  exact hsecond

/-- Reading one written character. -/
theorem decodeChar_escapeChar (c : Char) (rest : List Char) :
    decodeChar (escapeChar c ++ rest) = some (c, rest) := by
  have h := escaped_escapeChar c
  generalize escapeChar c = cs at h ⊢
  cases h with
  | short hmem =>
    simp only [shortEscapes, List.mem_cons, Prod.mk.injEq, List.not_mem_nil, or_false] at hmem
    rcases hmem with ⟨rfl, rfl⟩ | ⟨rfl, rfl⟩ | ⟨rfl, rfl⟩ | ⟨rfl, rfl⟩ | ⟨rfl, rfl⟩ | ⟨rfl, rfl⟩ |
      ⟨rfl, rfl⟩ <;> rfl
  | plain hplain =>
    simp only [isPlain, Bool.and_eq_true, decide_eq_true_eq, ne_eq] at hplain
    rw [List.singleton_append, decodeChar, if_neg hplain.2, if_neg (by omega)]
  | single hsingle =>
    rw [decodeChar_unicodeEscape hsingle (toNat_not_surrogate c), Char.ofNat_toNat]
  | pair hhi hhi' hlo hlo' hc =>
    rw [decodeChar_pair hhi hhi' hlo hlo', hc, Char.ofNat_toNat]

lemma escapeChar_head_ne_quote (c : Char) (rest : List Char) :
    (escapeChar c ++ rest).head? ≠ some '\x22' := by
  intro h
  obtain ⟨tail, htail⟩ := List.head?_eq_some_iff.mp h
  exact escapeChar_ne_quote c rest tail htail

/-- Reading a written string, after its opening quote. -/
theorem scanString_escaped (s rest : List Char) {n : ℕ} (hn : s.length < n) :
    scanString n (s.flatMap escapeChar ++ '\x22' :: rest) = some (s, rest) := by
  induction s generalizing n with
  | nil =>
    obtain ⟨m, rfl⟩ := Nat.exists_eq_succ_of_ne_zero (Nat.ne_of_gt hn)
    rfl
  | cons c s ih =>
    obtain ⟨m, rfl⟩ := Nat.exists_eq_succ_of_ne_zero (Nat.ne_of_gt (Nat.zero_lt_of_lt hn))
    rw [List.flatMap_cons, List.append_assoc, scanString,
      if_neg (escapeChar_head_ne_quote c _), decodeChar_escapeChar]
    rw [List.length_cons] at hn
    dsimp only [bind, Option.bind]
    rw [ih (by omega)]
    rfl

end Strings

section Numbers

variable {toFloat : List Char → PyFloat} {cs r : List Char}

lemma literal_append (word cs : List Char) : literal word (word ++ cs) = some cs := by
  rw [literal, if_pos (List.isPrefixOf_iff_prefix.mpr (List.prefix_append word cs)),
    List.drop_left]

lemma literal_singleton (c : Char) (cs : List Char) : literal [c] (c :: cs) = some cs :=
  literal_append [c] cs

lemma literal_eq_none {a c : Char} (h : a ≠ c) (word cs : List Char) :
    literal (a :: word) (c :: cs) = none := by
  rw [literal, if_neg]
  rw [List.isPrefixOf_iff_prefix, List.cons_prefix_cons]
  exact fun hprefix => h hprefix.1

lemma isDigit_of_isStop {c : Char} (h : isStop c = true) : c.isDigit = false := by
  rw [Bool.eq_false_iff]
  intro hd
  rw [isStop_of_isDigit hd] at h
  cases h

lemma takeWhile_digits (hcs : ∀ c ∈ cs, c.isDigit = true) (hr : Stops r) :
    (cs ++ r).takeWhile Char.isDigit = cs := by
  rw [List.takeWhile_append_of_pos hcs]
  cases r with
  | nil => rw [List.takeWhile_nil, List.append_nil]
  | cons c r =>
    rw [List.takeWhile_cons_of_neg, List.append_nil]
    rw [isDigit_of_isStop (hr c rfl)]
    exact Bool.false_ne_true

/-- No number but zero starts with a zero. -/
lemma head?_toDigits {n : ℕ} (hn : n ≠ 0) : (Nat.toDigits 10 n).head? ≠ some '0' := by
  induction n using Nat.strong_induction_on with
  | _ n ih =>
    by_cases hlt : n < 10
    · rw [Nat.toDigits_of_lt_base hlt]
      interval_cases n
      · exact absurd rfl hn
      all_goals decide
    · rw [Nat.toDigits_of_base_le (by norm_num) (by omega),
        List.head?_append_of_ne_nil _ Nat.toDigits_ne_nil]
      exact ih (n / 10) (by omega) (by omega)

lemma isDigit_toDigits (n : ℕ) : ∀ c ∈ Nat.toDigits 10 n, c.isDigit = true := fun _ =>
  Nat.isDigit_of_mem_toDigits (by norm_num) (by norm_num)

lemma intPart_toDigits (n : ℕ) (hr : Stops r) :
    intPart (Nat.toDigits 10 n ++ r) = some (Nat.toDigits 10 n, r) := by
  by_cases hn : n = 0
  · rw [hn, Nat.toDigits_zero]
    rfl
  · have hhead : (Nat.toDigits 10 n ++ r).head? ≠ some '0' := by
      rw [List.head?_append_of_ne_nil _ Nat.toDigits_ne_nil]
      exact head?_toDigits hn
    rw [intPart, if_neg hhead, takeWhile_digits (isDigit_toDigits n) hr]
    dsimp only
    rw [if_neg Nat.toDigits_ne_nil, List.drop_left]

lemma fracPart_stops (hr : Stops r) : fracPart r = ([], r) := by
  unfold fracPart
  split
  · have hstop := hr '.' rfl
    cases hstop
  · rfl

lemma expPart_stops (hr : Stops r) : expPart r = ([], r) := by
  have hletter : r.takeWhile (fun c => c = 'e' || c = 'E') = [] := by
    cases r with
    | nil => rfl
    | cons c r =>
      refine List.takeWhile_cons_of_neg fun he => ?_
      have hstop := hr c rfl
      simp only [Bool.or_eq_true, decide_eq_true_eq] at he
      rcases he with rfl | rfl <;> cases hstop
  rw [expPart, hletter]
  exact if_pos (Or.inl rfl)

lemma unsigned_toDigits (sign : List Char) (n : ℕ) (hr : Stops r) :
    unsigned toFloat sign (Nat.toDigits 10 n ++ r) =
      some (num (.int (intValue (sign ≠ []) (Nat.toDigits 10 n))), r) := by
  rw [unsigned, intPart_toDigits n hr]
  dsimp only [bind, Option.bind]
  rw [fracPart_stops hr]
  dsimp only
  rw [expPart_stops hr]
  rfl

/-- The digits of an integer are read back. -/
lemma numeral_intText (z : ℤ) (hr : Stops r) :
    numeral toFloat (intText z ++ r) = some (num (.int z), r) := by
  cases z with
  | ofNat n =>
    have hhead : (intText (.ofNat n) ++ r).head? ≠ some '-' := by
      rw [intText, List.head?_append_of_ne_nil _ Nat.toDigits_ne_nil]
      intro h
      exact minus_notMem_toDigits n (List.mem_of_head? h)
    rw [numeral, if_neg hhead, intText, unsigned_toDigits [] n hr, intValue,
      Nat.ofDigitChars_ten_toDigits]
    rfl
  | negSucc n =>
    rw [intText, List.cons_append, numeral, List.head?_cons, if_pos rfl, List.tail_cons,
      unsigned_toDigits ['-'] (n + 1) hr, intValue, Nat.ofDigitChars_ten_toDigits]
    rfl

lemma toDigits_eq_cons (n : ℕ) : ∃ c cs, Nat.toDigits 10 n = c :: cs ∧ c.isDigit = true := by
  obtain ⟨c, cs, hcs⟩ := List.exists_cons_of_ne_nil (Nat.toDigits_ne_nil (n := n) (b := 10))
  exact ⟨c, cs, hcs, isDigit_toDigits n c (by rw [hcs]; exact List.mem_cons_self)⟩

lemma ne_of_isDigit {a c : Char} (ha : a.isDigit = false) (hc : c.isDigit = true) : a ≠ c := by
  rintro rfl
  rw [ha] at hc
  cases hc

/-- No integer starts like one of the words. -/
lemma number_intText (z : ℤ) (hr : Stops r) :
    number toFloat (intText z ++ r) = some (num (.int z), r) := by
  rw [← numeral_intText z hr]
  cases z with
  | ofNat n =>
    obtain ⟨c, cs, hcs, hc⟩ := toDigits_eq_cons n
    rw [intText, hcs, List.cons_append, number, literal_eq_none (ne_of_isDigit rfl hc),
      literal_eq_none (ne_of_isDigit rfl hc), literal_eq_none (ne_of_isDigit rfl hc)]
  | negSucc n =>
    obtain ⟨c, cs, hcs, hc⟩ := toDigits_eq_cons (n + 1)
    have hinf : literal ['-', 'I', 'n', 'f', 'i', 'n', 'i', 't', 'y'] ('-' :: c :: (cs ++ r)) =
        none := by
      rw [literal, if_neg]
      rw [List.isPrefixOf_iff_prefix, List.cons_prefix_cons, List.cons_prefix_cons]
      exact fun hprefix => ne_of_isDigit rfl hc hprefix.2.1
    rw [intText, hcs, List.cons_append, List.cons_append, number, literal_eq_none (by decide),
      literal_eq_none (by decide), hinf]

end Numbers

/-! ### Values -/

mutual

/-- No number in the value is a float. -/
def Floatless : Json → Prop
  | num (.float _) => False
  | arr xs => FloatlessElems xs
  | obj fields => FloatlessFields fields
  | _ => True

/-- `Floatless` of every element. -/
def FloatlessElems : List Json → Prop
  | [] => True
  | v :: vs => Floatless v ∧ FloatlessElems vs

/-- `Floatless` of the value of every field. -/
def FloatlessFields : List (String × Json) → Prop
  | [] => True
  | (_, v) :: fields => Floatless v ∧ FloatlessFields fields

end

section Values

variable (R : FloatRepr) (toFloat : List Char → PyFloat)

lemma skip_cons {c : Char} (hc : isBlank c = false) (cs : List Char) : skip (c :: cs) = c :: cs :=
  List.dropWhile_cons_of_neg (by rw [hc]; exact Bool.false_ne_true)

lemma isBlank_of_isDigit {c : Char} (h : c.isDigit = true) : isBlank c = false := by
  rw [Bool.eq_false_iff]
  intro hb
  simp only [isBlank, Bool.or_eq_true, decide_eq_true_eq] at hb
  rcases hb with ((rfl | rfl) | rfl) | rfl <;> revert h <;> decide

/-- No value starts with white space. -/
lemma render_head_notBlank {v : Json} (hv : Floatless v) :
    ∃ c cs, render R v = c :: cs ∧ isBlank c = false := by
  cases v with
  | null => exact ⟨_, _, rfl, rfl⟩
  | bool b => cases b <;> exact ⟨_, _, rfl, rfl⟩
  | num n =>
    cases n with
    | int z =>
      cases z with
      | ofNat n =>
        obtain ⟨c, cs, hcs, hc⟩ := toDigits_eq_cons n
        exact ⟨c, cs, by rw [render, numText, intText, hcs], isBlank_of_isDigit hc⟩
      | negSucc n => exact ⟨_, _, rfl, rfl⟩
    | float f =>
      rw [Floatless] at hv
      exact hv.elim
  | str s => exact ⟨_, _, rfl, rfl⟩
  | arr xs => cases xs <;> exact ⟨_, _, rfl, rfl⟩
  | obj fields => rcases fields with _ | ⟨⟨k, v⟩, fields⟩ <;> exact ⟨_, _, rfl, rfl⟩

lemma skip_render {v : Json} (hv : Floatless v) (r : List Char) :
    skip (render R v ++ r) = render R v ++ r := by
  obtain ⟨c, cs, hcs, hc⟩ := render_head_notBlank R hv
  rw [hcs]
  exact skip_cons hc _

lemma skip_blank (cs : List Char) : skip (' ' :: cs) = skip cs := List.dropWhile_cons_of_pos rfl

lemma delimiter_close {close : Char} (hclose : isBlank close = false) (r : List Char) :
    delimiter close (close :: r) = some (true, r) := by
  rw [delimiter, skip_cons hclose]
  exact if_pos rfl

lemma delimiter_comma {close : Char} (hclose : ',' ≠ close) (r : List Char) :
    delimiter close (',' :: r) = some (false, skip r) := by
  rw [delimiter, skip_cons rfl]
  dsimp only
  rw [if_neg hclose, if_pos rfl]

lemma length_le_escaped (s : List Char) : s.length ≤ (s.flatMap escapeChar).length := by
  induction s with
  | nil => exact Nat.le_refl 0
  | cons c s ih =>
    have hne : escapeChar c ≠ [] := by
      intro hnil
      have hread := decodeChar_escapeChar c []
      rw [hnil] at hread
      cases hread
    have hpos := List.length_pos_iff.mpr hne
    rw [List.flatMap_cons, List.length_append, List.length_cons]
    omega

lemma renderString_append (s : String) (r : List Char) :
    renderString s ++ r = '\x22' :: (s.toList.flatMap escapeChar ++ '\x22' :: r) := by
  rw [renderString, List.cons_append, List.append_assoc, List.singleton_append]

/-- A string after its opening quote, with the fuel that `value` gives it. -/
lemma scanString_quoted (s : String) (r : List Char) :
    scanString ((s.toList.flatMap escapeChar ++ '\x22' :: r).length + 1)
      (s.toList.flatMap escapeChar ++ '\x22' :: r) = some (s.toList, r) := by
  have hlength := length_le_escaped s.toList
  refine scanString_escaped s.toList r ?_
  rw [List.length_append]
  omega

/-- The text of an array after its bracket is that of its elements without the first comma. -/
lemma render_arr_append (v : Json) (vs : List Json) (r : List Char) :
    render R (arr (v :: vs)) ++ r = '[' :: ((renderElems R (v :: vs)).drop 2 ++ ']' :: r) := by
  simp [render, renderElems]

lemma render_obj_append (kv : String × Json) (fs : List (String × Json)) (r : List Char) :
    render R (obj (kv :: fs)) ++ r = '{' :: ((renderFields R (kv :: fs)).drop 2 ++ '}' :: r) := by
  simp [render, renderFields]

lemma renderElems_drop (v : Json) (vs : List Json) (r : List Char) :
    (renderElems R (v :: vs)).drop 2 ++ ']' :: r =
      render R v ++ (renderElems R vs ++ ']' :: r) := by
  simp [renderElems]

lemma renderFields_drop (k : String) (v : Json) (fs : List (String × Json)) (r : List Char) :
    (renderFields R ((k, v) :: fs)).drop 2 ++ '}' :: r =
      '\x22' :: (k.toList.flatMap escapeChar ++
        '\x22' :: ':' :: ' ' :: (render R v ++ (renderFields R fs ++ '}' :: r))) := by
  simp [renderFields, renderString]

section Kinds

variable {toFloat : List Char → PyFloat} (n : ℕ) (cs : List Char)

lemma value_null : value toFloat (n + 1) ('n' :: cs) =
    (literal ['u', 'l', 'l'] cs).bind fun rest => some (null, rest) := rfl

lemma value_true : value toFloat (n + 1) ('t' :: cs) =
    (literal ['r', 'u', 'e'] cs).bind fun rest => some (bool true, rest) := rfl

lemma value_false : value toFloat (n + 1) ('f' :: cs) =
    (literal ['a', 'l', 's', 'e'] cs).bind fun rest => some (bool false, rest) := rfl

lemma value_str : value toFloat (n + 1) ('\x22' :: cs) =
    (scanString (cs.length + 1) cs).bind fun read =>
      some (str (String.ofList read.1), read.2) := rfl

lemma value_arr : value toFloat (n + 1) ('[' :: cs) =
    if (skip cs).head? = some ']' then some (arr [], (skip cs).tail)
    else (elems toFloat n (skip cs)).bind fun read => some (arr read.1, read.2) := rfl

lemma value_obj : value toFloat (n + 1) ('{' :: cs) =
    if (skip cs).head? = some '}' then some (obj [], (skip cs).tail)
    else (fields toFloat n (skip cs)).bind fun read => some (obj (update [] read.1), read.2) := rfl

lemma value_num {c : Char} (hc : c.isDigit = true ∨ c = '-') :
    value toFloat (n + 1) (c :: cs) = number toFloat (c :: cs) := by
  rw [value, tag_of_digit hc]

end Kinds

lemma value_intText (n : ℕ) (z : ℤ) {r : List Char} (hr : Stops r) :
    value toFloat (n + 1) (intText z ++ r) = some (num (.int z), r) := by
  rw [← number_intText z hr]
  cases z with
  | ofNat m =>
    obtain ⟨c, cs, hcs, hc⟩ := toDigits_eq_cons m
    rw [intText, hcs]
    exact value_num n _ (Or.inl hc)
  | negSucc m => exact value_num n _ (Or.inr rfl)

/-- A value does not start like the end of an array. -/
lemma head?_render_ne {c : Char} (hc : isStop c = true) (v : Json) (r : List Char) :
    (render R v ++ r).head? ≠ some c := by
  obtain ⟨c', cs, hcs, hc'⟩ := render_head_noStop R v
  rw [hcs]
  rintro ⟨⟩
  rw [hc] at hc'
  cases hc'

mutual

/-- **Reading undoes writing**, in front of anything that may follow a value. -/
theorem value_render : ∀ (v : Json) {n : ℕ} {r : List Char}, Floatless v → Distinct v →
    size v ≤ n → Stops r → value toFloat n (render R v ++ r) = some (v, r)
  | v, 0, _, _, _, hn, _ => by
    cases v <;> simp [size] at hn
  | null, n + 1, r, _, _, _, _ => by
    rw [render, List.cons_append, value_null, literal_append]
    rfl
  | bool true, n + 1, r, _, _, _, _ => by
    rw [render, List.cons_append, value_true, literal_append]
    rfl
  | bool false, n + 1, r, _, _, _, _ => by
    rw [render, List.cons_append, value_false, literal_append]
    rfl
  | num (.float f), n + 1, _, hf, _, _, _ => by
    rw [Floatless] at hf
    exact hf.elim
  | num (.int z), n + 1, r, _, _, _, hr => by
    rw [render, numText]
    exact value_intText toFloat n z hr
  | str s, n + 1, r, _, _, _, _ => by
    rw [render, renderString_append, value_str, scanString_quoted, Option.bind_some,
      String.ofList_toList]
  | arr [], n + 1, r, _, _, _, _ => by
    rw [render, List.cons_append, value_arr]
    rfl
  | arr (v :: vs), n + 1, r, hf, hd, hn, _ => by
    rw [Floatless] at hf
    rw [Distinct] at hd
    rw [size] at hn
    have helems := elems_render (v :: vs) (List.cons_ne_nil v vs) hf hd (by omega : _ ≤ n) (r := r)
    rw [FloatlessElems] at hf
    rw [renderElems_drop] at helems
    rw [render_arr_append, renderElems_drop, value_arr, skip_render R hf.1,
      if_neg (head?_render_ne R rfl v _), helems, Option.bind_some]
  | obj [], n + 1, r, _, _, _, _ => by
    rw [render, List.cons_append, value_obj]
    rfl
  | obj ((k, v) :: fs), n + 1, r, hf, hd, hn, _ => by
    rw [Floatless] at hf
    rw [Distinct] at hd
    rw [size] at hn
    have hfields := fields_render ((k, v) :: fs) (List.cons_ne_nil _ fs) hf hd.2
      (by omega : _ ≤ n) (r := r)
    rw [renderFields_drop] at hfields
    -- no key is there twice, so the dict has the fields as they are
    rw [render_obj_append, renderFields_drop, value_obj, skip_cons rfl, if_neg (by simp), hfields,
      Option.bind_some, update_of_disjoint hd.1 (by simp), List.nil_append]

/-- The elements, up to the closing bracket. The text of the first has no comma before it. -/
theorem elems_render : ∀ (xs : List Json) {n : ℕ} {r : List Char}, xs ≠ [] → FloatlessElems xs →
    DistinctElems xs → size.sizeElems xs ≤ n →
    elems toFloat n ((renderElems R xs).drop 2 ++ ']' :: r) = some (xs, r)
  | [], _, _, h, _, _, _ => absurd rfl h
  | v :: vs, 0, r, _, _, _, hn => by
    rw [size.sizeElems] at hn
    omega
  | v :: vs, n + 1, r, _, hf, hd, hn => by
    rw [FloatlessElems] at hf
    rw [DistinctElems] at hd
    rw [size.sizeElems] at hn
    have hv := value_render v hf.1 hd.1 (by omega : _ ≤ n) (stops_elems R vs r)
    rw [renderElems_drop, elems, hv]
    dsimp only [bind, Option.bind]
    cases vs with
    | nil => rw [renderElems, List.nil_append, delimiter_close rfl]; rfl
    | cons w ws =>
      have hws := elems_render (w :: ws) (List.cons_ne_nil w ws) hf.2 hd.2 (by omega : _ ≤ n)
        (r := r)
      rw [FloatlessElems] at hf
      rw [renderElems_drop] at hws
      have hnext : renderElems R (w :: ws) ++ ']' :: r =
          ',' :: ' ' :: (render R w ++ (renderElems R ws ++ ']' :: r)) := by simp [renderElems]
      rw [hnext, delimiter_comma (by decide), skip_blank, skip_render R hf.2.1]
      dsimp only
      rw [if_neg Bool.false_ne_true, hws]
      rfl

/-- The fields, up to the closing brace. -/
theorem fields_render : ∀ (fs : List (String × Json)) {n : ℕ} {r : List Char}, fs ≠ [] →
    FloatlessFields fs → DistinctFields fs → size.sizeFields fs ≤ n →
    fields toFloat n ((renderFields R fs).drop 2 ++ '}' :: r) = some (fs, r)
  | [], _, _, h, _, _, _ => absurd rfl h
  | kv :: fs, 0, r, _, _, _, hn => by
    rw [size.sizeFields] at hn
    omega
  | (k, v) :: fs, n + 1, r, _, hf, hd, hn => by
    rw [FloatlessFields] at hf
    rw [DistinctFields] at hd
    rw [size.sizeFields] at hn
    have hv := value_render v hf.1 hd.1 (by omega : _ ≤ n) (stops_fields R fs r)
    rw [renderFields_drop, fields, literal_singleton]
    dsimp only [bind, Option.bind]
    rw [scanString_quoted]
    dsimp only
    rw [skip_cons rfl, literal_singleton]
    dsimp only
    rw [skip_blank, skip_render R hf.1, hv]
    dsimp only
    rw [String.ofList_toList]
    cases fs with
    | nil => rw [renderFields, List.nil_append, delimiter_close rfl]; rfl
    | cons kw fs =>
      have hfs := fields_render (kw :: fs) (List.cons_ne_nil kw fs) hf.2 hd.2 (by omega : _ ≤ n)
        (r := r)
      rw [renderFields_drop] at hfs
      have hnext : renderFields R (kw :: fs) ++ '}' :: r =
          ',' :: ' ' :: '\x22' :: (kw.1.toList.flatMap escapeChar ++
            '\x22' :: ':' :: ' ' :: (render R kw.2 ++ (renderFields R fs ++ '}' :: r))) := by
        simp [renderFields, renderString]
      rw [hnext, delimiter_comma (by decide), skip_blank, skip_cons rfl]
      dsimp only
      rw [if_neg Bool.false_ne_true, hfs]
      rfl

end

lemma length_intText_pos (z : ℤ) : 0 < (intText z).length := by
  cases z with
  | ofNat n => exact Nat.length_toDigits_pos
  | negSucc n => exact Nat.succ_pos _

mutual

/-- There is enough fuel in a text for its value. -/
lemma size_le_length : ∀ v : Json, Floatless v → size v ≤ (render R v).length
  | null, _ => by simp [size, render]
  | bool b, _ => by cases b <;> simp [size, render]
  | num (.int z), _ => by
    rw [size, render, numText]
    · exact length_intText_pos z
    · exact fun _ => Json.noConfusion
    · exact fun _ => Json.noConfusion
  | num (.float f), hf => by
    rw [Floatless] at hf
    exact hf.elim
  | str s, _ => by simp [size, render, renderString]
  | arr [], _ => by simp [size, size.sizeElems, render]
  | arr (v :: vs), hf => by
    rw [Floatless, FloatlessElems] at hf
    have hv := size_le_length v hf.1
    have hvs := sizeElems_le_length vs hf.2
    simp only [size, size.sizeElems, render, List.length_cons, List.length_append]
    omega
  | obj [], _ => by simp [size, size.sizeFields, render]
  | obj ((k, v) :: fs), hf => by
    rw [Floatless, FloatlessFields] at hf
    have hv := size_le_length v hf.1
    have hfs := sizeFields_le_length fs hf.2
    simp only [size, size.sizeFields, render, List.length_cons, List.length_append]
    omega

lemma sizeElems_le_length : ∀ vs : List Json, FloatlessElems vs →
    size.sizeElems vs ≤ (renderElems R vs).length
  | [], _ => Nat.zero_le _
  | v :: vs, hf => by
    rw [FloatlessElems] at hf
    have hv := size_le_length v hf.1
    have hvs := sizeElems_le_length vs hf.2
    simp only [size.sizeElems, renderElems, List.length_cons, List.length_append]
    omega

lemma sizeFields_le_length : ∀ fs : List (String × Json), FloatlessFields fs →
    size.sizeFields fs ≤ (renderFields R fs).length
  | [], _ => Nat.zero_le _
  | (k, v) :: fs, hf => by
    rw [FloatlessFields] at hf
    have hv := size_le_length v hf.1
    have hfs := sizeFields_le_length fs hf.2
    simp only [size.sizeFields, renderFields, List.length_cons, List.length_append]
    omega

end

/-- **`json.loads` undoes `json.dumps`** on values without floats. -/
theorem loads_render {v : Json} (hf : Floatless v) (hd : Distinct v) :
    loads toFloat (render R v) = some v := by
  have hsize := size_le_length R v hf
  have hread := value_render R toFloat v (n := (render R v).length + 1) (r := []) hf hd (by omega)
    (by intro c hc; cases hc)
  have hskip := skip_render R hf []
  rw [List.append_nil] at hread hskip
  rw [loads, hskip, hread]
  rfl

end Values

/-! ### Parts of what can be read back -/

/-- A value that is read back as it was. -/
structure Plain (v : Json) : Prop where
  floatless : Floatless v
  distinct : Distinct v

section Plain

variable {fs : List (String × Json)} {k : String} {v : Json}

lemma floatlessFields_iff : FloatlessFields fs ↔ ∀ kv ∈ fs, Floatless kv.2 := by
  induction fs with
  | nil => simp [FloatlessFields]
  | cons kv fs ih => rw [FloatlessFields, ih, List.forall_mem_cons]

/-- An object is plain if no key is there twice and its values are plain. -/
lemma plain_obj : Plain (obj fs) ↔ (fs.map Prod.fst).Nodup ∧ ∀ kv ∈ fs, Plain kv.2 := by
  constructor
  · rintro ⟨hf, hd⟩
    rw [Floatless, floatlessFields_iff] at hf
    rw [Distinct, distinctFields_iff] at hd
    exact ⟨hd.1, fun kv hkv => ⟨hf kv hkv, hd.2 kv hkv⟩⟩
  · rintro ⟨hnodup, hfs⟩
    refine ⟨?_, ?_⟩
    · rw [Floatless, floatlessFields_iff]
      exact fun kv hkv => (hfs kv hkv).floatless
    · rw [Distinct, distinctFields_iff]
      exact ⟨hnodup, fun kv hkv => (hfs kv hkv).distinct⟩

lemma plain_str (s : String) : Plain (str s) := by
  constructor <;> simp [Floatless, Distinct]

lemma plain_int (z : ℤ) : Plain (num (.int z)) := by
  constructor <;> simp [Floatless, Distinct]

/-- What a plain object has under a key is plain. -/
lemma Plain.of_lookup (h : Plain (obj fs)) (hv : lookup fs k = some v) : Plain v := by
  obtain ⟨kv, hfind, rfl⟩ := Option.map_eq_some_iff.mp hv
  exact (plain_obj.mp h).2 kv (List.mem_of_find?_eq_some hfind)

end Plain

/-! ### What is written is printable -/

/-- Printable ASCII. -/
def Printable (c : Char) : Prop := 32 ≤ c.toNat ∧ c.toNat ≤ 126

instance (c : Char) : Decidable (Printable c) := inferInstanceAs (Decidable (_ ∧ _))

section Printable

lemma printable_digitChar {n : ℕ} (h : n < 16) : Printable (Nat.digitChar n) := by
  interval_cases n <;> decide

lemma printable_unicodeEscape (n : ℕ) : ∀ c ∈ unicodeEscape n, Printable c := by
  have hdigit : ∀ m, Printable (Nat.digitChar (m % 16)) := fun m =>
    printable_digitChar (Nat.mod_lt _ (by norm_num))
  simp only [unicodeEscape, hex4, List.forall_mem_cons]
  exact ⟨by decide, by decide, hdigit _, hdigit _, hdigit _, hdigit _, List.forall_mem_nil _⟩

lemma printable_escapeChar (c : Char) : ∀ c' ∈ escapeChar c, Printable c' := by
  have h := escaped_escapeChar c
  generalize escapeChar c = cs at h ⊢
  cases h with
  | short hmem =>
    have hletters : ∀ e ∈ shortEscapes, Printable e.2 := by decide
    exact List.forall_mem_cons.mpr ⟨by decide, List.forall_mem_singleton.mpr (hletters _ hmem)⟩
  | plain hplain =>
    simp only [isPlain, Bool.and_eq_true, decide_eq_true_eq] at hplain
    exact List.forall_mem_singleton.mpr hplain.1.1
  | single => exact printable_unicodeEscape _
  | pair => exact List.forall_mem_append.mpr ⟨printable_unicodeEscape _, printable_unicodeEscape _⟩

lemma printable_renderString (s : String) : ∀ c ∈ renderString s, Printable c := by
  refine List.forall_mem_cons.mpr ⟨by decide,
    List.forall_mem_append.mpr ⟨?_, List.forall_mem_singleton.mpr (by decide)⟩⟩
  intro c hc
  obtain ⟨c', -, hc'⟩ := List.mem_flatMap.mp hc
  exact printable_escapeChar c' c hc'

lemma printable_isDigit {c : Char} (h : c.isDigit = true) : Printable c := by
  simp only [Char.isDigit, Bool.and_eq_true, decide_eq_true_eq] at h
  have hlow : 48 ≤ c.toNat := h.1
  have hhigh : c.toNat ≤ 57 := h.2
  exact ⟨by omega, by omega⟩

lemma printable_intText (z : ℤ) : ∀ c ∈ intText z, Printable c := by
  intro c hc
  rcases digit_of_mem_intText hc with hd | rfl
  · exact printable_isDigit hd
  · decide

variable (R : FloatRepr)

mutual

/-- The text of a value without floats is printable ASCII. -/
theorem printable_render : ∀ v : Json, Floatless v → ∀ c ∈ render R v, Printable c
  | null, _ => by simp [render, Printable]
  | bool true, _ => by simp [render, Printable]
  | bool false, _ => by simp [render, Printable]
  | num (.int z), _ => by rw [render]; exact printable_intText z
  | num (.float f), hf => by
    rw [Floatless] at hf
    exact hf.elim
  | str s, _ => by rw [render]; exact printable_renderString s
  | arr [], _ => by simp [render, Printable]
  | arr (v :: vs), hf => by
    rw [Floatless, FloatlessElems] at hf
    have hv := printable_render v hf.1
    have hvs := printable_renderElems vs hf.2
    rw [render]
    simp only [List.forall_mem_cons, List.forall_mem_append]
    exact ⟨by decide, hv, hvs, by decide, List.forall_mem_nil _⟩
  | obj [], _ => by simp [render, Printable]
  | obj ((k, v) :: fs), hf => by
    rw [Floatless, FloatlessFields] at hf
    have hk := printable_renderString k
    have hv := printable_render v hf.1
    have hfs := printable_renderFields fs hf.2
    rw [render]
    simp only [List.forall_mem_cons, List.forall_mem_append]
    exact ⟨by decide, hk, by decide, by decide, hv, hfs, by decide, List.forall_mem_nil _⟩

theorem printable_renderElems : ∀ vs : List Json, FloatlessElems vs →
    ∀ c ∈ renderElems R vs, Printable c
  | [], _ => List.forall_mem_nil _
  | v :: vs, hf => by
    rw [FloatlessElems] at hf
    have hv := printable_render v hf.1
    have hvs := printable_renderElems vs hf.2
    rw [renderElems]
    simp only [List.forall_mem_cons, List.forall_mem_append]
    exact ⟨by decide, by decide, hv, hvs⟩

theorem printable_renderFields : ∀ fs : List (String × Json), FloatlessFields fs →
    ∀ c ∈ renderFields R fs, Printable c
  | [], _ => List.forall_mem_nil _
  | (k, v) :: fs, hf => by
    rw [FloatlessFields] at hf
    have hk := printable_renderString k
    have hv := printable_render v hf.1
    have hfs := printable_renderFields fs hf.2
    rw [renderFields]
    simp only [List.forall_mem_cons, List.forall_mem_append]
    exact ⟨by decide, by decide, hk, by decide, by decide, hv, hfs⟩

end

end Printable

end Json
