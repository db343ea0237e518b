import InferenceApi.Lib.Json

/-!
# The text of a JSON value

`render` is Python's `json.dumps` with its default separators and `ensure_ascii`: every
character outside printable ASCII, quotes and backslashes are escaped. The text
determines the value (`render_injective`). The proof reads the text from the left: the
first character tells the kind of value, escapes form a prefix code (`unescape` undoes
one), and what follows a value never continues a number.

The text of a float, Python's shortest round-trip `repr`, is a parameter.
-/

namespace Json

/-! ## Strings -/

/-- `'{:04x}'.format(n)`, the low 16 bits. -/
def hex4 (n : ℕ) : List Char :=
  [Nat.digitChar (n / 4096 % 16), Nat.digitChar (n / 256 % 16), Nat.digitChar (n / 16 % 16),
    Nat.digitChar (n % 16)]

/-- A `\uXXXX` escape. -/
def unicodeEscape (n : ℕ) : List Char := '\\' :: 'u' :: hex4 n

/-- The short escapes of `ESCAPE_DCT`: the character and the letter after the backslash. -/
def shortEscapes : List (Char × Char) :=
  [('\x22', '\x22'), ('\\', '\\'), ('\n', 'n'), ('\r', 'r'), ('\t', 't'), ('\x0c', 'f'),
    ('\x08', 'b')]

/-- Printable ASCII is written as it is. -/
def isPlain (c : Char) : Bool :=
  32 ≤ c.toNat && c.toNat ≤ 126 && c ≠ '\x22' && c ≠ '\\'

/-- One character of a string: itself, a short escape, or one or two `\uXXXX` escapes. -/
def escapeChar (c : Char) : List Char :=
  match shortEscapes.find? fun e => e.1 = c with
  | some (_, letter) => ['\\', letter]
  | none =>
    if isPlain c then [c]
    else if c.toNat < 0x10000 then unicodeEscape c.toNat
    else unicodeEscape (0xd800 + (c.toNat - 0x10000) / 1024 % 1024)
      ++ unicodeEscape (0xdc00 + (c.toNat - 0x10000) % 1024)

/-- A string between its quotes. -/
def renderString (s : String) : List Char :=
  '\x22' :: (s.toList.flatMap escapeChar ++ ['\x22'])

/-! ## Numbers -/

/-- The characters that may follow a value: `,`, `]` and `}`. -/
def isStop (c : Char) : Bool := c = ',' || c = ']' || c = '}'

/-- Which kind of value a text starts with. -/
inductive Tag
  | null | true | false | str | arr | obj | num
deriving DecidableEq

/-- The kind a first character announces. -/
def Tag.ofChar (c : Char) : Tag :=
  if c = 'n' then .null
  else if c = 't' then .true
  else if c = 'f' then .false
  else if c = '\x22' then .str
  else if c = '[' then .arr
  else if c = '{' then .obj
  else .num

/-- How floats are written. -/
structure FloatRepr where
  text : PyFloat → List Char
  /-- `repr` round-trips. -/
  injective : Function.Injective text
  /-- The text starts like a number, -/
  head : ∀ f, (text f).head?.map Tag.ofChar = some .num
  /-- has no character that could follow it, -/
  noStop : ∀ f, ∀ c ∈ text f, isStop c = false
  /-- and is not the text of an integer. -/
  notInt : ∀ f, ∃ c ∈ text f, c.isDigit = false ∧ c ≠ '-'

/-- The text of an integer. -/
def intText : ℤ → List Char
  | .ofNat n => Nat.toDigits 10 n
  | .negSucc n => '-' :: Nat.toDigits 10 (n + 1)

variable (R : FloatRepr)

/-- The text of a number. -/
def numText : PyNum → List Char
  | .int z => intText z
  | .float f => R.text f

/-! ## Values -/

mutual

/-- `json.dumps`. -/
def render : Json → List Char
  | null => ['n', 'u', 'l', 'l']
  | bool true => ['t', 'r', 'u', 'e']
  | bool false => ['f', 'a', 'l', 's', 'e']
  | num n => numText R n
  | str s => renderString s
  | arr [] => ['[', ']']
  | arr (v :: vs) => '[' :: (render v ++ (renderElems vs ++ [']']))
  | obj [] => ['{', '}']
  | obj ((k, v) :: fields) =>
    '{' :: (renderString k ++ ':' :: ' ' :: (render v ++ (renderFields fields ++ ['}'])))

/-- The elements after the first. -/
def renderElems : List Json → List Char
  | [] => []
  | v :: vs => ',' :: ' ' :: (render v ++ renderElems vs)

/-- The fields after the first. -/
def renderFields : List (String × Json) → List Char
  | [] => []
  | (k, v) :: fields =>
    ',' :: ' ' :: (renderString k ++ ':' :: ' ' :: (render v ++ renderFields fields))

end

/-- `json.dumps(v, sort_keys=True)`. -/
def dumpsSorted (v : Json) : String := String.ofList (render R (sortKeys v))

/-! ## Escapes form a prefix code -/

/-- The value of a hexadecimal digit. -/
def unhex (c : Char) : ℕ := if c.isDigit then c.toNat - 48 else c.toNat - 87

/-- The value of four hexadecimal digits. -/
def unhex4 (a b c d : Char) : ℕ := unhex a * 4096 + unhex b * 256 + unhex c * 16 + unhex d

/-- Read the second half of a surrogate pair whose first half is `hi`. -/
def unescapeLow (hi : ℕ) : List Char → Option (Char × List Char)
  | '\\' :: 'u' :: a :: b :: c :: d :: rest =>
    some (Char.ofNat (0x10000 + (hi - 0xd800) * 1024 + (unhex4 a b c d - 0xdc00)), rest)
  | _ => none

/-- Read one escaped character off the front. -/
def unescape : List Char → Option (Char × List Char)
  | '\\' :: 'u' :: a :: b :: c :: d :: rest =>
    if unhex4 a b c d < 0xd800 ∨ 0xdfff < unhex4 a b c d then
      some (Char.ofNat (unhex4 a b c d), rest)
    else unescapeLow (unhex4 a b c d) rest
  | '\\' :: letter :: rest =>
    (shortEscapes.find? fun e => e.2 = letter).map fun e => (e.1, rest)
  | c :: rest => some (c, rest)
  | [] => none

lemma unhex_digitChar {n : ℕ} (h : n < 16) : unhex (Nat.digitChar n) = n := by
  interval_cases n <;> decide

lemma unhex4_hex4 (n : ℕ) (h : n < 65536) :
    unhex4 (Nat.digitChar (n / 4096 % 16)) (Nat.digitChar (n / 256 % 16))
      (Nat.digitChar (n / 16 % 16)) (Nat.digitChar (n % 16)) = n := by
  unfold unhex4
  rw [unhex_digitChar (Nat.mod_lt _ (by norm_num)), unhex_digitChar (Nat.mod_lt _ (by norm_num)),
    unhex_digitChar (Nat.mod_lt _ (by norm_num)), unhex_digitChar (Nat.mod_lt _ (by norm_num))]
  omega

/-- A Unicode scalar value is not a surrogate. -/
lemma toNat_not_surrogate (c : Char) : c.toNat < 0xd800 ∨ 0xdfff < c.toNat := by
  have h := c.valid
  rcases h with h | h
  · exact Or.inl h
  · exact Or.inr h.1

lemma toNat_lt (c : Char) : c.toNat < 0x110000 := by
  have h := c.valid
  rcases h with h | h
  · exact h.trans (by norm_num)
  · exact h.2

lemma unescape_unicodeEscape {n : ℕ} (h : n < 65536) (hs : n < 0xd800 ∨ 0xdfff < n)
    (rest : List Char) : unescape (unicodeEscape n ++ rest) = some (Char.ofNat n, rest) := by
  have hval := unhex4_hex4 _ h
  simp only [unicodeEscape, hex4, List.cons_append, List.nil_append]
  rw [unescape, hval, if_pos hs]

lemma unescape_pair {hi lo : ℕ} (hhi : 0xd800 ≤ hi) (hhi' : hi ≤ 0xdbff) (hlo : lo ≤ 0xdfff)
    (rest : List Char) : unescape (unicodeEscape hi ++ unicodeEscape lo ++ rest) =
      some (Char.ofNat (0x10000 + (hi - 0xd800) * 1024 + (lo - 0xdc00)), rest) := by
  have hvalhi := unhex4_hex4 hi (by omega)
  have hvallo := unhex4_hex4 lo (by omega)
  simp only [unicodeEscape, hex4, List.cons_append, List.nil_append]
  rw [unescape, hvalhi, if_neg (by omega), unescapeLow, hvallo]

/-- The ways to write a character. -/
inductive Escaped (c : Char) : List Char → Prop
  | short {letter : Char} : (c, letter) ∈ shortEscapes → Escaped c ['\\', letter]
  | plain : isPlain c = true → Escaped c [c]
  | single : c.toNat < 0x10000 → Escaped c (unicodeEscape c.toNat)
  /-- The halves of a surrogate pair. -/
  | pair {hi lo : ℕ} : 0xd800 ≤ hi → hi ≤ 0xdbff → 0xdc00 ≤ lo → lo ≤ 0xdfff →
      0x10000 + (hi - 0xd800) * 1024 + (lo - 0xdc00) = c.toNat →
      Escaped c (unicodeEscape hi ++ unicodeEscape lo)

lemma escaped_escapeChar (c : Char) : Escaped c (escapeChar c) := by
  unfold escapeChar
  split
  · next c' letter hfind =>
    obtain rfl : c' = c := by simpa using List.find?_some hfind
    exact .short (List.mem_of_find?_eq_some hfind)
  · split
    · next hplain => exact .plain hplain
    · split
      · next hsingle => exact .single hsingle
      · next hpair =>
        have hlt := toNat_lt c
        exact .pair (by omega) (by omega) (by omega) (by omega) (by omega)

/-- Reading back one escaped character. -/
theorem unescape_escapeChar (c : Char) (rest : List Char) :
    unescape (escapeChar c ++ rest) = some (c, rest) := by
  have h := escaped_escapeChar c
  generalize escapeChar c = cs at h ⊢
  cases h with
  | short hmem =>
    simp only [shortEscapes, List.mem_cons, Prod.mk.injEq, List.not_mem_nil, or_false] at hmem
    rcases hmem with ⟨rfl, rfl⟩ | ⟨rfl, rfl⟩ | ⟨rfl, rfl⟩ | ⟨rfl, rfl⟩ | ⟨rfl, rfl⟩ | ⟨rfl, rfl⟩ |
      ⟨rfl, rfl⟩ <;> rfl
  | plain hplain =>
    have hc : c ≠ '\\' := by
      rintro rfl
      revert hplain
      decide
    rw [List.singleton_append]
    unfold unescape
    split
    · next heq => exact absurd (List.cons.inj heq).1 hc
    · next heq => exact absurd (List.cons.inj heq).1 hc
    · next heq =>
      obtain ⟨rfl, rfl⟩ := List.cons.inj heq
      rfl
    · next heq => cases heq
  | single hsingle =>
    rw [unescape_unicodeEscape hsingle (toNat_not_surrogate c), Char.ofNat_toNat]
  | pair hhi hhi' _ hlo hc =>
    rw [unescape_pair hhi hhi' hlo, hc, Char.ofNat_toNat]

/-- No escape starts with the closing quote. -/
lemma escapeChar_ne_quote (c : Char) (rest tail : List Char) :
    escapeChar c ++ rest ≠ '\x22' :: tail := by
  intro h
  have hc := unescape_escapeChar c rest
  rw [h] at hc
  have hq : unescape ('\x22' :: tail) = some ('\x22', tail) := by
    rfl
  rw [hq, Option.some.injEq, Prod.mk.injEq] at hc
  obtain ⟨rfl, -⟩ := hc
  have hesc : escapeChar '\x22' = ['\\', '\x22'] := by decide
  rw [hesc] at h
  exact absurd (List.cons.inj h).1 (by decide)

/-- The text of a string determines the string and where it ends. -/
theorem renderString_cancel {s t : String} {r r' : List Char}
    (h : renderString s ++ r = renderString t ++ r') : s = t ∧ r = r' := by
  have hbody : ∀ cs ds : List Char,
      cs.flatMap escapeChar ++ '\x22' :: r = ds.flatMap escapeChar ++ '\x22' :: r' →
        cs = ds ∧ r = r' := by
    intro cs
    induction cs with
    | nil =>
      intro ds hds
      cases ds with
      | nil => exact ⟨rfl, (List.cons.inj hds).2⟩
      | cons d ds =>
        rw [List.flatMap_cons, List.append_assoc] at hds
        exact absurd hds.symm (escapeChar_ne_quote d _ _)
    | cons c cs ih =>
      intro ds hds
      cases ds with
      | nil =>
        rw [List.flatMap_cons, List.append_assoc] at hds
        exact absurd hds (escapeChar_ne_quote c _ _)
      | cons d ds =>
        rw [List.flatMap_cons, List.flatMap_cons, List.append_assoc, List.append_assoc] at hds
        have hread := unescape_escapeChar c (cs.flatMap escapeChar ++ '\x22' :: r)
        rw [hds, unescape_escapeChar, Option.some.injEq, Prod.mk.injEq] at hread
        obtain ⟨rfl, hrest⟩ := hread
        obtain ⟨rfl, hr⟩ := ih ds hrest.symm
        exact ⟨rfl, hr⟩
  unfold renderString at h
  rw [List.cons_append, List.cons_append, List.append_assoc, List.append_assoc] at h
  obtain ⟨hs, hr⟩ := hbody _ _ (List.cons.inj h).2
  exact ⟨String.toList_inj.mp hs, hr⟩

/-! ## Numbers end where a value may be followed -/

/-- `r` is empty or starts with a character that may follow a value. -/
def Stops (r : List Char) : Prop := ∀ c ∈ r.head?, isStop c = true

/-- A text without stops is cut off at the first stop. -/
lemma cut_at_stop {xs ys r r' : List Char} (hx : ∀ c ∈ xs, isStop c = false)
    (hy : ∀ c ∈ ys, isStop c = false) (hr : Stops r) (hr' : Stops r')
    (h : xs ++ r = ys ++ r') : xs = ys ∧ r = r' := by
  induction xs generalizing ys with
  | nil =>
    cases ys with
    | nil => exact ⟨rfl, h⟩
    | cons y ys =>
      have hstop := hr y (by rw [List.nil_append] at h; rw [h]; rfl)
      rw [hy y List.mem_cons_self] at hstop
      cases hstop
  | cons x xs ih =>
    cases ys with
    | nil =>
      have hstop := hr' x (by rw [List.nil_append] at h; rw [← h]; rfl)
      rw [hx x List.mem_cons_self] at hstop
      cases hstop
    | cons y ys =>
      obtain ⟨rfl, htail⟩ := List.cons.inj h
      obtain ⟨rfl, hrest⟩ := ih (fun c hc => hx c (List.mem_cons_of_mem _ hc))
        (fun c hc => hy c (List.mem_cons_of_mem _ hc)) htail
      exact ⟨rfl, hrest⟩

lemma toDigits_injective {m n : ℕ} (h : Nat.toDigits 10 m = Nat.toDigits 10 n) : m = n := by
  rw [← @Nat.ofDigitChars_ten_toDigits m, h, Nat.ofDigitChars_ten_toDigits]

lemma digit_of_mem_intText {z : ℤ} {c : Char} (hc : c ∈ intText z) :
    c.isDigit = true ∨ c = '-' := by
  cases z with
  | ofNat n => exact Or.inl (Nat.isDigit_of_mem_toDigits (by norm_num) (by norm_num) hc)
  | negSucc n =>
    rcases List.mem_cons.mp hc with rfl | hc
    · exact Or.inr rfl
    · exact Or.inl (Nat.isDigit_of_mem_toDigits (by norm_num) (by norm_num) hc)

lemma minus_notMem_toDigits (n : ℕ) : '-' ∉ Nat.toDigits 10 n := by
  intro h
  have hd := Nat.isDigit_of_mem_toDigits (by norm_num) (by norm_num) h
  revert hd
  decide

lemma intText_injective : Function.Injective intText := by
  intro y z h
  cases y with
  | ofNat m =>
    cases z with
    | ofNat n => rw [toDigits_injective h]
    | negSucc n =>
      have hm : Nat.toDigits 10 m = '-' :: Nat.toDigits 10 (n + 1) := h
      exact absurd (by rw [hm]; exact List.mem_cons_self) (minus_notMem_toDigits m)
  | negSucc m =>
    cases z with
    | ofNat n =>
      have hn : '-' :: Nat.toDigits 10 (m + 1) = Nat.toDigits 10 n := h
      exact absurd (by rw [← hn]; exact List.mem_cons_self) (minus_notMem_toDigits n)
    | negSucc n =>
      have := toDigits_injective (List.cons.inj h).2
      rw [Nat.succ.inj this]

lemma numText_injective : Function.Injective (numText R) := by
  have hne : ∀ z f, intText z ≠ R.text f := by
    intro z f h
    obtain ⟨c, hc, hdigit, hminus⟩ := R.notInt f
    rcases digit_of_mem_intText (h ▸ hc) with hd | hd
    · rw [hdigit] at hd
      cases hd
    · exact hminus hd
  intro m n h
  cases m with
  | int y =>
    cases n with
    | int z => rw [intText_injective h]
    | float f => exact absurd h (hne y f)
  | float f =>
    cases n with
    | int z => exact absurd h.symm (hne z f)
    | float g => rw [R.injective h]

lemma isStop_of_isDigit {c : Char} (h : c.isDigit = true) : isStop c = false := by
  rw [Bool.eq_false_iff]
  intro hs
  simp only [isStop, Bool.or_eq_true, decide_eq_true_eq] at hs
  rcases hs with (rfl | rfl) | rfl <;> revert h <;> decide

lemma numText_noStop (n : PyNum) : ∀ c ∈ numText R n, isStop c = false := by
  intro c hc
  cases n with
  | int z =>
    rcases digit_of_mem_intText hc with hd | rfl
    · exact isStop_of_isDigit hd
    · rfl
  | float f => exact R.noStop f c hc

lemma tag_of_digit {c : Char} (h : c.isDigit = true ∨ c = '-') : Tag.ofChar c = .num := by
  have hne : c ≠ 'n' ∧ c ≠ 't' ∧ c ≠ 'f' ∧ c ≠ '\x22' ∧ c ≠ '[' ∧ c ≠ '{' := by
    refine ⟨?_, ?_, ?_, ?_, ?_, ?_⟩ <;> rintro rfl <;> revert h <;> decide
  simp [Tag.ofChar, hne]

lemma numText_tag (n : PyNum) : (numText R n).head?.map Tag.ofChar = some .num := by
  cases n with
  | int z =>
    have hne : intText z ≠ [] := by
      cases z with
      | ofNat n => exact Nat.toDigits_ne_nil
      | negSucc n => exact List.cons_ne_nil _ _
    obtain ⟨c, cs, hcs⟩ := List.exists_cons_of_ne_nil hne
    have hc : c ∈ intText z := by rw [hcs]; exact List.mem_cons_self
    rw [numText, hcs, List.head?_cons, Option.map_some, tag_of_digit (digit_of_mem_intText hc)]
  | float f => exact R.head f

/-! ## The text determines the value -/

/-- The kind of a value. -/
def tag : Json → Tag
  | null => .null
  | bool true => .true
  | bool false => .false
  | num _ => .num
  | str _ => .str
  | arr _ => .arr
  | obj _ => .obj

/-- Two values of the same kind. -/
inductive SameKind : Json → Json → Prop
  | null : SameKind null null
  | bool (b : Bool) : SameKind (bool b) (bool b)
  | num (m n : PyNum) : SameKind (num m) (num n)
  | str (s t : String) : SameKind (str s) (str t)
  | arr (xs ys : List Json) : SameKind (arr xs) (arr ys)
  | obj (fs gs : List (String × Json)) : SameKind (obj fs) (obj gs)

lemma sameKind_of_tag {v w : Json} (h : tag v = tag w) : SameKind v w := by
  rcases v with _ | (_ | _) | _ | _ | _ | _ <;> rcases w with _ | (_ | _) | _ | _ | _ | _ <;>
    cases h <;> constructor

/-- The first character tells the kind. -/
lemma render_tag (v : Json) : (render R v).head?.map Tag.ofChar = some (tag v) := by
  cases v with
  | null => rfl
  | bool b => cases b <;> rfl
  | num n => rw [render]; exact numText_tag R n
  | str s => rfl
  | arr xs => cases xs <;> rfl
  | obj fields => rcases fields with _ | ⟨⟨k, v⟩, fields⟩ <;> rfl

lemma tag_eq_of_render {v w : Json} {r r' : List Char}
    (h : render R v ++ r = render R w ++ r') : tag v = tag w := by
  have hhead : ∀ (u : Json) (q : List Char),
      (render R u ++ q).head?.map Tag.ofChar = some (tag u) := by
    intro u q
    have hu := render_tag R u
    cases hr : render R u with
    | nil =>
      rw [hr] at hu
      cases hu
    | cons c cs =>
      rw [hr] at hu
      exact hu
  have hv := hhead v r
  rw [h, hhead w r', Option.some.injEq] at hv
  exact hv.symm

/-- No value starts with a character that may follow one. -/
lemma render_head_noStop (v : Json) : ∃ c cs, render R v = c :: cs ∧ isStop c = false := by
  cases hv : render R v with
  | nil =>
    have htag := render_tag R v
    rw [hv] at htag
    cases htag
  | cons c cs =>
    refine ⟨c, cs, rfl, ?_⟩
    cases v with
    | null => cases hv; rfl
    | bool b => cases b <;> cases hv <;> rfl
    | num n =>
      rw [render] at hv
      exact numText_noStop R n c (by rw [hv]; exact List.mem_cons_self)
    | str s => cases hv; rfl
    | arr xs => cases xs <;> cases hv <;> rfl
    | obj fields => rcases fields with _ | ⟨⟨k, v⟩, fields⟩ <;> cases hv <;> rfl

lemma render_arr_cons_ne_nil (v : Json) (vs : List Json) (r r' : List Char) :
    render R (arr (v :: vs)) ++ r ≠ render R (arr []) ++ r' := by
  intro h
  obtain ⟨c, cs, hv, hc⟩ := render_head_noStop R v
  rw [render, render, hv] at h
  simp only [List.cons_append, List.nil_append, List.cons.injEq, true_and] at h
  rw [h.1] at hc
  cases hc

lemma render_obj_cons_ne_nil (k : String) (v : Json) (fields : List (String × Json))
    (r r' : List Char) : render R (obj ((k, v) :: fields)) ++ r ≠ render R (obj []) ++ r' := by
  intro h
  rw [render, render, renderString] at h
  simp only [List.cons_append, List.cons.injEq, true_and] at h
  exact absurd h.1 (by decide)

lemma stops_elems (vs : List Json) (r : List Char) : Stops (renderElems R vs ++ ']' :: r) := by
  intro c hc
  cases vs <;> rw [renderElems] at hc <;> cases hc <;> rfl

lemma stops_fields (fields : List (String × Json)) (r : List Char) :
    Stops (renderFields R fields ++ '}' :: r) := by
  intro c hc
  rcases fields with _ | ⟨⟨k, v⟩, fields⟩ <;> rw [renderFields] at hc <;> cases hc <;> rfl

mutual

/-- **The text determines the value** and where it ends, in front of anything that may
follow a value. -/
theorem render_cancel : ∀ (v w : Json) {r r' : List Char}, Stops r → Stops r' →
    render R v ++ r = render R w ++ r' → v = w ∧ r = r'
  | null, w, _, _, _, _, h => by
    cases sameKind_of_tag (tag_eq_of_render R h)
    exact ⟨rfl, List.append_cancel_left h⟩
  | bool _, w, _, _, _, _, h => by
    cases sameKind_of_tag (tag_eq_of_render R h)
    exact ⟨rfl, List.append_cancel_left h⟩
  | num m, w, _, _, hr, hr', h => by
    cases sameKind_of_tag (tag_eq_of_render R h) with
    | num _ n =>
      rw [render, render] at h
      obtain ⟨hmn, hrest⟩ := cut_at_stop (numText_noStop R m) (numText_noStop R n) hr hr' h
      exact ⟨by rw [numText_injective R hmn], hrest⟩
  | str s, w, _, _, _, _, h => by
    cases sameKind_of_tag (tag_eq_of_render R h) with
    | str _ t =>
      rw [render, render] at h
      obtain ⟨rfl, hrest⟩ := renderString_cancel h
      exact ⟨rfl, hrest⟩
  | arr [], w, r, r', _, _, h => by
    cases sameKind_of_tag (tag_eq_of_render R h) with
    | arr _ ys =>
      cases ys with
      | nil => exact ⟨rfl, List.append_cancel_left h⟩
      | cons y ys => exact absurd h.symm (render_arr_cons_ne_nil R y ys r' r)
  | arr (v :: vs), w, r, r', _, _, h => by
    cases sameKind_of_tag (tag_eq_of_render R h) with
    | arr _ ys =>
      cases ys with
      | nil => exact absurd h (render_arr_cons_ne_nil R v vs r r')
      | cons y ys =>
        simp only [render, List.cons_append, List.append_assoc, List.nil_append, List.cons.injEq,
          true_and] at h
        obtain ⟨rfl, htail⟩ := render_cancel v y (stops_elems R vs r) (stops_elems R ys r') h
        obtain ⟨rfl, hr⟩ := renderElems_cancel vs ys htail
        exact ⟨rfl, hr⟩
  | obj [], w, r, r', _, _, h => by
    cases sameKind_of_tag (tag_eq_of_render R h) with
    | obj _ gs =>
      rcases gs with _ | ⟨⟨l, y⟩, gs⟩
      · exact ⟨rfl, List.append_cancel_left h⟩
      · exact absurd h.symm (render_obj_cons_ne_nil R l y gs r' r)
  | obj ((k, v) :: fs), w, r, r', _, _, h => by
    cases sameKind_of_tag (tag_eq_of_render R h) with
    | obj _ gs =>
      rcases gs with _ | ⟨⟨l, y⟩, gs⟩
      · exact absurd h (render_obj_cons_ne_nil R k v fs r r')
      · simp only [render, List.cons_append, List.append_assoc, List.nil_append, List.cons.injEq,
          true_and] at h
        obtain ⟨rfl, hval⟩ := renderString_cancel h
        simp only [List.cons.injEq, true_and] at hval
        obtain ⟨rfl, htail⟩ := render_cancel v y (stops_fields R fs r) (stops_fields R gs r') hval
        obtain ⟨rfl, hr⟩ := renderFields_cancel fs gs htail
        exact ⟨rfl, hr⟩

/-- The elements after the first, up to the closing bracket. -/
theorem renderElems_cancel : ∀ (vs ws : List Json) {r r' : List Char},
    renderElems R vs ++ ']' :: r = renderElems R ws ++ ']' :: r' → vs = ws ∧ r = r'
  | [], [], _, _, h => ⟨rfl, by simpa [renderElems] using h⟩
  | [], w :: ws, _, _, h => by simp [renderElems] at h
  | v :: vs, [], _, _, h => by simp [renderElems] at h
  | v :: vs, w :: ws, r, r', h => by
    simp only [renderElems, List.cons_append, List.append_assoc, List.cons.injEq, true_and] at h
    obtain ⟨rfl, hrest⟩ := render_cancel v w (stops_elems R vs r) (stops_elems R ws r') h
    obtain ⟨rfl, hr⟩ := renderElems_cancel vs ws hrest
    exact ⟨rfl, hr⟩

/-- The fields after the first, up to the closing brace. -/
theorem renderFields_cancel : ∀ (fs gs : List (String × Json)) {r r' : List Char},
    renderFields R fs ++ '}' :: r = renderFields R gs ++ '}' :: r' → fs = gs ∧ r = r'
  | [], [], _, _, h => ⟨rfl, by simpa [renderFields] using h⟩
  | [], (l, w) :: gs, _, _, h => by simp [renderFields] at h
  | (k, v) :: fs, [], _, _, h => by simp [renderFields] at h
  | (k, v) :: fs, (l, w) :: gs, r, r', h => by
    simp only [renderFields, List.cons_append, List.append_assoc, List.cons.injEq, true_and] at h
    obtain ⟨rfl, hval⟩ := renderString_cancel h
    simp only [List.cons.injEq, true_and] at hval
    obtain ⟨rfl, hrest⟩ := render_cancel v w (stops_fields R fs r) (stops_fields R gs r') hval
    obtain ⟨rfl, hr⟩ := renderFields_cancel fs gs hrest
    exact ⟨rfl, hr⟩

end

/-- `json.dumps` is injective. -/
theorem render_injective : Function.Injective (render R) := fun v w h => by
  have hstop : Stops [] := by
    intro c hc
    cases hc
  exact (render_cancel R v w hstop hstop (by rw [h])).1

/-- Values with the same sorted text are the same up to key order. -/
theorem sortKeys_eq_of_dumpsSorted_eq {v w : Json} (h : dumpsSorted R v = dumpsSorted R w) :
    sortKeys v = sortKeys w :=
  render_injective R (String.ofList_injective h)

/-! ## The laws of `FloatRepr` can be met -/

/-- A float's text: a word, or a point and the number of the rational. -/
def codedText : PyFloat → List Char
  | .nan => ['N', 'a', 'N']
  | .inf false => ['I', 'n', 'f']
  | .inf true => ['-', 'I', 'n', 'f']
  | .negZero => ['-', '0', '.', '0']
  | .rat q => '.' :: Nat.toDigits 10 (Encodable.encode q)

lemma codedText_digits {q : ℚ} {c : Char} (hc : c ∈ codedText (.rat q)) :
    c = '.' ∨ c.isDigit = true := by
  rcases List.mem_cons.mp hc with rfl | hc
  · exact Or.inl rfl
  · exact Or.inr (Nat.isDigit_of_mem_toDigits (by norm_num) (by norm_num) hc)

/-- A representation of floats with all the laws. -/
def FloatRepr.coded : FloatRepr where
  text := codedText
  injective := by
    intro f g h
    cases f with
    | rat p =>
      cases g with
      | rat q =>
        have hdigits := toDigits_injective (List.cons.inj h).2
        rw [Encodable.encode_injective hdigits]
      | nan => simp [codedText] at h
      | negZero => simp [codedText] at h
      | inf negative => cases negative <;> simp [codedText] at h
    | nan =>
      cases g with
      | inf negative => cases negative <;> simp [codedText] at h
      | _ => simp [codedText] at h ⊢
    | negZero =>
      cases g with
      | inf negative => cases negative <;> simp [codedText] at h
      | _ => simp [codedText] at h ⊢
    | inf negative =>
      cases g with
      | inf negative' => cases negative <;> cases negative' <;> simp [codedText] at h ⊢
      | _ => cases negative <;> simp [codedText] at h
  head f := by
    cases f with
    | inf negative => cases negative <;> rfl
    | _ => rfl
  noStop f := by
    cases f with
    | rat q =>
      intro c hc
      rcases codedText_digits hc with rfl | hd
      · rfl
      · exact isStop_of_isDigit hd
    | inf negative => cases negative <;> simp [codedText, isStop]
    | _ => simp [codedText, isStop]
  notInt f := by
    cases f with
    | rat q => exact ⟨'.', List.mem_cons_self, by decide, by decide⟩
    | nan => exact ⟨'N', by simp [codedText], by decide, by decide⟩
    | negZero => exact ⟨'.', by simp [codedText], by decide, by decide⟩
    | inf negative => exact ⟨'I', by cases negative <;> simp [codedText], by decide, by decide⟩

end Json
