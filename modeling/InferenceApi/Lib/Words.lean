import Mathlib

/-!
# Words and the blanks between them

`words sep xs` are the maximal runs of elements of `xs` that are no separators. Squeezing
each run of separators to one, and stripping the ends, prints the words with single
separators between them (`strip_squeeze`), and from there the words are read back
(`words_intercalate`).
-/

namespace Words

variable {α β : Type*}

/-- The maximal runs of elements that are no separators. -/
def words (sep : α → Bool) (xs : List α) : List (List α) := (xs.splitOnP sep).filter (· ≠ [])

/-- Remove separators at both ends. -/
def strip (sep : α → Bool) (xs : List α) : List α := (xs.dropWhile sep).rdropWhile sep

/-- Replace each run of separators by one `blank`. The flag says whether the element before was
a separator. -/
def squeeze (sep : α → Bool) (blank : α) : Bool → List α → List α
  | _, [] => []
  | after, x :: xs =>
    if sep x then
      if after then squeeze sep blank true xs else blank :: squeeze sep blank true xs
    else x :: squeeze sep blank false xs

variable {sep : α → Bool} {blank : α} {x : α} {xs ys : List α} {ws : List (List α)}

/-! ## Words -/

@[simp] lemma words_nil : words sep [] = [] := by simp [words]

/-- Words end at a separator. -/
lemma words_append_cons (h : sep x = true) :
    words sep (xs ++ x :: ys) = words sep xs ++ words sep ys := by
  rw [words, List.splitOnP_append_cons xs ys h, List.filter_append]
  rfl

/-- A separator in front belongs to no word. -/
lemma words_cons_of_sep (h : sep x = true) : words sep (x :: xs) = words sep xs := by
  have hsplit := @words_append_cons α sep x [] xs h
  rwa [List.nil_append, words_nil, List.nil_append] at hsplit

/-- Without separators there is one word. -/
lemma words_of_forall (hne : xs ≠ []) (h : ∀ x ∈ xs, sep x = false) : words sep xs = [xs] := by
  rw [words, List.splitOnP_eq_singleton h]
  simp [hne]

/-- The pieces of a split are made of elements that are no separators. -/
lemma of_mem_splitOnP {w : List α} (hw : w ∈ xs.splitOnP sep) :
    ∀ x ∈ w, x ∈ xs ∧ sep x = false := by
  induction xs generalizing w with
  | nil =>
    rw [List.splitOnP_nil, List.mem_singleton] at hw
    subst hw
    exact List.forall_mem_nil _
  | cons x xs ih =>
    have hold : ∀ {w}, w ∈ xs.splitOnP sep → ∀ y ∈ w, y ∈ x :: xs ∧ sep y = false :=
      fun hw y hy => (ih hw y hy).imp_left (List.mem_cons_of_mem x)
    rw [List.splitOnP_cons_eq_if_modifyHead] at hw
    split at hw
    · rcases List.mem_cons.mp hw with rfl | hw
      · exact List.forall_mem_nil _
      · exact hold hw
    · next hx =>
      -- the element joins the first piece
      obtain ⟨first, rest, hsplit⟩ := List.exists_cons_of_ne_nil (List.splitOnP_ne_nil sep xs)
      rw [hsplit] at hold hw
      rcases List.mem_cons.mp hw with rfl | hw
      · exact List.forall_mem_cons.mpr
          ⟨⟨List.mem_cons_self, Bool.eq_false_iff.mpr hx⟩, hold List.mem_cons_self⟩
      · exact hold (List.mem_cons_of_mem _ hw)

/-- A word is not empty and made of elements that are no separators. -/
lemma of_mem_words {w : List α} (hw : w ∈ words sep xs) :
    w ≠ [] ∧ ∀ x ∈ w, x ∈ xs ∧ sep x = false := by
  obtain ⟨hmem, hne⟩ := List.mem_filter.mp hw
  exact ⟨of_decide_eq_true hne, of_mem_splitOnP hmem⟩

/-- The words of a text are those of any text that has separators at the same places. -/
lemma words_map {sep' : β → Bool} {f : α → β} (hsep : ∀ x ∈ xs, sep' (f x) = sep x) :
    words sep' (xs.map f) = (words sep xs).map (List.map f) := by
  have hsplit : (xs.map f).splitOnP sep' = (xs.splitOnP sep).map (List.map f) := by
    induction xs with
    | nil => rfl
    | cons x xs ih =>
      obtain ⟨hx, hxs⟩ := List.forall_mem_cons.mp hsep
      rw [List.map_cons, List.splitOnP_cons_eq_if_modifyHead, List.splitOnP_cons_eq_if_modifyHead,
        hx, ih hxs]
      obtain ⟨first, rest, hfirst⟩ := List.exists_cons_of_ne_nil (List.splitOnP_ne_nil sep xs)
      rw [hfirst]
      split <;> rfl
  rw [words, words, hsplit, List.filter_map]
  congr 1
  refine List.filter_congr fun w _ => ?_
  simp

/-- Words printed with separators between them are read back. -/
theorem words_intercalate {blanks : List α} (hne : blanks ≠ [])
    (hblanks : ∀ x ∈ blanks, sep x = true)
    (hws : ∀ w ∈ ws, w ≠ [] ∧ ∀ x ∈ w, sep x = false) :
    words sep (blanks.intercalate ws) = ws := by
  have hskip : ∀ bs : List α, (∀ x ∈ bs, sep x = true) →
      ∀ ys, words sep (bs ++ ys) = words sep ys := by
    intro bs hbs ys
    induction bs with
    | nil => rfl
    | cons b bs ih =>
      obtain ⟨hb, hbs⟩ := List.forall_mem_cons.mp hbs
      rw [List.cons_append, words_cons_of_sep hb, ih hbs]
  induction ws with
  | nil => simp [List.intercalate]
  | cons w ws ih =>
    obtain ⟨hw, hws⟩ := List.forall_mem_cons.mp hws
    cases ws with
    | nil =>
      rw [List.intercalate_singleton]
      exact words_of_forall hw.1 hw.2
    | cons w' ws =>
      obtain ⟨b, bs, rfl⟩ := List.exists_cons_of_ne_nil hne
      obtain ⟨hb, hbs⟩ := List.forall_mem_cons.mp hblanks
      rw [List.intercalate_cons_cons, List.append_assoc, List.cons_append, words_append_cons hb,
        words_of_forall hw.1 hw.2, hskip bs hbs, ih hws]
      rfl

/-- A function of elements is applied to words and blanks alike. -/
lemma flatMap_intercalate (f : α → List β) (blanks : List α) (ws : List (List α)) :
    (blanks.intercalate ws).flatMap f =
      (blanks.flatMap f).intercalate (ws.map fun w => w.flatMap f) := by
  induction ws with
  | nil => rfl
  | cons w ws ih =>
    cases ws with
    | nil => simp
    | cons w' ws =>
      rw [List.map_cons] at ih
      rw [List.intercalate_cons_cons, List.flatMap_append, List.flatMap_append, ih, List.map_cons,
        List.map_cons, List.intercalate_cons_cons]

/-- Printed words are empty only if there are none. -/
lemma intercalate_ne_nil {blanks : List α} (hws : ∀ w ∈ ws, w ≠ []) (hne : ws ≠ []) :
    blanks.intercalate ws ≠ [] := by
  obtain ⟨w, ws, rfl⟩ := List.exists_cons_of_ne_nil hne
  have hw := hws w List.mem_cons_self
  cases ws with
  | nil => rwa [List.intercalate_singleton]
  | cons w' ws =>
    rw [List.intercalate_cons_cons, List.append_assoc]
    exact List.append_ne_nil_of_left_ne_nil hw _

/-! ## Squeezing and stripping -/

lemma rdropWhile_cons (x : α) (xs : List α) : (x :: xs).rdropWhile sep =
    if xs.rdropWhile sep = [] ∧ sep x = true then [] else x :: xs.rdropWhile sep := by
  rw [List.rdropWhile, List.rdropWhile, List.reverse_cons, List.dropWhile_append]
  cases hrest : xs.reverse.dropWhile sep with
  | nil => cases hx : sep x <;> simp [hx]
  | cons y ys => simp

/-- **Squeezing and stripping prints the words.** An open word in front of the text goes on in
it; behind a separator the text starts with a new one. -/
theorem rdropWhile_squeeze (hblank : sep blank = true) :
    (squeeze sep blank true xs).rdropWhile sep = [blank].intercalate (words sep xs) ∧
    ∀ w : List α, w ≠ [] → (∀ x ∈ w, sep x = false) →
      w ++ (squeeze sep blank false xs).rdropWhile sep =
        [blank].intercalate (words sep (w ++ xs)) := by
  induction xs with
  | nil =>
    refine ⟨by simp [squeeze, List.intercalate], fun w hne hw => ?_⟩
    rw [squeeze, List.rdropWhile_nil, List.append_nil, words_of_forall hne hw,
      List.intercalate_singleton]
  | cons x xs ih =>
    obtain ⟨ihblank, ihword⟩ := ih
    cases hx : sep x with
    | true =>
      refine ⟨by rw [squeeze, if_pos hx, if_pos rfl, ihblank, words_cons_of_sep hx], ?_⟩
      intro w hne hw
      rw [squeeze, if_pos hx, if_neg Bool.false_ne_true, rdropWhile_cons, ihblank,
        words_append_cons hx, words_of_forall hne hw]
      -- the blank stays if a word follows it
      by_cases hrest : words sep xs = []
      · rw [hrest, if_pos ⟨rfl, hblank⟩]
        simp
      · have hprinted := @intercalate_ne_nil α _ [blank] (fun w hw => (of_mem_words hw).1) hrest
        rw [if_neg fun h => hprinted h.1, List.singleton_append,
          List.intercalate_cons_of_ne_nil hrest, List.append_assoc, List.singleton_append]
    | false =>
      have hsqueeze : ∀ after, (squeeze sep blank after (x :: xs)).rdropWhile sep =
          x :: (squeeze sep blank false xs).rdropWhile sep := by
        intro after
        rw [squeeze, if_neg (by rw [hx]; exact Bool.false_ne_true), rdropWhile_cons, hx]
        exact if_neg fun h => Bool.false_ne_true h.2
      constructor
      · rw [hsqueeze]
        exact ihword [x] (List.cons_ne_nil x []) (List.forall_mem_singleton.mpr hx)
      · intro w hne hw
        have hword := ihword (w ++ [x]) (by simp) (List.forall_mem_append.mpr
          ⟨hw, List.forall_mem_singleton.mpr hx⟩)
        rw [hsqueeze, List.append_cons, hword, ← List.append_cons]

/-- Behind a separator the squeezed text does not start with one. -/
lemma head_squeeze : ∀ y ∈ (squeeze sep blank true xs).head?, sep y = false := by
  induction xs with
  | nil => simp [squeeze]
  | cons x xs ih =>
    rw [squeeze]
    split
    · exact ih
    · next hx =>
      intro y hy
      obtain rfl := Option.some.inj hy
      exact Bool.eq_false_iff.mpr hx

lemma dropWhile_of_head (h : ∀ y ∈ xs.head?, sep y = false) : xs.dropWhile sep = xs := by
  cases xs with
  | nil => rfl
  | cons x xs => rw [List.dropWhile_cons_of_neg (by rw [h x rfl]; exact Bool.false_ne_true)]

lemma dropWhile_squeeze (hblank : sep blank = true) :
    (squeeze sep blank false xs).dropWhile sep = squeeze sep blank true xs := by
  cases xs with
  | nil => rfl
  | cons x xs =>
    rw [squeeze, squeeze]
    split
    · rw [if_neg Bool.false_ne_true, if_pos rfl, List.dropWhile_cons_of_pos hblank]
      exact dropWhile_of_head head_squeeze
    · next hx => rw [List.dropWhile_cons_of_neg hx]

theorem strip_squeeze (hblank : sep blank = true) :
    strip sep (squeeze sep blank false xs) = [blank].intercalate (words sep xs) := by
  rw [strip, dropWhile_squeeze hblank]
  exact (rdropWhile_squeeze hblank).1

/-- A stripped text does not start with a separator, -/
lemma head_strip : ∀ y ∈ (strip sep xs).head?, sep y = false := by
  intro y hy
  obtain ⟨tail, htail⟩ := List.rdropWhile_prefix sep (xs.dropWhile sep)
  have hhead : y ∈ (xs.dropWhile sep).head? := by
    rw [← htail]
    exact List.mem_head?_append_of_mem_head? hy
  have hnot := List.head?_dropWhile_not sep xs
  rwa [Option.mem_def.mp hhead] at hnot

/-- nor end with one. -/
lemma getLast_strip : ∀ y ∈ (strip sep xs).getLast?, sep y = false := by
  intro y hy
  obtain ⟨hne, rfl⟩ := List.mem_getLast?_eq_getLast hy
  exact Bool.eq_false_iff.mpr (List.rdropWhile_last_not sep _ hne)

lemma strip_strip : strip sep (strip sep xs) = strip sep xs := by
  rw [strip, dropWhile_of_head head_strip]
  exact List.rdropWhile_idempotent sep _

/-- What is left are blanks and elements that are no separators. -/
lemma mem_squeeze {after : Bool} {y : α} (hy : y ∈ squeeze sep blank after xs) :
    y = blank ∨ y ∈ xs ∧ sep y = false := by
  induction xs generalizing after with
  | nil => cases hy
  | cons x xs ih =>
    have hrest : ∀ {after}, y ∈ squeeze sep blank after xs →
        y = blank ∨ y ∈ x :: xs ∧ sep y = false :=
      fun hmem => (ih hmem).imp_right fun h => ⟨List.mem_cons_of_mem x h.1, h.2⟩
    rw [squeeze] at hy
    split at hy
    · split at hy
      · exact hrest hy
      · rcases List.mem_cons.mp hy with rfl | hmem
        · exact Or.inl rfl
        · exact hrest hmem
    · next hx =>
      rcases List.mem_cons.mp hy with rfl | hmem
      · exact Or.inr ⟨List.mem_cons_self, Bool.eq_false_iff.mpr hx⟩
      · exact hrest hmem

/-- No two separators are left side by side. -/
lemma isChain_squeeze (after : Bool) :
    (squeeze sep blank after xs).IsChain fun a b => ¬ (sep a = true ∧ sep b = true) := by
  induction xs generalizing after with
  | nil => exact .nil
  | cons x xs ih =>
    rw [squeeze]
    split
    · split
      · exact ih true
      · refine List.isChain_cons.mpr ⟨fun y hy h => ?_, ih true⟩
        rw [head_squeeze y hy] at h
        exact Bool.false_ne_true h.2
    · next hx => exact List.isChain_cons.mpr ⟨fun y _ h => hx h.1, ih false⟩

lemma strip_isInfix : strip sep xs <:+: xs :=
  (List.rdropWhile_prefix sep _).isInfix.trans (List.dropWhile_suffix sep).isInfix

/-- Separators around what has none at its ends are removed again. -/
lemma strip_pad {left right : List α} (hleft : ∀ x ∈ left, sep x = true)
    (hright : ∀ x ∈ right, sep x = true) (hstrip : strip sep xs = xs) :
    strip sep (left ++ (xs ++ right)) = xs := by
  have hrdrop : ∀ ys, (ys ++ right).rdropWhile sep = ys.rdropWhile sep := by
    intro ys
    have hreverse : ∀ x ∈ right.reverse, sep x = true :=
      fun x hx => hright x (List.mem_reverse.mp hx)
    rw [List.rdropWhile, List.rdropWhile, List.reverse_append,
      List.dropWhile_append_of_pos hreverse]
  have hhead : xs.dropWhile sep = xs := by
    refine dropWhile_of_head ?_
    rw [← hstrip]
    exact head_strip
  rw [strip, List.dropWhile_append_of_pos hleft]
  cases xs with
  | nil =>
    rw [List.nil_append, List.dropWhile_eq_nil_iff.mpr hright]
    rfl
  | cons x xs =>
    have hfirst : sep x = false := @head_strip α sep (x :: xs) x (by rw [hstrip]; rfl)
    rw [dropWhile_of_head (by simpa using hfirst), hrdrop]
    rw [strip, hhead] at hstrip
    exact hstrip

end Words
