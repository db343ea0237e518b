import InferenceApi.Lib.Words
import InferenceApi.Python

/-!
# Normalised text

`normalize_text` and `build_output` of `app/models/text_processing.py`, and what
`BaseSentimentWrapper.predict` does with them. Five passes come to one thing: the words of
the text, with single spaces between them.
-/

namespace InferenceApi

open Words

/-- `c.isspace()`, which is also what `\s` of `re` and `str.strip` go by. -/
def isSpace (c : Char) : Bool := c.toNat ∈ blanks || 0x1c ≤ c.toNat && c.toNat ≤ 0x1f

/-- The tables of the Unicode database behind `\w` of `re` and `str.lower`, with what is
assumed of them. -/
structure CharTables where
  isWord : Char → Bool
  lower : Char → List Char
  /-- No word character is white space. -/
  word_not_space : ∀ c, isWord c = true → isSpace c = false
  /-- What is in lower case stays as it is. -/
  lower_lower : ∀ c, ∀ d ∈ lower c, lower d = [d]
  /-- White space stays white space. -/
  lower_space : ∀ c, isSpace c = true → lower c ≠ [] ∧ ∀ d ∈ lower c, isSpace d = true

namespace CharTables

variable (t : CharTables)

/-- A word character or an apostrophe. -/
def isToken (c : Char) : Bool := t.isWord c || c = '\''

/-- `text.strip().lower()`. -/
def stripLower (text : String) : List Char := (strip isSpace text.toList).flatMap t.lower

/-- `PUNCTUATION_RE`: neither a word character nor white space nor an apostrophe. -/
def isPunctuation (c : Char) : Bool := !(t.isWord c || isSpace c || c = '\'')

/-- `PUNCTUATION_RE.sub(" ", ...)`. -/
def subPunctuation (text : List Char) : List Char :=
  text.map fun c => if t.isPunctuation c then ' ' else c

/-- `normalize_text`. -/
def normalizeText (text : String) : String :=
  String.ofList (strip isSpace (squeeze isSpace ' ' false (t.subPunctuation (t.stripLower text))))

/-! ## Classification -/

/-- `ClassificationOutput`. -/
structure ClassificationOutput where
  label : String
  confidence : ℚ

/-- `build_output`. -/
def buildOutput (label : String) (confidence : ℚ) : ClassificationOutput where
  label := String.ofList (t.stripLower label)
  confidence := max 0 (min 1 confidence)

/-- `BaseSentimentWrapper.predict`. `predictSync` is the fitted pipeline. -/
def predict (predictSync : String → String × ℚ) (input : String) : ClassificationOutput :=
  let (label, confidence) := predictSync (t.normalizeText input)
  t.buildOutput label confidence

/-! ## The words of a text -/

variable {t} {c : Char} {text : String}

/-- The space that replaces punctuation is white space. -/
lemma isSpace_blank : isSpace ' ' = true := by decide

lemma not_space_of_isToken (h : t.isToken c = true) : isSpace c = false := by
  rw [isToken, Bool.or_eq_true, decide_eq_true_eq] at h
  rcases h with hword | rfl
  · exact t.word_not_space c hword
  · decide

lemma isPunctuation_eq : t.isPunctuation c = (!t.isToken c && !isSpace c) := by
  rw [isPunctuation, isToken]
  cases t.isWord c <;> cases isSpace c <;> simp

/-- After the substitution exactly the other characters are white space. -/
lemma isSpace_subPunctuation (c : Char) :
    isSpace (if t.isPunctuation c then ' ' else c) = !t.isToken c := by
  rw [isPunctuation_eq]
  cases htoken : t.isToken c with
  | true => simp [not_space_of_isToken htoken]
  | false =>
    cases hspace : isSpace c with
    | true => simp [hspace]
    | false => simp [isSpace_blank]

/-- The substitution leaves the words as they are. -/
lemma words_subPunctuation (text : List Char) :
    words isSpace (t.subPunctuation text) = words (fun c => !t.isToken c) text := by
  rw [subPunctuation, words_map fun c _ => isSpace_subPunctuation c]
  refine (List.map_congr_left fun w hw => ?_).trans (List.map_id _)
  refine (List.map_congr_left fun c hc => ?_).trans (List.map_id w)
  have htoken := ((of_mem_words hw).2 c hc).2
  rw [isPunctuation_eq, htoken, Bool.false_and, if_neg Bool.false_ne_true]
  rfl

/-- The five passes print the words. -/
theorem normalizeText_toList : (t.normalizeText text).toList =
    [' '].intercalate (words (fun c => !t.isToken c) (t.stripLower text)) := by
  rw [normalizeText, String.toList_ofList, strip_squeeze isSpace_blank, words_subPunctuation]

/-- What is printed are words and spaces. -/
lemma isToken_of_mem_normalizeText (hc : c ∈ (t.normalizeText text).toList) :
    t.isToken c = true ∨ c = ' ' := by
  rw [normalizeText, String.toList_ofList] at hc
  rcases mem_squeeze (strip_isInfix.subset hc) with rfl | ⟨hmem, hspace⟩
  · exact Or.inr rfl
  · obtain ⟨d, -, rfl⟩ := List.mem_map.mp hmem
    have htoken := isSpace_subPunctuation (t := t) d
    rw [hspace, eq_comm, Bool.not_eq_false'] at htoken
    rw [isPunctuation_eq, htoken]
    exact Or.inl htoken

/-- Lower case leaves the words of a text that is in lower case as they are. -/
lemma map_lower_words {w : List Char}
    (hw : w ∈ words (fun c => !t.isToken c) (t.stripLower text)) : w.flatMap t.lower = w := by
  have hfixed : ∀ c ∈ w, t.lower c = [c] := by
    intro c hc
    obtain ⟨d, -, hd⟩ := List.mem_flatMap.mp ((of_mem_words hw).2 c hc).1
    exact t.lower_lower d c hd
  rw [List.flatMap_congr hfixed]
  exact List.flatMap_singleton' w

/-- A normalised text loses nothing when it is stripped, and only its spaces may change in lower
case. -/
lemma stripLower_normalizeText : t.stripLower (t.normalizeText text) =
    (t.lower ' ').intercalate (words (fun c => !t.isToken c) (t.stripLower text)) := by
  have hstrip : strip isSpace (t.normalizeText text).toList = (t.normalizeText text).toList := by
    rw [normalizeText, String.toList_ofList, strip_strip]
  rw [stripLower, hstrip, normalizeText_toList, flatMap_intercalate, List.flatMap_singleton,
    List.map_congr_left fun w hw => map_lower_words hw, List.map_id']

/-- Normalised text is normalised to itself. -/
theorem normalizeText_idem : t.normalizeText (t.normalizeText text) = t.normalizeText text := by
  obtain ⟨hne, hblanks⟩ := t.lower_space ' ' isSpace_blank
  have hseps : ∀ c ∈ t.lower ' ', (!t.isToken c) = true := by
    intro c hc
    rw [Bool.not_eq_true', ← Bool.not_eq_true]
    intro htoken
    have hspace := hblanks c hc
    rw [not_space_of_isToken htoken] at hspace
    exact Bool.false_ne_true hspace
  apply String.toList_inj.mp
  rw [normalizeText_toList, normalizeText_toList, stripLower_normalizeText]
  rw [words_intercalate hne hseps fun w hw => ?_]
  exact (of_mem_words hw).imp_right fun h c hc => (h c hc).2

/-- **`normalize_text` is a canonicaliser.** Its result are the words of the stripped text in
lower case with single spaces between them. So there is no white space at its ends and none
repeated, and no other character; normalising it again changes nothing, and a text is
classified as the normalised one. -/
theorem normalize_text_canonical (t : CharTables) (text : String) :
    (t.normalizeText text).toList =
      [' '].intercalate (words (fun c => !t.isToken c) (t.stripLower text)) ∧
    ((∀ c ∈ (t.normalizeText text).toList.head?, isSpace c = false) ∧
      (∀ c ∈ (t.normalizeText text).toList.getLast?, isSpace c = false) ∧
      ((t.normalizeText text).toList.IsChain fun c d => ¬ (isSpace c = true ∧ isSpace d = true)) ∧
      ∀ c ∈ (t.normalizeText text).toList, t.isToken c = true ∨ c = ' ') ∧
    t.normalizeText (t.normalizeText text) = t.normalizeText text ∧
    ∀ predictSync : String → String × ℚ,
      t.predict predictSync (t.normalizeText text) = t.predict predictSync text := by
  refine ⟨normalizeText_toList, ⟨?_, ?_, ?_, fun c hc => isToken_of_mem_normalizeText hc⟩,
    normalizeText_idem, fun predictSync => ?_⟩
  · rw [normalizeText, String.toList_ofList]
    exact head_strip
  · rw [normalizeText, String.toList_ofList]
    exact getLast_strip
  · rw [normalizeText, String.toList_ofList]
    exact List.IsChain.infix (isChain_squeeze false) strip_isInfix
  · rw [predict, normalizeText_idem]
    rfl

/-! ## The assumptions can be met -/

/-- White space is below or above the letters and digits of ASCII. -/
lemma toNat_of_isSpace (h : isSpace c = true) : c.toNat ≤ 0x20 ∨ 0x85 ≤ c.toNat := by
  rw [isSpace, Bool.or_eq_true, Bool.and_eq_true] at h
  simp only [decide_eq_true_eq] at h
  rcases h with hblank | hcontrol
  · simp only [blanks, List.mem_cons, List.not_mem_nil, or_false] at hblank
    omega
  · omega

lemma toNat_of_isAlphanum (h : c.isAlphanum = true) : 0x30 ≤ c.toNat ∧ c.toNat ≤ 0x7a := by
  simp only [Char.isAlphanum, Char.isAlpha, Char.isUpper, Char.isLower, Char.isDigit,
    Bool.or_eq_true, Bool.and_eq_true, decide_eq_true_eq, ge_iff_le, UInt32.le_iff_toNat_le] at h
  have hnat : c.val.toNat = c.toNat := rfl
  rw [hnat] at h
  simp at h
  omega

/-- The tables of ASCII. -/
def ascii : CharTables where
  isWord c := c.isAlphanum || c = '_'
  lower c := [c.toLower]
  word_not_space c h := by
    rw [← Bool.not_eq_true]
    intro hspace
    have hrange := toNat_of_isSpace hspace
    rw [Bool.or_eq_true, decide_eq_true_eq] at h
    rcases h with halnum | rfl
    · have := toNat_of_isAlphanum halnum
      omega
    · revert hspace
      decide
  lower_lower c d hd := by
    rw [List.mem_singleton.mp hd, Char.toLower_toLower_eq_toLower]
  lower_space c h := by
    have hupper : ¬ c.isUpper = true := by
      intro hupper
      have hrange := toNat_of_isSpace h
      have halnum : c.isAlphanum = true := by simp [Char.isAlphanum, Char.isAlpha, hupper]
      have := toNat_of_isAlphanum halnum
      omega
    rw [Char.toLower_eq_of_not_isUpper hupper]
    exact ⟨List.cons_ne_nil c [], List.forall_mem_singleton.mpr h⟩

/-- A text that has been cleaned stays as it is. -/
theorem normalize_text_canonical_cleaned :
    ascii.normalizeText "pricing is not accurate" = "pricing is not accurate" := by
  have hclean : ascii.normalizeText "  PRICING   is not accurate!!!  " =
      "pricing is not accurate" := by
    decide +kernel
  have hidem := (normalize_text_canonical ascii "  PRICING   is not accurate!!!  ").2.2.1
  rwa [hclean] at hidem

end CharTables
end InferenceApi
