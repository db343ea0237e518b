import InferenceApi.Api.AdapterContract
import InferenceApi.Lib.Sse

/-!
# Reading the upstream stream

`HttpLLMAdapter.stream` takes the lines of an event stream apart by itself. Its provider writes
one `data` field for each chunk, with or without the space that may follow the colon, and
whatever else an event stream may have in between.
-/

namespace InferenceApi
namespace HttpLLMAdapter

open Json

/-! ## The generator -/

section Generator

variable (loads : String → Except Exn Json) (str : Json → String)

/-- The generator is asked for its next chunk until it ends or raises. -/
inductive Drains : Upstream → List String → Except Exn Unit → Prop
  | ended {upstream rest : Upstream} :
      next loads str upstream.ending upstream.lines = (.ok none, rest) →
      Drains upstream [] (.ok ())
  | raised {upstream rest : Upstream} {e : Exn} :
      next loads str upstream.ending upstream.lines = (.error e, rest) →
      Drains upstream [] (.error e)
  | yielded {upstream rest : Upstream} {chunk : String} {chunks : List String}
      {out : Except Exn Unit} :
      next loads str upstream.ending upstream.lines = (.ok (some chunk), rest) →
      Drains rest chunks out → Drains upstream (chunk :: chunks) out

/-- The chunks of a list of lines. -/
def yields : List String → List String
  | [] => []
  | line :: lines =>
    match readLine loads str line with
    | .skip => yields lines
    | .chunk chunk => chunk :: yields lines
    | .terminator => []
    | .raises _ => []

variable {loads str} {ending : Except HttpxError Unit} {upstream upstream' : Upstream}
  {chunks chunks' : List String} {out out' : Except Exn Unit}

/-- There is one way to go on. -/
lemma Drains.unique (h : Drains loads str upstream chunks out)
    (h' : Drains loads str upstream chunks' out') : chunks = chunks' ∧ out = out' := by
  induction h generalizing chunks' with
  | ended hnext =>
    cases h' with
    | ended _ => exact ⟨rfl, rfl⟩
    | raised hnext' => rw [hnext] at hnext'; cases hnext'
    | yielded hnext' _ => rw [hnext] at hnext'; cases hnext'
  | raised hnext =>
    cases h' with
    | ended hnext' => rw [hnext] at hnext'; cases hnext'
    | raised hnext' => rw [hnext] at hnext'; cases hnext'; exact ⟨rfl, rfl⟩
    | yielded hnext' _ => rw [hnext] at hnext'; cases hnext'
  | yielded hnext _ ih =>
    cases h' with
    | ended hnext' => rw [hnext] at hnext'; cases hnext'
    | raised hnext' => rw [hnext] at hnext'; cases hnext'
    | yielded hnext' hrest =>
      rw [hnext] at hnext'
      cases hnext'
      obtain ⟨rfl, rfl⟩ := ih hrest
      exact ⟨rfl, rfl⟩

/-- Only the next step counts. -/
lemma Drains.of_next_eq (h : Drains loads str upstream chunks out)
    (hnext : next loads str upstream'.ending upstream'.lines =
      next loads str upstream.ending upstream.lines) : Drains loads str upstream' chunks out := by
  cases h with
  | ended h => exact .ended (hnext.trans h)
  | raised h => exact .raised (hnext.trans h)
  | yielded h hrest => exact .yielded (hnext.trans h) hrest

lemma drains_yields (lines : List String) :
    Drains loads str ⟨lines, ending⟩ (yields loads str lines) (outcome loads str ending lines) := by
  induction lines with
  | nil =>
    cases ending with
    | ok _ => exact .ended rfl
    | error e => exact .raised rfl
  | cons line lines ih =>
    rw [yields, outcome]
    cases hline : readLine loads str line with
    | skip =>
      have hnext : next loads str ending (line :: lines) = next loads str ending lines := by
        rw [next, hline]
      exact ih.of_next_eq hnext
    | terminator =>
      have hnext : next loads str ending (line :: lines) = (.ok none, ⟨lines, ending⟩) := by
        rw [next, hline]
      exact .ended hnext
    | chunk chunk =>
      have hnext : next loads str ending (line :: lines) = (.ok (some chunk), ⟨lines, ending⟩) := by
        rw [next, hline]
      exact .yielded hnext ih
    | raises e =>
      have hnext : next loads str ending (line :: lines) = (.error e, ⟨lines, ending⟩) := by
        rw [next, hline]
      exact .raised hnext

lemma drains_iff {lines : List String} : Drains loads str ⟨lines, ending⟩ chunks out ↔
    yields loads str lines = chunks ∧ outcome loads str ending lines = out := by
  constructor
  · intro h
    exact (drains_yields lines).unique h
  · rintro ⟨rfl, rfl⟩
    exact drains_yields lines

end Generator

/-! ## What the lines say -/

/-- The content of the first choice, null if there is none. -/
def contentOf (body : Json) : Json :=
  match body with
  | .obj fields =>
    match lookup fields "choices" with
    | some (.arr (.obj choice :: _)) =>
      match lookup choice "delta" with
      | some (.obj delta) => (lookup delta "content").getD .null
      | _ => .null
    | _ => .null
  | _ => .null

/-- The line has the space after the colon of `data:`. -/
def Spaced (line : String) : Prop := "data: ".toList <+: line.toList

instance : DecidablePred Spaced := fun line =>
  inferInstanceAs (Decidable ("data: ".toList <+: line.toList))

/-- What a line adds to the stream. -/
def said (loads : String → Except String Json) (str : Json → String) (line : String) :
    Option String :=
  if Spaced line then
    match loads (String.ofList (Sse.field line.toList).2) with
    | .ok body => if truthy (contentOf body) then some (str (contentOf body)) else none
    | .error _ => none
  else none

section Lines

variable {loads : String → Except String Json} {str : Json → String} {line : String}

lemma spaced_iff : Spaced line ↔ ∃ data, line = "data: " ++ data := by
  constructor
  · rintro ⟨rest, hrest⟩
    refine ⟨String.ofList rest, String.toList_inj.mp ?_⟩
    rw [← hrest, String.toList_append]
    exact congrArg _ String.toList_ofList.symm
  · rintro ⟨data, rfl⟩
    exact ⟨data.toList, String.toList_append.symm⟩

lemma field_spaced (data : String) :
    Sse.field ("data: " ++ data).toList = (Sse.dataField, data.toList) := by
  rw [String.toList_append]
  exact Sse.field_data data.toList

lemma said_data (data : String) : said loads str ("data: " ++ data) =
    match loads data with
    | .ok body => if truthy (contentOf body) then some (str (contentOf body)) else none
    | .error _ => none := by
  rw [said, if_pos (spaced_iff.mpr ⟨data, rfl⟩), field_spaced, String.ofList_toList]

/-- A readable line is read as what it says. -/
lemma readLine_said (hterm : line ≠ terminatorLine) (h : Readable loads line) :
    readLine (named loads) str line =
      match said loads str line with
      | some text => .chunk text
      | none => .skip := by
  by_cases hspaced : Spaced line
  · obtain ⟨data, rfl⟩ := spaced_iff.mp hspaced
    obtain ⟨fields, choice, choices, delta, hloads, hchoices, hdelta⟩ := h data rfl
    have hdone : data ≠ "[DONE]" := fun hdone => hterm (by rw [hdone]; rfl)
    have hcontent : contentOf (.obj fields) = (lookup delta "content").getD .null := by
      simp only [contentOf, hchoices, hdelta]
    rw [readLine_data, if_neg hdone, deltaContent_of_delta hloads hchoices hdelta, said_data,
      hloads]
    dsimp only
    rw [hcontent]
    split <;> rfl
  · rw [said, if_neg hspaced]
    exact readLine_other fun data h => hspaced (spaced_iff.mpr ⟨data, h⟩)

variable {ending : Except HttpxError Unit} {lines chunks : List String}

lemma outcome_eq_ok_iff_readable : outcome (named loads) str ending lines = .ok () ↔
    (∀ line ∈ untilTerminator lines, Readable loads line) ∧
      (terminatorLine ∈ lines ∨ ending = .ok ()) := by
  induction lines with
  | nil =>
    rw [outcome]
    cases ending with
    | ok _ => simp [untilTerminator, Except.mapError]
    | error e => simp [untilTerminator, Except.mapError]
  | cons line lines ih =>
    by_cases hterm : line = terminatorLine
    · refine iff_of_true ?_ ?_
      · rw [outcome, readLine_eq_terminator.mpr hterm]
      · simp [untilTerminator, hterm]
    · rw [untilTerminator_cons hterm, List.forall_mem_cons, List.mem_cons,
        or_iff_right (Ne.symm hterm), outcome]
      rcases (readLine_cases loads str line).resolve_left hterm with
        ⟨-, hreadable⟩ | ⟨e, hraises, -, hunreadable⟩
      · rw [and_iff_right hreadable, ← ih, readLine_said hterm hreadable]
        cases said loads str line <;> rfl
      · rw [hraises]
        exact iff_of_false (by simp) fun h => hunreadable h.1.1

lemma yields_eq_said (h : ∀ line ∈ untilTerminator lines, Readable loads line) :
    yields (named loads) str lines = (untilTerminator lines).filterMap (said loads str) := by
  induction lines with
  | nil => rfl
  | cons line lines ih =>
    by_cases hterm : line = terminatorLine
    · rw [yields, readLine_eq_terminator.mpr hterm]
      simp [untilTerminator, hterm]
    · rw [untilTerminator_cons hterm] at h ⊢
      obtain ⟨hline, hlines⟩ := List.forall_mem_cons.mp h
      rw [yields, readLine_said hterm hline, List.filterMap_cons, ← ih hlines]
      cases said loads str line <;> rfl

/-- The whole stream, and a normal end. -/
theorem drains_ok_iff : Drains (named loads) str ⟨lines, ending⟩ chunks (.ok ()) ↔
    (∀ line ∈ untilTerminator lines, Readable loads line) ∧
      (terminatorLine ∈ lines ∨ ending = .ok ()) ∧
      (untilTerminator lines).filterMap (said loads str) = chunks := by
  rw [drains_iff, outcome_eq_ok_iff_readable]
  constructor
  · rintro ⟨hyields, hreadable, hending⟩
    exact ⟨hreadable, hending, (yields_eq_said hreadable).symm.trans hyields⟩
  · rintro ⟨hreadable, hending, hsaid⟩
    exact ⟨(yields_eq_said hreadable).trans hsaid, hreadable, hending⟩

end Lines

/-! ## Chunks and their renderings -/

/-- A choice with a delta whose content is missing, null or a string. -/
def HasDelta (choice : Json) : Prop :=
  ∃ fields delta, choice = .obj fields ∧ lookup fields "delta" = some (.obj delta) ∧
    ∀ content, lookup delta "content" = some content → content = .null ∨ ∃ text, content = .str text

/-- A chat-completion chunk. There may be no choice in it. -/
structure Chunk where
  fields : List (String × Json)
  choices : List Json
  hasChoices : lookup fields "choices" = some (.arr choices)
  hasDelta : ∀ choice ∈ choices.head?, HasDelta choice

/-- The text of a chunk, which may be empty. -/
def Chunk.text (c : Chunk) : String :=
  match contentOf (.obj c.fields) with
  | .str text => text
  | _ => ""

section Renderings

variable (loads : String → Except String Json)

/-- A line of an event stream: a chunk in a `data` field, or anything without such a field. -/
def Renders (line : String) : Option Chunk → Prop
  | none => (Sse.field line.toList).1 ≠ Sse.dataField
  | some c => ∃ data : String, Sse.field line.toList = (Sse.dataField, data.toList) ∧
      data ≠ "[DONE]" ∧ loads data = .ok (.obj c.fields)

/-- A line with what it renders. -/
structure Rendering where
  line : String
  chunk : Option Chunk
  renders : Renders loads line chunk

variable {loads}

/-- The text that is there to be read on a line. -/
def Rendering.text (r : Rendering loads) : Option String :=
  r.chunk.bind fun c => if c.text = "" then none else some c.text

/-- The non-empty texts of the chunks, in order. -/
def texts (renderings : List (Rendering loads)) : List String :=
  ((renderings.filterMap Rendering.chunk).map Chunk.text).filter (· ≠ "")

/-- A chunk that is read without an exception: it has a choice, or it is not looked at. -/
def Rendering.Chosen (r : Rendering loads) : Prop :=
  ∀ c, r.chunk = some c → Spaced r.line → c.choices ≠ []

/-- A line that is skipped without a loss: it has no text, or it is not skipped. -/
def Rendering.Heard (r : Rendering loads) : Prop :=
  ∀ c, r.chunk = some c → c.text ≠ "" → Spaced r.line

/-- `str(value)`, with the texts of values that are no strings as a parameter. -/
def strOf (repr : Json → String) : Json → String
  | .str text => text
  | value => repr value

/-! ## What the adapter makes of a rendering -/

variable {repr : Json → String} {r : Rendering loads} {renderings : List (Rendering loads)}

lemma texts_eq : texts renderings = renderings.filterMap Rendering.text := by
  induction renderings with
  | nil => rfl
  | cons r renderings ih =>
    rw [List.filterMap_cons, ← ih, texts, texts, List.filterMap_cons, Rendering.text]
    cases r.chunk with
    | none => rfl
    | some c => by_cases htext : c.text = "" <;> simp [htext]

/-- The content of a chunk is null or its text. -/
lemma Chunk.contentOf_eq (c : Chunk) : (contentOf (.obj c.fields) = .null ∧ c.text = "") ∨
    contentOf (.obj c.fields) = .str c.text := by
  have hcontent : contentOf (.obj c.fields) = .null ∨
      ∃ text, contentOf (.obj c.fields) = .str text := by
    obtain ⟨fields, choices, hasChoices, hasDelta⟩ := c
    cases choices with
    | nil => exact .inl (by simp only [contentOf, hasChoices])
    | cons choice choices =>
      obtain ⟨choiceFields, delta, rfl, hdelta, hcontent⟩ := hasDelta choice rfl
      simp only [contentOf, hasChoices, hdelta]
      cases hlook : lookup delta "content" with
      | none => exact .inl rfl
      | some content => exact hcontent content hlook
  rcases hcontent with hnull | ⟨text, htext⟩
  · exact .inl ⟨hnull, by rw [Chunk.text, hnull]⟩
  · exact .inr (by rw [Chunk.text, htext])

/-- What is said of a chunk. -/
lemma Chunk.said_eq (c : Chunk) :
    (if truthy (contentOf (.obj c.fields)) then some (strOf repr (contentOf (.obj c.fields)))
      else none) = if c.text = "" then none else some c.text := by
  rcases c.contentOf_eq with ⟨hcontent, htext⟩ | hcontent
  · rw [hcontent, htext]
    rfl
  · rw [hcontent]
    by_cases htext : c.text = ""
    · simp [truthy, htext]
    · simp [truthy, htext, strOf]

lemma Rendering.said_eq (r : Rendering loads) :
    said loads (strOf repr) r.line = if Spaced r.line then r.text else none := by
  obtain ⟨line, chunk, renders⟩ := r
  dsimp only [Rendering.text]
  split
  · next hspaced =>
    obtain ⟨data, rfl⟩ := spaced_iff.mp hspaced
    rw [said_data]
    cases chunk with
    | none => exact absurd (congrArg Prod.fst (field_spaced data)) renders
    | some c =>
      obtain ⟨data', hfield, -, hloads⟩ := renders
      rw [field_spaced] at hfield
      cases String.toList_inj.mp (congrArg Prod.snd hfield)
      rw [hloads]
      exact c.said_eq
  · next hspaced => rw [said, if_neg hspaced]

lemma Rendering.line_ne_terminator (r : Rendering loads) : r.line ≠ terminatorLine := by
  obtain ⟨line, chunk, renders⟩ := r
  rintro rfl
  cases chunk with
  | none => exact renders rfl
  | some c =>
    obtain ⟨data, hfield, hdata, -⟩ := renders
    have hvalue : "[DONE]".toList = data.toList := congrArg Prod.snd hfield
    exact hdata (String.toList_inj.mp hvalue).symm

/-- A chunk has a delta exactly if it has a choice. -/
lemma Chunk.choices_ne_nil_iff (c : Chunk) : c.choices ≠ [] ↔ ∃ choice choices delta,
    lookup c.fields "choices" = some (.arr (.obj choice :: choices)) ∧
      lookup choice "delta" = some (.obj delta) := by
  obtain ⟨fields, choices, hasChoices, hasDelta⟩ := c
  constructor
  · intro hne
    obtain ⟨choice, others, rfl⟩ := List.exists_cons_of_ne_nil hne
    obtain ⟨choiceFields, delta, rfl, hdelta, -⟩ := hasDelta choice rfl
    exact ⟨choiceFields, others, delta, hasChoices, hdelta⟩
  · rintro ⟨choice, others, delta, hchoices, -⟩ rfl
    cases hasChoices.symm.trans hchoices

/-- A chunk is readable exactly if it has a choice. -/
lemma Rendering.readable_iff (r : Rendering loads) : Readable loads r.line ↔ r.Chosen := by
  obtain ⟨line, chunk, renders⟩ := r
  cases chunk with
  | none =>
    refine iff_of_true ?_ fun c h => nomatch h
    rintro data rfl
    exact absurd (congrArg Prod.fst (field_spaced data)) renders
  | some c =>
    obtain ⟨data, hfield, -, hloads⟩ := renders
    constructor
    · intro h c' hc' hspaced
      cases hc'
      obtain ⟨data', rfl⟩ := spaced_iff.mp hspaced
      rw [field_spaced] at hfield
      cases String.toList_inj.mp (congrArg Prod.snd hfield)
      obtain ⟨fields, choice, choices, delta, hbody, hchoices, hdelta⟩ := h data rfl
      cases hloads.symm.trans hbody
      exact c.choices_ne_nil_iff.mpr ⟨choice, choices, delta, hchoices, hdelta⟩
    · rintro h data' rfl
      rw [field_spaced] at hfield
      cases String.toList_inj.mp (congrArg Prod.snd hfield)
      obtain ⟨choice, choices, delta, hchoices, hdelta⟩ :=
        c.choices_ne_nil_iff.mp (h c rfl (spaced_iff.mpr ⟨data, rfl⟩))
      exact ⟨c.fields, choice, choices, delta, hloads, hchoices, hdelta⟩

lemma untilTerminator_append (renderings : List (Rendering loads)) (rest : List String) :
    untilTerminator (renderings.map Rendering.line ++ rest) =
      renderings.map Rendering.line ++ untilTerminator rest := by
  refine List.takeWhile_append_of_pos ?_
  simpa using fun r _ => r.line_ne_terminator

/-- A line is heard if it has the space or nothing to be read. -/
lemma Rendering.heard_iff (r : Rendering loads) : r.Heard ↔ Spaced r.line ∨ r.text = none := by
  unfold Rendering.Heard Rendering.text
  cases r.chunk with
  | none => simp
  | some c => by_cases htext : c.text = "" <;> simp [htext]

/-- The texts, line by line. -/
lemma texts_cons (r : Rendering loads) (renderings : List (Rendering loads)) :
    texts (r :: renderings) = r.text.toList ++ texts renderings := by
  rw [texts_eq, texts_eq, List.filterMap_cons]
  cases r.text <;> rfl

/-- The lines say what there is to be read where the space is. -/
lemma said_eq_texts (renderings : List (Rendering loads)) :
    (renderings.map Rendering.line).filterMap (said loads (strOf repr)) =
      texts (renderings.filter fun r => Spaced r.line) := by
  induction renderings with
  | nil => rfl
  | cons r renderings ih =>
    rw [List.map_cons, List.filterMap_cons, r.said_eq, ih, List.filter_cons]
    by_cases hspaced : Spaced r.line
    · rw [if_pos hspaced, if_pos (by simpa using hspaced), texts_cons]
      cases r.text <;> rfl
    · rw [if_neg hspaced, if_neg (by simpa using hspaced)]

/-- Nothing is lost exactly if nothing that is skipped has a text. -/
lemma texts_filter_eq_iff : texts (renderings.filter fun r => Spaced r.line) = texts renderings ↔
    ∀ r ∈ renderings, r.Heard := by
  induction renderings with
  | nil => exact iff_of_true rfl (List.forall_mem_nil _)
  | cons r renderings ih =>
    rw [List.forall_mem_cons, ← ih, List.filter_cons, texts_cons r, r.heard_iff]
    by_cases hspaced : Spaced r.line
    · rw [if_pos (by simpa using hspaced), texts_cons, List.append_cancel_left_eq,
        and_iff_right (Or.inl hspaced)]
    · rw [if_neg (by simpa using hspaced), or_iff_right hspaced]
      cases htext : r.text with
      | none => simp
      | some text =>
        -- what is missing cannot be made up for by the lines after it
        refine iff_of_false (fun h => ?_) (by simp)
        have hle : (texts (renderings.filter fun r => Spaced r.line)).length ≤
            (texts renderings).length := by
          rw [texts_eq, texts_eq]
          exact (List.filter_sublist.filterMap _).length_le
        have hlength := congrArg List.length h
        rw [List.length_append, Option.toList_some, List.length_singleton] at hlength
        omega

end Renderings

/-- **Nothing is lost and nothing raised exactly if every chunk with the space has a choice and
every text has the space.** A terminator without the space is no terminator: the lines after it
are read as well, up to one with the space or to a normal end, and have to say what is missing. -/
theorem stream_decodes_iff (loads : String → Except String Json) (repr : Json → String)
    (renderings : List (Rendering loads)) (rest : List String) (ending : Except HttpxError Unit) :
    (Drains (named loads) (strOf repr)
        ⟨renderings.map Rendering.line ++ "data: [DONE]" :: rest, ending⟩
        (texts renderings) (.ok ()) ↔
      ∀ r ∈ renderings, r.Chosen ∧ r.Heard) ∧
    (Drains (named loads) (strOf repr)
        ⟨renderings.map Rendering.line ++ "data:[DONE]" :: rest, ending⟩
        (texts renderings) (.ok ()) ↔
      (∀ r ∈ renderings, r.Chosen) ∧ (∀ line ∈ untilTerminator rest, Readable loads line) ∧
        (terminatorLine ∈ rest ∨ ending = .ok ()) ∧
        texts (renderings.filter fun r => Spaced r.line) ++
          (untilTerminator rest).filterMap (said loads (strOf repr)) = texts renderings) := by
  have hreadable : (∀ line ∈ renderings.map Rendering.line, Readable loads line) ↔
      ∀ r ∈ renderings, r.Chosen := by
    rw [List.forall_mem_map]
    exact forall₂_congr fun r _ => r.readable_iff
  constructor
  · have hterm : "data: [DONE]" ∈ renderings.map Rendering.line ++ "data: [DONE]" :: rest :=
      List.mem_append_right _ List.mem_cons_self
    have huntil : untilTerminator ("data: [DONE]" :: rest) = [] := rfl
    rw [drains_ok_iff, untilTerminator_append, huntil, List.append_nil, hreadable, said_eq_texts,
      texts_filter_eq_iff, forall₂_and]
    exact and_congr_right fun _ => and_iff_right (Or.inl hterm)
  · have hspaced : ¬ Spaced "data:[DONE]" := by decide
    have hline : "data:[DONE]" ≠ terminatorLine := by decide
    have hread : Readable loads "data:[DONE]" :=
      fun data h => absurd (spaced_iff.mpr ⟨data, h⟩) hspaced
    have hsaid : said loads (strOf repr) "data:[DONE]" = none := if_neg hspaced
    have hterm : terminatorLine ∈ renderings.map Rendering.line ++ "data:[DONE]" :: rest ↔
        terminatorLine ∈ rest := by
      rw [List.mem_append, List.mem_cons, or_iff_right, or_iff_right hline.symm]
      rw [List.mem_map]
      rintro ⟨r, -, hr⟩
      exact r.line_ne_terminator hr
    rw [drains_ok_iff, untilTerminator_append, untilTerminator_cons hline, List.forall_mem_append,
      List.forall_mem_cons, hreadable, and_iff_right hread, hterm, List.filterMap_append,
      List.filterMap_cons, hsaid, said_eq_texts, and_assoc]

/-- A usage-only chunk. -/
def usageChunk : Chunk := ⟨[("choices", .arr [])], [], rfl, by simp⟩

/-- The text of `usageChunk`. -/
def usageText : String := "\x7b\x22choices\x22:[]\x7d"

/-- A chunk with a text. -/
def helloChunk : Chunk where
  fields := [("choices", .arr [.obj [("delta", .obj [("content", .str "Hel")])]])]
  choices := [.obj [("delta", .obj [("content", .str "Hel")])]]
  hasChoices := rfl
  hasDelta := by
    intro choice hchoice
    cases hchoice
    exact ⟨_, _, rfl, rfl, fun content hcontent => .inr ⟨"Hel", (Option.some.inj hcontent).symm⟩⟩

/-- The text of `helloChunk`. -/
def helloText : String :=
  "\x7b\x22choices\x22:[\x7b\x22delta\x22:\x7b\x22content\x22:\x22Hel\x22\x7d\x7d]\x7d"

/-- A usage-only chunk makes the generator raise, and a chunk without the space is passed over. -/
theorem stream_misses_chunks :
    (∃ r : Rendering fun _ => .ok (.obj usageChunk.fields), r.line = "data: " ++ usageText ∧
      ¬ Drains (named fun _ => .ok (.obj usageChunk.fields)) (strOf fun _ => "")
        ⟨[r.line, "data: [DONE]"], .ok ()⟩ (texts [r]) (.ok ())) ∧
    ∃ r : Rendering fun _ => .ok (.obj helloChunk.fields), r.line = "data:" ++ helloText ∧
      ¬ Drains (named fun _ => .ok (.obj helloChunk.fields)) (strOf fun _ => "")
        ⟨[r.line, "data: [DONE]"], .ok ()⟩ (texts [r]) (.ok ()) := by
  constructor
  · refine ⟨⟨"data: " ++ usageText, some usageChunk, usageText, rfl, by decide, rfl⟩, rfl,
      fun h => ?_⟩
    cases (drains_iff.mp h).2
  · refine ⟨⟨"data:" ++ helloText, some helloChunk, helloText, rfl, by decide, rfl⟩, rfl,
      fun h => ?_⟩
    cases (drains_iff.mp h).1

end HttpLLMAdapter
end InferenceApi
