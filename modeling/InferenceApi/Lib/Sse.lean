import Mathlib

/-!
# Server-sent events

How the receiver of an event stream takes its text apart: into lines, ended by CRLF, LF or CR;
each line into the name of a field and its value; and the `data` fields up to a blank line into
the data of one event. Comments and other fields are read and ignored, an event without `data`
is none, and what is incomplete at the end of the stream is dropped.

A sender that writes one `data` field for each event is understood if no payload has a line
break (`events_frames`).
-/

namespace Sse

/-- The complete lines of a text. `line` is what was read of the first one. -/
def linesFrom (line : List Char) : List Char → List (List Char)
  | [] => []
  | '\r' :: '\n' :: cs => line :: linesFrom [] cs
  | '\r' :: cs => line :: linesFrom [] cs
  | '\n' :: cs => line :: linesFrom [] cs
  | c :: cs => linesFrom (line ++ [c]) cs

/-- The name and the value of a field. One space after the colon does not count. A comment is
a field without a name. -/
def field (line : List Char) : List Char × List Char :=
  let value := (line.dropWhile (· ≠ ':')).drop 1
  (line.takeWhile (· ≠ ':'), if value.head? = some ' ' then value.tail else value)

/-- The name of the field that counts. -/
def dataField : List Char := ['d', 'a', 't', 'a']

/-- The data of the events in a list of lines. `buffer` has the `data` values of the first. -/
def eventsFrom (buffer : List (List Char)) : List (List Char) → List (List Char)
  | [] => []
  | line :: lines =>
    if line = [] then
      if buffer = [] then eventsFrom [] lines
      else ['\n'].intercalate buffer :: eventsFrom [] lines
    else if (field line).1 = dataField then eventsFrom (buffer ++ [(field line).2]) lines
    else eventsFrom buffer lines

/-- The data of the events in a text. -/
def events (text : List Char) : List (List Char) := eventsFrom [] (linesFrom [] text)

/-- An event as a sender writes it. -/
def frame (payload : List Char) : List Char :=
  ['d', 'a', 't', 'a', ':', ' '] ++ payload ++ ['\n', '\n']

/-- A text without line breaks. -/
def Unbroken (cs : List Char) : Prop := ∀ c ∈ cs, c ≠ '\n' ∧ c ≠ '\r'

/-- A line ends at the first break. -/
lemma linesFrom_append {cs : List Char} (hcs : Unbroken cs) (line rest : List Char) :
    linesFrom line (cs ++ '\n' :: rest) = (line ++ cs) :: linesFrom [] rest := by
  induction cs generalizing line with
  | nil => rw [List.nil_append, List.append_nil, linesFrom]
  | cons c cs ih =>
    obtain ⟨hn, hr⟩ := hcs c List.mem_cons_self
    have hstep : linesFrom line (c :: (cs ++ '\n' :: rest)) =
        linesFrom (line ++ [c]) (cs ++ '\n' :: rest) := by
      rw [linesFrom]
      · exact fun _ h => absurd h hr
      · exact hr
      · exact hn
    rw [List.cons_append, hstep, ih fun c' hc' => hcs c' (List.mem_cons_of_mem c hc'),
      List.append_assoc, List.singleton_append]

/-- The field that `frame` writes. -/
lemma field_data (payload : List Char) :
    field (['d', 'a', 't', 'a', ':', ' '] ++ payload) = (dataField, payload) := rfl

/-- **Events are read as they were written**, one for each payload, and nothing else. -/
theorem events_frames {payloads : List (List Char)} (h : ∀ p ∈ payloads, Unbroken p) :
    events (payloads.flatMap frame) = payloads := by
  unfold events
  induction payloads with
  | nil => rfl
  | cons p payloads ih =>
    obtain ⟨hp, hrest⟩ := List.forall_mem_cons.mp h
    have hname : Unbroken ['d', 'a', 't', 'a', ':', ' '] := by
      simp [Unbroken]
    have hline : Unbroken (['d', 'a', 't', 'a', ':', ' '] ++ p) :=
      List.forall_mem_append.mpr ⟨hname, hp⟩
    have htext : (p :: payloads).flatMap frame = (['d', 'a', 't', 'a', ':', ' '] ++ p) ++
        '\n' :: ([] ++ '\n' :: payloads.flatMap frame) := by
      simp [frame]
    rw [htext, linesFrom_append hline, List.nil_append,
      linesFrom_append (fun _ hc => absurd hc List.not_mem_nil)]
    rw [List.append_nil, eventsFrom, if_neg (List.append_ne_nil_of_left_ne_nil (by simp) p),
      field_data, if_pos rfl, eventsFrom, if_pos rfl, if_neg (by simp), ih hrest,
      List.nil_append, List.intercalate_singleton]

end Sse
