import Galley.Container.Lines
import Galley.Proofs.Text.Utf8
import Mathlib.Data.List.Basic
/-!
# Lines of an output whatever its chunks

An output comes in chunks that may be cut anywhere: within a line, within a character, and between a
carriage return and the line end behind it. What is held back between two chunks is the part of the line
that came so far, so the cuts cannot be seen in the lines. Main statements: the lines of an output are what
stands between the line ends of its bytes, and an output that is a text has the lines of the text.
-/
namespace Galley.LineSplitter

/-! ### Segments -/

section Segments

variable {α : Type} [DecidableEq α]

/-- What stands between the marks, without what follows the last one if nothing does. -/
def segments (mark : α) (as : List α) : List (List α) :=
  let parts := as.splitOn mark
  if parts.getLast? = some [] then parts.dropLast else parts

/-- A list without its last element where that is `a`. -/
def without (a : α) (as : List α) : List α :=
  if as.getLast? = some a then as.dropLast else as

theorem segments_of_open {mark : α} {as last : List α} {ended : List (List α)}
    (parts : as.splitOn mark = ended ++ [last]) :
    segments mark as = ended ++ (if last = [] then [] else [last]) := by
  simp only [segments, parts, List.getLast?_append, List.getLast?_singleton, Option.some_or,
    Option.some.injEq, List.dropLast_concat]
  split
  · rw [List.append_nil]
  · rfl

end Segments

/-! ### Bytes in chunks -/

/-- The text of a line that has these bytes. -/
def textOf (bytes : List UInt8) : String :=
  .ofUtf8Lossy (without 13 bytes)

theorem lineOf_eq (reversed : List UInt8) : lineOf reversed = textOf reversed.reverse := by
  cases reversed with
  | nil => rfl
  | cons b bs =>
    rw [lineOf, textOf, without, List.getLast?_reverse, List.dropLast_reverse]
    split <;> rfl

theorem push_newline (s : LineSplitter) (bytes : List UInt8) :
    s.push (10 :: bytes) =
      (lineOf s.reversed :: (push ⟨[]⟩ bytes).1, (push ⟨[]⟩ bytes).2) := by
  rw [push, if_pos rfl]

theorem push_cons_of_ne {b : UInt8} (h : b ≠ 10) (s : LineSplitter) (bytes : List UInt8) :
    s.push (b :: bytes) = push ⟨b :: s.reversed⟩ bytes := by
  rw [push, if_neg h]

/-- The bytes held back are what follows the last line end, and the lines given are those before it. -/
theorem push_spec (s : LineSplitter) (bytes : List UInt8) :
    ∃ ended, bytes.splitOnPPrepend (· == 10) s.reversed = ended ++ [(s.push bytes).2.reversed.reverse] ∧
      (s.push bytes).1 = ended.map textOf := by
  induction bytes generalizing s with
  | nil => exact ⟨[], by simp⟩
  | cons b bytes ih =>
    by_cases ends : b = 10
    · subst ends
      obtain ⟨ended, parts, lines⟩ := ih ⟨[]⟩
      rw [List.splitOnPPrepend_nil_right] at parts
      refine ⟨s.reversed.reverse :: ended, ?_, ?_⟩
      · rw [List.splitOnPPrepend_cons_pos (by simp), parts, push_newline, List.cons_append]
      · rw [push_newline, lines, lineOf_eq, List.map_cons]
    · rw [List.splitOnPPrepend_cons_neg (by simpa using ends), push_cons_of_ne ends]
      exact ih ⟨b :: s.reversed⟩

/-- What is held back is given as a line at the end, if there is anything. -/
theorem finish_eq (s : LineSplitter) :
    s.finish.1.toList =
      (if s.reversed.reverse = [] then [] else [s.reversed.reverse]).map textOf := by
  simp only [finish, List.reverse_eq_nil_iff]
  split
  · rfl
  · rw [Option.toList_some, List.map_singleton, lineOf_eq]

/-- Takes chunks one after another and gives the lines that they end. -/
def pushAll (s : LineSplitter) : List (List UInt8) → List String × LineSplitter
  | [] => ([], s)
  | chunk :: chunks =>
    let first := s.push chunk
    let rest := pushAll first.2 chunks
    (first.1 ++ rest.1, rest.2)

/-- The lines of an output that comes in chunks and then ends. -/
def linesOf (chunks : List (List UInt8)) : List String :=
  let pushed := pushAll empty chunks
  pushed.1 ++ pushed.2.finish.1.toList

/-- Where the chunks are cut makes no difference. -/
theorem pushAll_eq (s : LineSplitter) (chunks : List (List UInt8)) :
    s.pushAll chunks = s.push chunks.flatten := by
  induction chunks generalizing s with
  | nil => rw [pushAll, List.flatten_nil, push_nil]
  | cons chunk chunks ih => simp only [pushAll, ih, List.flatten_cons, push_append]

theorem linesOf_eq (chunks : List (List UInt8)) :
    linesOf chunks = (segments 10 chunks.flatten).map textOf := by
  obtain ⟨ended, parts, lines⟩ := push_spec empty chunks.flatten
  have cut : chunks.flatten.splitOn 10 = ended ++ [(empty.push chunks.flatten).2.reversed.reverse] := by
    rw [List.splitOn_eq_splitOnP, ← List.splitOnPPrepend_nil_right]
    exact parts
  simp only [segments_of_open cut, linesOf, pushAll_eq, lines, finish_eq, List.map_append]

/-! ### Texts in chunks -/

section Texts

variable {α β : Type} {mark : α} {mark' : β} {f : α → List β}

/-- Whether a mark is written as `mark'` alone, which is in nothing else that is written. -/
structure Marks (f : α → List β) (mark : α) (mark' : β) : Prop where
  own : f mark = [mark']
  other : ∀ a, mark' ∈ f a → a = mark
  ne_nil : ∀ a, f a ≠ []

theorem Marks.flatMap_eq_nil_iff (h : Marks f mark mark') (as : List α) : as.flatMap f = [] ↔ as = [] := by
  cases as with
  | nil => simp
  | cons a as => simp [h.ne_nil a]

variable [DecidableEq α] [DecidableEq β]

theorem splitOn_append {as : List α} (h : mark ∉ as) (bs : List α) :
    (as ++ bs).splitOn mark = (bs.splitOn mark).modifyHead (as ++ ·) := by
  induction as with
  | nil => exact (congrFun List.modifyHead_id _).symm
  | cons a as ih =>
    rw [List.mem_cons, not_or] at h
    rw [List.cons_append, List.splitOn_cons_eq_if_modifyHead, if_neg (by simpa using Ne.symm h.1), ih h.2,
      List.modifyHead_modifyHead]
    rfl

/-- What is written falls into what the parts are written as. -/
theorem Marks.splitOn_flatMap (h : Marks f mark mark') (as : List α) :
    (as.flatMap f).splitOn mark' = (as.splitOn mark).map fun part => part.flatMap f := by
  induction as with
  | nil => simp
  | cons a as ih =>
    rw [List.flatMap_cons, List.splitOn_cons_eq_if_modifyHead]
    by_cases own : a = mark
    · subst own
      rw [h.own, List.singleton_append, List.splitOn_cons_eq_if_modifyHead, ih]
      simp
    · rw [splitOn_append (fun mem => own (h.other a mem)), ih, if_neg (by simpa using own)]
      cases as.splitOn mark with
      | nil => rfl
      | cons part parts => simp

theorem Marks.segments_flatMap (h : Marks f mark mark') (as : List α) :
    segments mark' (as.flatMap f) = (segments mark as).map fun part => part.flatMap f := by
  obtain ⟨ended, last, parts⟩ :=
    (as.splitOn mark).eq_nil_or_concat'.resolve_left (List.splitOn_ne_nil mark as)
  have parts' : (as.flatMap f).splitOn mark' =
      ended.map (fun part => part.flatMap f) ++ [last.flatMap f] := by
    rw [h.splitOn_flatMap, parts, List.map_append, List.map_singleton]
  rw [segments_of_open parts, segments_of_open parts', List.map_append]
  simp only [h.flatMap_eq_nil_iff]
  split <;> rfl

theorem Marks.without_flatMap (h : Marks f mark mark') (as : List α) :
    without mark' (as.flatMap f) = (without mark as).flatMap f := by
  obtain rfl | ⟨before, a, rfl⟩ := as.eq_nil_or_concat'
  · rfl
  · rw [List.flatMap_append, List.flatMap_singleton]
    by_cases own : a = mark
    · subst own
      simp [without, h.own]
    · have last : (before.flatMap f ++ f a).getLast? ≠ some mark' := by
        rw [List.getLast?_append_of_ne_nil _ (h.ne_nil a)]
        intro same
        exact own (h.other a (List.mem_of_getLast? same))
      rw [without, if_neg last]
      simp [without, own]

end Texts

open Text.Utf8

/-- The bytes of ASCII can be told from those of all other characters. -/
theorem marks_encodeChar {a : Char} (ascii : a.toNat < 0x80) : Marks encodeChar a a.toNat.toUInt8 where
  own := encodeChar_of_lt ascii
  other _ := eq_of_mem_encodeChar ascii
  ne_nil := encodeChar_ne_nil

theorem linesOf_text {chunks : List (List UInt8)} {text : String} (h : chunks.flatten = text.utf8) :
    linesOf chunks = (segments '\n' text.toList).map fun cs => String.ofList (without '\r' cs) := by
  have newline : Marks encodeChar '\n' 10 := marks_encodeChar (by decide)
  have carriageReturn : Marks encodeChar '\r' 13 := marks_encodeChar (by decide)
  have parts : segments 10 (encode text.toList) = (segments '\n' text.toList).map encode :=
    newline.segments_flatMap text.toList
  rw [linesOf_eq, h, String.utf8, parts, List.map_map]
  refine List.map_congr_left fun cs _ => ?_
  have line : without 13 (encode cs) = encode (without '\r' cs) := carriageReturn.without_flatMap cs
  rw [Function.comp_apply, textOf, line, String.ofUtf8Lossy, lossy_encode]

/-- However an output is cut into chunks, its lines are the segments of its bytes between line ends, the last
one only if it is not empty, each without one carriage return at its end and read as UTF-8. Where the bytes are
those of a text, cut within its characters or not, the lines are the segments of the text in the same way. -/
theorem lines_of_chunks (chunks : List (List UInt8)) :
    linesOf chunks =
        (segments 10 chunks.flatten).map (fun bytes => String.ofUtf8Lossy (without 13 bytes)) ∧
      ∀ text : String, chunks.flatten = text.utf8 →
        linesOf chunks = (segments '\n' text.toList).map fun cs => String.ofList (without '\r' cs) := by
  constructor
  · exact linesOf_eq chunks
  · intro text bytes
    exact linesOf_text bytes

/-- A text of two lines, cut within its first character and before each line end. -/
theorem lines_of_chunks_torn :
    [[0xC3], [0xA9, 13], [10, 97], [10]].flatten = "é\r\na\n".utf8 ∧
      linesOf [[0xC3], [0xA9, 13], [10, 97], [10]] = ["é", "a"] := by
  have bytes : [[0xC3], [0xA9, 13], [10, 97], [10]].flatten = "é\r\na\n".utf8 := by decide
  have lines := (lines_of_chunks [[0xC3], [0xA9, 13], [10, 97], [10]]).2 "é\r\na\n" bytes
  exact ⟨bytes, lines.trans (by decide)⟩

end Galley.LineSplitter
