import Galley.Text.Utf8
/-!
# Lines of a container's output

Output arrives in chunks that are cut anywhere. Bytes are held back until their line ends; a line
loses one carriage return at its end and is then read as UTF-8, whatever is in it.
-/
namespace Galley

/-- The bytes of the line that has not ended yet, last one first. -/
structure LineSplitter where
  reversed : List UInt8
  deriving DecidableEq, Repr

namespace LineSplitter

def empty : LineSplitter := ⟨[]⟩

/-- The text of a line whose bytes are in reverse. -/
def lineOf (reversed : List UInt8) : String :=
  .ofUtf8Lossy (if reversed.head? = some 13 then reversed.tail else reversed).reverse

/-- Takes a chunk and gives the lines that it ends. -/
def push (s : LineSplitter) : List UInt8 → List String × LineSplitter
  | [] => ([], s)
  | b :: bs =>
    if b = 10 then
      let (lines, s') := push ⟨[]⟩ bs
      (lineOf s.reversed :: lines, s')
    else push ⟨b :: s.reversed⟩ bs

/-- Gives the last line when it has no end, and starts anew. -/
def finish (s : LineSplitter) : Option String × LineSplitter :=
  (if s.reversed = [] then none else some (lineOf s.reversed), empty)

@[simp] theorem push_nil (s : LineSplitter) : s.push [] = ([], s) := by
  simp [push]

theorem push_append (s : LineSplitter) (a b : List UInt8) :
    s.push (a ++ b) = ((s.push a).1 ++ ((s.push a).2.push b).1, ((s.push a).2.push b).2) := by
  induction a generalizing s with
  | nil => simp
  | cons x a ih =>
    simp only [List.cons_append, push]
    split <;> simp [ih]

end LineSplitter

end Galley
