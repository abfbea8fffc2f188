/-!
# Running keys

The set of job keys that are marked as running.
-/
namespace Galley

/-- The marked keys, each once. -/
structure Running where
  keys : List String
  deriving DecidableEq, Repr, Inhabited

namespace Running

def empty : Running := ⟨[]⟩

def isRunning (r : Running) (key : String) : Bool :=
  r.keys.contains key

def mark (r : Running) (key : String) : Running :=
  if r.isRunning key then r else ⟨r.keys ++ [key]⟩

def unmark (r : Running) (key : String) : Running :=
  ⟨r.keys.filter (· ≠ key)⟩

/-- Marks a key unless it is marked, and says whether it did. -/
def tryAcquire (r : Running) (key : String) : Bool × Running :=
  if r.isRunning key then (false, r) else (true, r.mark key)

def size (r : Running) : Nat :=
  r.keys.length

@[simp] theorem isRunning_empty (key : String) : empty.isRunning key = false := rfl

@[simp] theorem isRunning_mark (r : Running) (key other : String) :
    (r.mark key).isRunning other = (r.isRunning other || decide (other = key)) := by
  unfold mark
  split
  · next h =>
    by_cases h' : other = key
    · subst h'; simp [h]
    · simp [h']
  · simp [isRunning, List.contains_eq_mem, Bool.decide_or]

@[simp] theorem isRunning_unmark (r : Running) (key other : String) :
    (r.unmark key).isRunning other = (r.isRunning other && decide (other ≠ key)) := by
  simp [isRunning, unmark, List.contains_eq_mem, List.mem_filter, Bool.decide_and]

end Running

end Galley
