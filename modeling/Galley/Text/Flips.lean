/-!
# Sets of characters as lists of flips

A set of code points is given by the increasing list of the points where membership changes,
starting outside. A point is in the set exactly when an odd number of flips lie at or below it.
The tables of the character properties are written this way.
-/
namespace Galley.Text.Flips

/-- Whether `point` lies in the set that changes at `flips`. -/
def contains (flips : List Nat) (point : Nat) : Bool :=
  match flips with
  | [] => false
  | start :: rest => if point < start then false else !contains rest point

@[simp] theorem contains_nil (point : Nat) : contains [] point = false := rfl

theorem contains_of_lt {start : Nat} {rest : List Nat} {point : Nat} (h : point < start) :
    contains (start :: rest) point = false := by
  simp [contains, h]

end Galley.Text.Flips
