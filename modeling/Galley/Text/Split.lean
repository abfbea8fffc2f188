/-!
# Cutting texts

Cuts at a character or a word, kept as functions on lists of characters.
-/
namespace Galley.Text

/-- The text before the first `mark` and the text after it. -/
def cutAt? (mark : Char) : List Char → Option (List Char × List Char)
  | [] => none
  | c :: cs =>
    if c = mark then some ([], cs)
    else (cutAt? mark cs).map fun (before, after) => (c :: before, after)

/-- The text after `word`, if it starts with it. -/
def after? : (word cs : List Char) → Option (List Char)
  | [], cs => some cs
  | _ :: _, [] => none
  | w :: word, c :: cs => if w = c then after? word cs else none

/-- The text before the first occurrence of `word` and the text after it. -/
def cutAtWord? (word : List Char) : List Char → Option (List Char × List Char)
  | [] => if word = [] then some ([], []) else none
  | c :: cs =>
    match after? word (c :: cs) with
    | some rest => some ([], rest)
    | none => (cutAtWord? word cs).map fun (before, after) => (c :: before, after)

/-- The pieces between the marks, one more than there are marks. -/
def pieces (mark : Char) : List Char → List (List Char)
  | [] => [[]]
  | c :: cs =>
    if c = mark then [] :: pieces mark cs
    else match pieces mark cs with
      | [] => [[c]]
      | p :: ps => (c :: p) :: ps

theorem after?_append (word cs : List Char) : after? word (word ++ cs) = some cs := by
  induction word with
  | nil => rfl
  | cons w word ih => simp [after?, ih]

theorem eq_append_of_after? {word cs rest : List Char} (h : after? word cs = some rest) :
    cs = word ++ rest := by
  fun_induction after? word cs with
  | case1 cs => simpa using h
  | case2 => simp at h
  | case3 word c cs ih => simp [ih h]
  | case4 => simp at h

end Galley.Text

def String.cutAt? (s : String) (mark : Char) : Option (String × String) :=
  (Galley.Text.cutAt? mark s.toList).map fun (a, b) => (String.ofList a, String.ofList b)

def String.after? (s word : String) : Option String :=
  (Galley.Text.after? word.toList s.toList).map String.ofList

def String.cutAtWord? (s word : String) : Option (String × String) :=
  (Galley.Text.cutAtWord? word.toList s.toList).map fun (a, b) => (String.ofList a, String.ofList b)
