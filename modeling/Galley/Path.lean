/-!
# Paths

Paths are texts. Joining puts a slash between two parts unless one is there; an absolute part stands
alone, and nothing is normalized. As a place in a tree of files a path is the list of its parts.
-/
namespace Galley.Path

def join (base part : String) : String :=
  if part.toList.head? = some '/' then part
  else if base.isEmpty ∨ base.toList.getLast? = some '/' then base ++ part
  else base ++ "/" ++ part

/-- The parts of a path without the empty ones and the single dots. -/
def parts (path : String) : List String :=
  ((path.toList.splitOn '/').map String.ofList).filter fun p => p ≠ "" ∧ p ≠ "."

/-- Whether a path ends with a slash or with a single dot as its last part, so that it goes into
what the part before that names. -/
def endsInside (path : String) : Bool :=
  match path.toList.reverse with
  | '/' :: _ => true
  | ['.'] => true
  | '.' :: '/' :: _ => true
  | _ => false

/-- The path of the directory that a path is in, or `none` for the root and the empty path. A slash
at the end does not count, and neither do several slashes in a row. -/
def parent? (path : String) : Option String :=
  let trimEnd (cs : List Char) := (cs.reverse.dropWhile (· = '/')).reverse
  let cs := trimEnd path.toList
  if cs = [] then none
  else
    let above := (cs.reverse.dropWhile (· ≠ '/')).reverse
    let bare := trimEnd above
    some (String.ofList (if bare = [] then above.take 1 else bare))

end Galley.Path
