/-!
# Slugs

The form in which names stand in paths: ASCII letters in lower case, digits and underscores, and one
hyphen for each run of anything else. Two characters beyond ASCII have a lower case that starts with
an ASCII letter: the Kelvin sign (k) and the dotted capital I (i and a combining dot).
-/
namespace Galley.Text.Slug

def isKept (c : Char) : Bool :=
  c.isAlphanum || c == '_'

/-- The lower case of a character, as far as a slug can show it. -/
def lower (c : Char) : List Char :=
  if c == '\u212A' then ['k']
  else if c == '\u0130' then ['i', '\u0307']
  else [c.toLower]

/-- Writes one hyphen for each run of characters that are not kept. `pending` says whether the text
before ended in such a run, already written. -/
def hyphenate (pending : Bool) : List Char → List Char
  | [] => []
  | c :: cs =>
    if isKept c then c :: hyphenate false cs
    else if pending then hyphenate true cs
    else '-' :: hyphenate true cs

def slug (cs : List Char) : List Char :=
  hyphenate false (cs.flatMap lower)

end Galley.Text.Slug

/-- The form of a name that stands in paths. -/
def String.slug (s : String) : String :=
  String.ofList (Galley.Text.Slug.slug s.toList)
