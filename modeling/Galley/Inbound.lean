import Galley.Text.Blank
/-!
# Inbound texts

A text that a page sends goes to all pages of its user as one line.
-/
namespace Galley.Inbound

/-- Line ends become spaces, and the blanks at both ends are dropped. -/
def fold (text : String) : String :=
  String.trimBlanks (String.ofList (text.toList.map fun c => if c = '\n' then ' ' else c))

/-- The greatest size of a message in bytes. -/
def maxSize : Nat := 512

end Galley.Inbound
