/-!
# Blank characters

The characters with the Unicode property White_Space, and the trimming of a text at both ends.
-/
namespace Galley.Text

/-- A character with the property White_Space. -/
def isBlank (c : Char) : Bool :=
  let n := c.toNat
  (9 ≤ n && n ≤ 13) || n == 32 || n == 0x85 || n == 0xA0 || n == 0x1680 ||
    (0x2000 ≤ n && n ≤ 0x200A) || n == 0x2028 || n == 0x2029 || n == 0x202F || n == 0x205F ||
    n == 0x3000

def trimRight (cs : List Char) : List Char :=
  (cs.reverse.dropWhile isBlank).reverse

def trim (cs : List Char) : List Char :=
  trimRight (cs.dropWhile isBlank)

@[simp] theorem trim_nil : trim [] = [] := rfl

end Galley.Text

def String.trimBlanks (s : String) : String :=
  String.ofList (Galley.Text.trim s.toList)
