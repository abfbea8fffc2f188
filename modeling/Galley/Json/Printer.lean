import Galley.Json.Basic
/-!
# Writing JSON texts

Texts escape the quote, the backslash and the controls below the space, the common ones by a letter,
and nothing else. The compact form has no blanks; the pretty form puts each item and member on a
line of its own, indented by two spaces a level, and leaves what is empty as it is.
-/
namespace Galley.Json

def escapeChar (c : Char) : List Char :=
  match c with
  | '"' => ['\\', '"']
  | '\\' => ['\\', '\\']
  | '\x08' => ['\\', 'b']
  | '\x0c' => ['\\', 'f']
  | '\n' => ['\\', 'n']
  | '\r' => ['\\', 'r']
  | '\t' => ['\\', 't']
  | c =>
    if c.toNat < 0x20 then
      ['\\', 'u', '0', '0', Nat.digitChar (c.toNat / 16), Nat.digitChar (c.toNat % 16)]
    else [c]

def writeText (s : String) : List Char :=
  '"' :: (s.toList.flatMap escapeChar ++ ['"'])

def writeNumber : Number → List Char
  | .int n => Text.Numeral.signed n
  | .float x => Decimal.Layout.json.write x

/-- The line break before an item at a level, in the pretty form. -/
def lineBreak (pretty : Bool) (level : Nat) : List Char :=
  if pretty then '\n' :: List.replicate (2 * level) ' ' else []

def afterColon (pretty : Bool) : List Char :=
  if pretty then [' '] else []

mutual

def write (pretty : Bool) (level : Nat) : Json → List Char
  | .null => ['n', 'u', 'l', 'l']
  | .bool true => ['t', 'r', 'u', 'e']
  | .bool false => ['f', 'a', 'l', 's', 'e']
  | .number n => writeNumber n
  | .string s => writeText s
  | .array [] => ['[', ']']
  | .array (j :: js) =>
    '[' :: (lineBreak pretty (level + 1) ++ write pretty (level + 1) j ++
      writeItems pretty (level + 1) js ++ lineBreak pretty level ++ [']'])
  | .object [] => ['\x7b', '\x7d']
  | .object ((k, j) :: rest) =>
    '\x7b' :: (lineBreak pretty (level + 1) ++ writeText k ++ ':' :: afterColon pretty ++
      write pretty (level + 1) j ++ writeMembers pretty (level + 1) rest ++
      lineBreak pretty level ++ ['\x7d'])
  | .unreadable => ['n', 'u', 'l', 'l']

/-- The items after the first one. -/
def writeItems (pretty : Bool) (level : Nat) : List Json → List Char
  | [] => []
  | j :: js =>
    ',' :: (lineBreak pretty level ++ write pretty level j ++ writeItems pretty level js)

/-- The members after the first one. -/
def writeMembers (pretty : Bool) (level : Nat) : List (String × Json) → List Char
  | [] => []
  | (k, j) :: rest =>
    ',' :: (lineBreak pretty level ++ writeText k ++ ':' :: afterColon pretty ++
      write pretty level j ++ writeMembers pretty level rest)

end

/-- The text without blanks. -/
def compact (j : Json) : String :=
  String.ofList (write false 0 j)

/-- The text with a line for each item. -/
def pretty (j : Json) : String :=
  String.ofList (write true 0 j)

end Galley.Json
