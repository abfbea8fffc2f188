import Galley.Text.Printable
/-!
# Quoted texts

The form in which messages show a text: between double quotes, with quotes, backslashes and the
common controls escaped by a letter and every other unprintable or combining character by its
number in hexadecimal.
-/
namespace Galley.Text.Quoted

/-- A character's number in hexadecimal between braces. -/
def numbered (c : Char) : List Char :=
  ['\\', 'u', '\x7b'] ++ Nat.toDigits 16 c.toNat ++ ['\x7d']

/-- One character as it stands in a quotation. -/
def quoteChar (c : Char) : List Char :=
  match c with
  | '"' => ['\\', '"']
  | '\\' => ['\\', '\\']
  | '\n' => ['\\', 'n']
  | '\r' => ['\\', 'r']
  | '\t' => ['\\', 't']
  | '\x00' => ['\\', '0']
  | c => if isPrintable c && !isCombining c then [c] else numbered c

def quote (cs : List Char) : List Char :=
  '"' :: (cs.flatMap quoteChar ++ ['"'])

end Galley.Text.Quoted

/-- The text between quotes, with everything unprintable escaped. -/
def String.quoted (s : String) : String :=
  String.ofList (Galley.Text.Quoted.quote s.toList)
