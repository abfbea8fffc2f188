/-!
# Numerals in texts

Whole numbers are read from ASCII digits with at most one sign in front; leading zeros are allowed,
blanks and separators are not, and a number outside the asked range is refused. They are written in
the shortest decimal form.
-/
namespace Galley.Text.Numeral

def maxU32 : Nat := 4294967295

def maxU64 : Nat := 18446744073709551615

def minI64 : Int := -9223372036854775808

def maxI64 : Int := 9223372036854775807

def digitValue (c : Char) : Nat :=
  c.toNat - '0'.toNat

def hexValue? (c : Char) : Option Nat :=
  if '0' ≤ c ∧ c ≤ '9' then some (c.toNat - 48)
  else if 'a' ≤ c ∧ c ≤ 'f' then some (c.toNat - 87)
  else if 'A' ≤ c ∧ c ≤ 'F' then some (c.toNat - 55)
  else none

/-- The bytes that are written as pairs of hexadecimal digits. -/
def hexBytes : List Char → List UInt8
  | a :: b :: rest =>
    (16 * (hexValue? a).getD 0 + (hexValue? b).getD 0).toUInt8 :: hexBytes rest
  | _ => []

/-- The value of a run of digits that follows the value `n`. -/
def valueFrom (n : Nat) (cs : List Char) : Nat :=
  Nat.ofDigitChars 10 cs n

/-- Reads one or more digits and nothing else. -/
def digits? (cs : List Char) : Option Nat :=
  if cs ≠ [] ∧ cs.all Char.isDigit then some (valueFrom 0 cs) else none

/-- Reads a count of at most `bound`; a plus sign may stand in front. -/
def count? (bound : Nat) (cs : List Char) : Option Nat :=
  let body := match cs with
    | '+' :: rest => rest
    | _ => cs
  (digits? body).filter (· ≤ bound)

def integer? (cs : List Char) : Option Int :=
  match cs with
  | '-' :: rest => ((digits? rest).map fun n => -(n : Int)).filter (minI64 ≤ ·)
  | _ => (count? maxI64.toNat cs).map Int.ofNat

def decimal (n : Nat) : List Char :=
  Nat.toDigits 10 n

/-- The decimal digits of an integer after its sign. -/
def signed (n : Int) : List Char :=
  if n < 0 then '-' :: decimal n.natAbs else decimal n.natAbs

/-- The last `width` digits of a number, zeros in front. -/
def padded (width n : Nat) : List Char :=
  let ds := decimal n
  List.replicate (width - ds.length) '0' ++ ds

/-- The nearest signed 64-bit integer. -/
def saturate (n : Int) : Int :=
  max minI64 (min maxI64 n)

theorem saturate_eq_self {n : Int} (h : minI64 ≤ n) (h' : n ≤ maxI64) : saturate n = n := by
  simp [saturate, Int.min_eq_right h', Int.max_eq_right h]

end Galley.Text.Numeral

def String.count? (bound : Nat) (s : String) : Option Nat :=
  Galley.Text.Numeral.count? bound s.toList

def String.integer? (s : String) : Option Int :=
  Galley.Text.Numeral.integer? s.toList
