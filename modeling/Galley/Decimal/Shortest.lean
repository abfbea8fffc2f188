import Galley.Decimal.Binary64
/-!
# Shortest decimals

The fewest decimal digits that read back as a given binary number: for growing digit counts the two
decimals around the number are compared with the interval of reals that round to it, and of two that
lie in it the nearer is taken, of two equally near ones the one with an even last digit. `Layout`
says how the digits are laid out.
-/
namespace Galley.Decimal

/-- The decimal `digits * 10 ^ exponent`. -/
structure Digits where
  digits : Nat
  exponent : Int
  deriving DecidableEq, Repr

namespace Shortest

/-- Multiplies a ratio by a power of ten. -/
def shiftTen (num den : Nat) (e : Int) : Nat × Nat :=
  if 0 ≤ e then (num * Nat.pow 10 e.toNat, den) else (num, den * Nat.pow 10 (-e).toNat)

/-- Whether the decimal reads back as `x`: it lies between the midpoints to the neighbours of `x`,
which belong to `x` when its magnitude is even. -/
def readsBack (x : Binary64) (d : Digits) : Bool :=
  let (a, b) := shiftTen d.digits 1 d.exponent
  -- four times the decimal in units of the last binary digit
  let (a, b) := Binary64.shift (4 * a) b (-x.exponent)
  let below :=
    if x.magnitude = Binary64.leastNormal ∧ Binary64.minExponent < x.exponent then 1 else 2
  let low := (4 * x.magnitude - below) * b
  let high := (4 * x.magnitude + 2) * b
  if x.magnitude % 2 = 0 then decide (low ≤ a ∧ a ≤ high) else decide (low < a ∧ a < high)

/-- The decimal order of a positive ratio: the greatest power of ten not above it. -/
def order (num den : Nat) : Int :=
  let count (n : Nat) : Int := (Nat.toDigits 10 n).length
  let guess := count num - count den
  let (a, b) := shiftTen num den (-guess)
  if a < b then guess - 1 else guess

/-- Whether the lower of the two decimals around `a / b` is taken. -/
def takesLow (a b : Nat) : Bool :=
  2 * (a % b) < b || (2 * (a % b) = b && a / b % 2 = 0)

/-- The nearer of the two decimals with `count` digits around `x` that reads back as `x`. -/
def withDigits? (x : Binary64) (count : Nat) : Option Digits :=
  let (num, den) := x.ratio
  let e := order num den - (count : Int) + 1
  let (a, b) := shiftTen num den (-e)
  let low : Digits := ⟨a / b, e⟩
  let high : Digits := ⟨a / b + 1, e⟩
  match readsBack x low, readsBack x high with
  | true, true => some (if takesLow a b then low else high)
  | true, false => some low
  | false, true => some high
  | false, false => none

/-- Moves the zeros at the end of the digits into the exponent. -/
def strip (fuel : Nat) (d : Digits) : Digits :=
  match fuel with
  | 0 => d
  | fuel + 1 =>
    if d.digits ≠ 0 ∧ d.digits % 10 = 0 then strip fuel ⟨d.digits / 10, d.exponent + 1⟩ else d

/-- The shortest decimal that reads back; seventeen digits always suffice. -/
def digits (x : Binary64) : Digits :=
  if x.isZero then ⟨0, 0⟩
  else
    let found := (List.range' 1 17).findSome? (withDigits? x)
    strip 17 (found.getD ⟨0, 0⟩)

end Shortest

/-- How digits are laid out: the greatest number of digits before the point and of zeros after it
for which the point is written. Beyond them the exponent is written, always with its sign. -/
structure Layout where
  whole : Nat
  zeros : Nat

namespace Layout

def json : Layout := ⟨16, 4⟩

/-- The text of a number; there is always a fraction or an exponent. -/
def write (layout : Layout) (x : Binary64) : List Char :=
  let d := Shortest.digits x
  let ds := Nat.toDigits 10 d.digits
  let count : Int := ds.length
  -- the point stands after this many digits
  let point := count + d.exponent
  let body :=
    if x.isZero then ['0', '.', '0']
    else if 0 ≤ d.exponent ∧ point ≤ layout.whole then
      ds ++ List.replicate d.exponent.toNat '0' ++ ['.', '0']
    else if 0 < point ∧ point ≤ layout.whole then
      ds.take point.toNat ++ '.' :: ds.drop point.toNat
    else if point ≤ 0 ∧ -point ≤ layout.zeros then
      '0' :: '.' :: (List.replicate (-point).toNat '0' ++ ds)
    else
      let power := point - 1
      let tail := 'e' :: (if power < 0 then '-' else '+') :: Nat.toDigits 10 power.natAbs
      match ds with
      | [d] => d :: tail
      | d :: ds => d :: '.' :: (ds ++ tail)
      | [] => tail
  if x.negative then '-' :: body else body

end Layout

end Galley.Decimal
