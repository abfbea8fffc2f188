/-!
# Numbers with 53 binary digits

The finite numbers of the 64-bit binary format in exact arithmetic: a magnitude below `2 ^ 53` times
a power of two, with a sign. A ratio is rounded to the nearest such number, a tie to the even
magnitude; what is too large for the format has no number here.
-/
namespace Galley.Decimal

/-- The number `± magnitude * 2 ^ exponent`. -/
structure Binary64 where
  negative : Bool
  magnitude : Nat
  exponent : Int
  deriving DecidableEq, Repr, Inhabited

namespace Binary64

def minExponent : Int := -1074

def maxExponent : Int := 971

/-- The least magnitude with all 53 binary digits. -/
def leastNormal : Nat := 4503599627370496

/-- Multiplies a ratio by a power of two. -/
def shift (num den : Nat) (e : Int) : Nat × Nat :=
  if 0 ≤ e then (num * Nat.pow 2 e.toNat, den) else (num, den * Nat.pow 2 (-e).toNat)

/-- The nearest whole number, a tie to the even one. -/
def roundEven (num den : Nat) : Nat :=
  let q := num / den
  let twice := 2 * (num % den)
  if twice < den then q
  else if den < twice then q + 1
  else if q % 2 = 0 then q else q + 1

/-- The binary order of a positive ratio: the greatest power of two not above it. -/
def order (num den : Nat) : Int :=
  let guess : Int := Int.ofNat num.log2 - Int.ofNat den.log2
  let (a, b) := shift num den (-guess)
  if a < b then guess - 1 else guess

/-- The nearest number to a ratio, or `none` when it is beyond the format. -/
def ofRatio? (negative : Bool) (num den : Nat) : Option Binary64 :=
  if num = 0 then some ⟨negative, 0, minExponent⟩
  else
    let e := max minExponent (order num den - 52)
    let (a, b) := shift num den (-e)
    let q := roundEven a b
    let (q, e) := if q = 2 * leastNormal then (leastNormal, e + 1) else (q, e)
    if maxExponent < e then none else some ⟨negative, q, e⟩

def ofNat? (n : Nat) : Option Binary64 :=
  ofRatio? false n 1

def ratio (x : Binary64) : Nat × Nat :=
  shift x.magnitude 1 x.exponent

def isZero (x : Binary64) : Bool :=
  x.magnitude == 0

def mul? (x y : Binary64) : Option Binary64 :=
  let (a, b) := x.ratio
  let (c, d) := y.ratio
  ofRatio? (x.negative != y.negative) (a * c) (b * d)

def div? (x y : Binary64) : Option Binary64 :=
  let (a, b) := x.ratio
  let (c, d) := y.ratio
  ofRatio? (x.negative != y.negative) (a * d) (b * c)

def powerOfTen? (n : Nat) : Option Binary64 :=
  ofRatio? false (Nat.pow 10 n) 1

/-- Scales by a power of ten in single rounded steps, each at most `10 ^ 308`. A quotient that
reaches zero stays there. -/
def scale? (x : Binary64) (e : Int) : Option Binary64 :=
  if h : 308 < e.natAbs then
    if x.isZero then some x
    else if 0 ≤ e then none
    else do
      let y ← x.div? (← powerOfTen? 308)
      y.scale? (e + 308)
  else do
    let p ← powerOfTen? e.natAbs
    if 0 ≤ e then x.mul? p else x.div? p
  termination_by e.natAbs
  decreasing_by omega

def neg (x : Binary64) : Binary64 :=
  { x with negative := !x.negative }

end Binary64

end Galley.Decimal
