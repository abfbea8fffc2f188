/-!
# Base64

The standard alphabet with canonical padding: the input is cut into groups of four symbols, only the
last of which may end in padding, and the bits that padding leaves unused must be zero. Of several
faults the one that a reader from the left meets first is reported, except that a single symbol left
over at the end is looked at before everything else.
-/
namespace Galley.Text.Base64

inductive Error
  | symbol (byte : UInt8) (offset : Nat)
  | lastSymbol (byte : UInt8) (offset : Nat)
  | length (n : Nat)
  | padding
  deriving DecidableEq, Repr

def Error.message : Error → String
  | .symbol byte offset => s!"Invalid symbol {byte}, offset {offset}."
  | .lastSymbol byte offset => s!"Invalid last symbol {byte}, offset {offset}."
  | .length n => s!"Invalid input length: {n}"
  | .padding => "Invalid padding"

def pad : UInt8 := 61

/-- The six bits of a symbol. -/
def value? (b : UInt8) : Option Nat :=
  let n := b.toNat
  if 65 ≤ n ∧ n ≤ 90 then some (n - 65)
  else if 97 ≤ n ∧ n ≤ 122 then some (n - 97 + 26)
  else if 48 ≤ n ∧ n ≤ 57 then some (n - 48 + 52)
  else if n = 43 then some 62
  else if n = 47 then some 63
  else none

/-- The six bits of the symbol at `offset`. -/
def value (offset : Nat) (b : UInt8) : Except Error Nat :=
  match value? b with
  | some v => .ok v
  | none => .error (.symbol b offset)

/-- The three bytes of four groups of six bits. -/
def bytes (a b c d : Nat) : List UInt8 :=
  let n := ((a * 64 + b) * 64 + c) * 64 + d
  [(n / 65536).toUInt8, (n / 256 % 256).toUInt8, (n % 256).toUInt8]

/-- Groups before the last one, none of which may hold padding. -/
def groups (offset : Nat) : List UInt8 → Except Error (List UInt8)
  | a :: b :: c :: d :: rest => do
    let out := bytes (← value offset a) (← value (offset + 1) b) (← value (offset + 2) c)
      (← value (offset + 3) d)
    return out ++ (← groups (offset + 4) rest)
  | _ => .ok []

/-- What the last group holds: its symbols with their bits, and how many paddings follow them. -/
structure Tail where
  symbols : List (UInt8 × Nat)
  paddings : Nat

/-- Reads the last group, whose first symbol is at `base`, from its place `index` on. -/
def readTail (base index : Nat) (tail : Tail) : List UInt8 → Except Error Tail
  | [] => .ok tail
  | b :: bs =>
    if b = pad then
      if index < 2 then .error (.symbol b (base + index))
      else readTail base (index + 1) { tail with paddings := tail.paddings + 1 } bs
    else if 0 < tail.paddings then .error (.symbol pad (base + tail.symbols.length))
    else do
      let v ← value (base + index) b
      readTail base (index + 1) { tail with symbols := tail.symbols ++ [(b, v)] } bs

def last (base : Nat) (input : List UInt8) : Except Error (List UInt8) := do
  let tail ← readTail base 0 ⟨[], 0⟩ input
  let count := tail.symbols.length
  if input ≠ [] ∧ count < 2 then throw (.length (base + count))
  if (tail.paddings + count) % 4 ≠ 0 then throw .padding
  match tail.symbols with
  | [(_, a), (s, b)] =>
    if b % 16 ≠ 0 then throw (.lastSymbol s (base + 1))
    return (bytes a b 0 0).take 1
  | [(_, a), (_, b), (s, c)] =>
    if c % 4 ≠ 0 then throw (.lastSymbol s (base + 2))
    return (bytes a b c 0).take 2
  | [(_, a), (_, b), (_, c), (_, d)] => return bytes a b c d
  | _ => return []

def decode (input : List UInt8) : Except Error (List UInt8) := do
  let count := input.length
  let extra := count % 4
  if extra = 1 then
    match input.getLast? with
    | some b => if b ≠ pad ∧ value? b = none then throw (.symbol b (count - 1))
    | none => pure ()
  let base := count - (if extra = 0 then 4 else extra)
  let front ← groups 0 (input.take base)
  let back ← last base (input.drop base)
  return front ++ back

end Galley.Text.Base64
