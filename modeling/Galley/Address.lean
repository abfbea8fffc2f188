import Galley.Text.Numeral
import Galley.Text.Split
/-!
# Addresses

Where the daemon listens: an IP address of either version with a port. An IPv4 address is four
numbers without leading zeros. An IPv6 address is up to eight groups in hexadecimal, one run of zero
groups may be left out between two colons, and the last two groups may be given as an IPv4 address;
it stands between brackets, with the number of its zone after a percent sign if it has one.
Addresses are written in one way: without leading zeros, in small letters, with the first longest
run of at least two zero groups left out.
-/
namespace Galley

inductive Ip
  | v4 (bytes : List Nat)
  | v6 (groups : List Nat) (zone : Nat)
  deriving DecidableEq, Repr

structure Address where
  ip : Ip
  port : Nat
  deriving DecidableEq, Repr

namespace Address

/-- What a reader makes of the start of a text, with the rest of the text. -/
abbrev Reader (α : Type) := List Char → Option (α × List Char)

def mark? (c : Char) : List Char → Option (List Char)
  | [] => none
  | d :: rest => if c = d then some rest else none

def isDigit (base : Nat) (c : Char) : Bool :=
  (Text.Numeral.hexValue? c).any (· < base)

/-- Reads all digits at the start as one number, of at most `width` digits and with leading zeros
only where they are allowed. -/
def number? (base : Nat) (width : Option Nat) (zeros : Bool) (bound : Nat) : Reader Nat := fun cs =>
  let ds := cs.takeWhile (isDigit base)
  let n := ds.foldl (fun n c => base * n + (Text.Numeral.hexValue? c).getD 0) 0
  let fits := width.all (ds.length ≤ ·) && (zeros || ds.length == 1 || ds.head? != some '0')
  if ds ≠ [] ∧ fits ∧ n ≤ bound then some (n, cs.drop ds.length) else none

/-- Reads one more of four bytes, after a point unless it is the first. -/
def byte? (first : Bool) : Reader Nat := fun cs => do
  number? 10 (some 3) false 255 (← if first then some cs else mark? '.' cs)

def v4? : Reader (List Nat) := fun cs => do
  let (a, cs) ← byte? true cs
  let (b, cs) ← byte? false cs
  let (c, cs) ← byte? false cs
  let (d, cs) ← byte? false cs
  return ([a, b, c, d], cs)

/-- The two groups that four bytes make. -/
def groupsOfBytes : List Nat → List Nat
  | a :: b :: rest => (256 * a + b) :: groupsOfBytes rest
  | _ => []

/-- Reads groups as long as there are some and there is room, and tells whether an IPv4 address
ended them. -/
def groups (cs : List Char) (first : Bool) : (room : Nat) → (List Nat × Bool) × List Char
  | 0 => (([], false), cs)
  | room + 1 =>
    match if first then some cs else mark? ':' cs with
    | none => (([], false), cs)
    | some body =>
      match if 1 ≤ room then v4? body else none with
      | some (bytes, rest) => ((groupsOfBytes bytes, true), rest)
      | none =>
        match number? 16 (some 4) true 0xFFFF body with
        | none => (([], false), cs)
        | some (g, rest) =>
          let ((gs, ended), rest) := groups rest false room
          ((g :: gs, ended), rest)

def v6? : Reader (List Nat) := fun cs =>
  let ((head, ended), rest) := groups cs true 8
  if head.length = 8 then some (head, rest)
  else if ended then none
  else do
    let rest ← mark? ':' (← mark? ':' rest)
    let ((tail, _), rest) := groups rest true (7 - head.length)
    return (head ++ List.replicate (8 - head.length - tail.length) 0 ++ tail, rest)

def zone? : Reader Nat := fun cs => do
  number? 10 none true Text.Numeral.maxU32 (← mark? '%' cs)

def port? : Reader Nat := fun cs => do
  number? 10 none true 65535 (← mark? ':' cs)

def ip? : Reader Ip := fun cs =>
  match v4? cs with
  | some (bytes, rest) => some (.v4 bytes, rest)
  | none => do
    let (gs, rest) ← v6? (← mark? '[' cs)
    let (zone, rest) := (zone? rest).getD (0, rest)
    return (.v6 gs zone, ← mark? ']' rest)

/-- Reads an address and nothing else. -/
def ofText? (s : String) : Option Address := do
  let (ip, rest) ← ip? s.toList
  let (port, rest) ← port? rest
  if rest = [] then some ⟨ip, port⟩ else none

end Address

namespace Ip

/-- Where the first longest run of zeros starts, and how long it is. -/
def longestZeros : (start : Nat) → List Nat → Nat × Nat
  | _, [] => (0, 0)
  | start, g :: gs =>
    let run := ((g :: gs).takeWhile (· = 0)).length
    let rest := longestZeros (start + 1) gs
    if run ≠ 0 ∧ rest.2 ≤ run then (start, run) else rest

def bytesText (bytes : List Nat) : String :=
  ".".intercalate (bytes.map fun b => String.ofList (Text.Numeral.decimal b))

def bytesOfGroups (a b : Nat) : List Nat :=
  [a / 256, a % 256, b / 256, b % 256]

def groupsText (gs : List Nat) : String :=
  ":".intercalate (gs.map fun g => String.ofList (Nat.toDigits 16 g))

def v6Text (gs : List Nat) : String :=
  match gs with
  | [0, 0, 0, 0, 0, 0xFFFF, a, b] =>
    "::ffff:" ++ bytesText (bytesOfGroups a b)
  | _ =>
    let (start, run) := longestZeros 0 gs
    if 1 < run then groupsText (gs.take start) ++ "::" ++ groupsText (gs.drop (start + run))
    else groupsText gs

def text : Ip → String
  | .v4 bytes => bytesText bytes
  | .v6 gs _ => v6Text gs

/-- An address that a machine without networks can listen at: any one of version 4, since none is
known to be another machine's, and of version 6 the address for all and those that stand for
addresses of version 4. -/
def isOpen : Ip → Bool
  | .v4 _ | .v6 [0, 0, 0, 0, 0, 0xFFFF, _, _] _ => true
  | .v6 gs _ => gs.all (· == 0)

end Ip

/-- An address that a program without special rights can listen at: the ports below 1024 are kept
for the system, apart from the port that stands for any free one. -/
def Address.isOpen (a : Address) : Bool :=
  a.ip.isOpen && (a.port == 0 || 1024 ≤ a.port)

/-- The text of an address, which reads back as the same address. -/
def Address.text (a : Address) : String :=
  let port := ":" ++ String.ofList (Text.Numeral.decimal a.port)
  match a.ip with
  | .v4 _ => a.ip.text ++ port
  | .v6 _ zone =>
    let zone := if zone = 0 then "" else "%" ++ String.ofList (Text.Numeral.decimal zone)
    "[" ++ a.ip.text ++ zone ++ "]" ++ port

end Galley
