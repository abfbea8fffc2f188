import Galley.Duration
import Galley.Text.Quoted
/-!
# Durations as texts

A duration is written in its greatest fitting unit below a second, and in hours, minutes and seconds
from there on, with a decimal fraction that ends in no zero. It is read from a sequence of numbers
with units. A fraction is cut off, digit by digit, at the place where its unit has no whole
nanosecond left.
-/
namespace Galley

structure DurationError where
  text : String
  deriving DecidableEq, Repr

def DurationError.message (e : DurationError) : String :=
  "invalid duration " ++ e.text.quoted

namespace Duration

open Text.Numeral

/-- A whole number and a fraction of `width` places, the zeros at its end left out. -/
def withFraction (whole rest width : Nat) : List Char :=
  if rest = 0 ∨ width = 0 then decimal whole
  else decimal whole ++ '.' :: ((padded width rest).reverse.dropWhile (· = '0')).reverse

def write (d : Duration) : List Char :=
  let n := d.capped.nanos
  if n = 0 then ['0', 's']
  else if n < 1000 then withFraction n 0 0 ++ ['n', 's']
  else if n < 1000000 then withFraction (n / 1000) (n % 1000) 3 ++ ['µ', 's']
  else if n < 1000000000 then withFraction (n / 1000000) (n % 1000000) 6 ++ ['m', 's']
  else
    let total := n / 1000000000
    let hours := total / 3600
    let minutes := total / 60 % 60
    (if 0 < hours then decimal hours ++ ['h'] else []) ++
      (if 0 < hours ∨ 0 < minutes then decimal minutes ++ ['m'] else []) ++
      withFraction (total % 60) (n % 1000000000) 9 ++ ['s']

def isNumberChar (c : Char) : Bool :=
  c.isDigit || c == '.'

/-- Cuts a text into runs of number characters, each with the run of other characters behind it.
Only the first number can be empty, and only the last unit. -/
def pairs : List Char → List (List Char × List Char)
  | [] => []
  | c :: cs =>
    if isNumberChar c then
      match pairs cs with
      | [] => [([c], [])]
      | (number, unit) :: rest => (c :: number, unit) :: rest
    else
      match pairs cs with
      | ([], unit) :: rest => ([], c :: unit) :: rest
      | rest => ([], [c]) :: rest

/-- The nanoseconds of a unit; the micro sign and the Greek letter both stand for micro. -/
def unit? (cs : List Char) : Option Nat :=
  if cs = ['n', 's'] then some 1
  else if cs = ['u', 's'] ∨ cs = ['\u00B5', 's'] ∨ cs = ['\u03BC', 's'] then some 1000
  else if cs = ['m', 's'] then some 1000000
  else if cs = ['s'] then some 1000000000
  else if cs = ['m'] then some 60000000000
  else if cs = ['h'] then some 3600000000000
  else none

/-- The value of the digits after a point, the first of which counts a tenth of `place`. What comes
after the last place is not looked at. -/
def fraction? (place : Nat) : List Char → Option Nat
  | [] => some 0
  | c :: cs =>
    if c.isDigit then
      if place / 10 = 0 then some 0
      else (fraction? (place / 10) cs).map (digitValue c * (place / 10) + ·)
    else none

def pair? (number unit : List Char) : Option Nat := do
  let scale ← unit? unit
  let whole := number.takeWhile (· ≠ '.')
  let fraction := (number.dropWhile (· ≠ '.')).drop 1
  if whole = [] ∧ fraction = [] then none
  else
    let whole ← if whole = [] then some 0 else digits? whole
    return whole * scale + (← fraction? scale fraction)

def total? : List (List Char × List Char) → Option Nat
  | [] => some 0
  | (number, unit) :: rest => do
    let first ← pair? number unit
    return first + (← total? rest)

/-- Reads a duration; a plus sign may stand in front, and `0` needs no unit. -/
def read? (cs : List Char) : Option Duration :=
  let body := match cs with
    | '+' :: rest => rest
    | _ => cs
  if body = ['0'] then some ⟨0⟩
  else if body = [] then none
  else ((total? (pairs body)).filter (· ≤ maxU64)).map Duration.mk

def text (d : Duration) : String :=
  String.ofList d.write

def parse (s : String) : Except DurationError Duration :=
  match read? s.toList with
  | some d => .ok d
  | none => .error ⟨s⟩

end Duration

end Galley
