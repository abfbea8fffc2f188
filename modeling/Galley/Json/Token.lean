import Galley.Json.Basic
import Galley.Text.Utf8
/-!
# Tokens of JSON texts

A machine that looks at one character at a time cuts a text into tokens. Runs of number characters
and of letters are collected and judged as a whole, so that two values without a separator are two
tokens; the reader refuses them. A text token whose escapes leave half a surrogate pair, or whose
bytes are no UTF-8, is a token without a text. A text token keeps whether any of its characters is
given by its number.
-/
namespace Galley.Json

inductive Token
  | openObject
  | closeObject
  | openArray
  | closeArray
  | colon
  | comma
  | text (s : Option (List Char)) (numbered : Bool)
  | value (j : Json)
  deriving Repr, Inhabited, BEq

namespace Token

/-- The exact decimal that a numeral spells: its digits, how many of them follow the point, and the
power of ten behind them. -/
structure Numeral where
  negative : Bool
  whole : List Char
  fraction : Option (List Char)
  power : Option Int

def spanDigits (cs : List Char) : List Char × List Char :=
  (cs.takeWhile Char.isDigit, cs.dropWhile Char.isDigit)

/-- The sign and digits after the letter of an exponent, with nothing behind them. -/
def exponent? (cs : List Char) : Option Int :=
  match cs with
  | '+' :: ds => (Text.Numeral.digits? ds).map Int.ofNat
  | '-' :: ds => (Text.Numeral.digits? ds).map fun n => -(n : Int)
  | ds => (Text.Numeral.digits? ds).map Int.ofNat

/-- Reads a numeral: digits without a needless zero in front, then a point with digits, then an
exponent. -/
def numeral? (cs : List Char) : Option Numeral :=
  let (negative, cs) := match cs with
    | '-' :: rest => (true, rest)
    | _ => (false, cs)
  let (whole, rest) := spanDigits cs
  if whole = [] ∨ (1 < whole.length ∧ whole.head? = some '0') then none
  else
    let (fraction, rest) := match rest with
      | '.' :: more =>
        let (ds, more) := spanDigits more
        (some ds, more)
      | _ => (none, rest)
    if fraction = some [] then none
    else match rest with
      | [] => some ⟨negative, whole, fraction, none⟩
      | e :: ds =>
        if e = 'e' ∨ e = 'E' then
          (exponent? ds).map fun power => ⟨negative, whole, fraction, some power⟩
        else none

/-- Digits gathered while the whole fits in 64 bits: the value and the digits left over. -/
def gather (n : Nat) : List Char → Nat × List Char
  | [] => (n, [])
  | c :: cs =>
    let next := 10 * n + Text.Numeral.digitValue c
    if next ≤ Text.Numeral.maxU64 then gather next cs else (n, c :: cs)

/-- The floating point number of a numeral. The digits are gathered while they fit in 64 bits; those
left over only count as places. Then the power of ten is applied with one rounding. -/
def float? (x : Numeral) : Option Decimal.Binary64 := do
  let (n, left) := gather 0 x.whole
  let places : Int := left.length
  let fraction := x.fraction.getD []
  let (n, left) := gather n fraction
  let places := places - ((fraction.length - left.length : Nat) : Int)
  let power := x.power.getD 0
  if 2147483647 < power.natAbs then
    if n ≠ 0 ∧ 0 < power then none
    else some ⟨x.negative, 0, Decimal.Binary64.minExponent⟩
  else
    let y ← (← Decimal.Binary64.ofNat? n).scale? (places + power)
    return if x.negative then y.neg else y

/-- The value of a numeral: a whole number where one is written that fits in 64 bits and is not
minus zero, a floating point number otherwise. -/
def numberOf (x : Numeral) : Json :=
  let n := Text.Numeral.valueFrom 0 x.whole
  let fits := if x.negative then n ≠ 0 ∧ n ≤ 9223372036854775808 else n ≤ Text.Numeral.maxU64
  if x.fraction = none ∧ x.power = none ∧ fits then
    .int (if x.negative then -(n : Int) else n)
  else match float? x with
    | some y => .number (.float y)
    | none => .unreadable

def ofNumber? (cs : List Char) : Option Token :=
  (numeral? cs).map fun x => .value (numberOf x)

def ofWord? (cs : List Char) : Option Token :=
  if cs = ['n', 'u', 'l', 'l'] then some (.value .null)
  else if cs = ['t', 'r', 'u', 'e'] then some (.value (.bool true))
  else if cs = ['f', 'a', 'l', 's', 'e'] then some (.value (.bool false))
  else none

/-- A piece of a text: a character, a 16-bit unit given by its number, or bytes of no character. -/
inductive Piece
  | char (c : Char)
  | unit (n : Nat)
  | bad
  deriving DecidableEq, Repr

def Piece.isUnit : Piece → Bool
  | .unit _ => true
  | _ => false

/-- Whether a unit is the first half of a surrogate pair. -/
def isHigh (n : Nat) : Bool := 0xD800 ≤ n && n < 0xDC00

/-- Whether a unit is the second half of a surrogate pair. -/
def isLow (n : Nat) : Bool := 0xDC00 ≤ n && n < 0xE000

def paired (high low : Nat) : Char :=
  Char.ofNat (0x10000 + (high - 0xD800) * 0x400 + (low - 0xDC00))

/-- Joins pieces to a text, if every surrogate has its partner. -/
def join? : List Piece → Option (List Char)
  | [] => some []
  | .char c :: rest => (join? rest).map (c :: ·)
  | .bad :: _ => none
  | .unit n :: rest =>
    if isHigh n then
      match rest with
      | .unit m :: rest => if isLow m then (join? rest).map (paired n m :: ·) else none
      | _ => none
    else if isLow n then none
    else (join? rest).map (Char.ofNat n :: ·)

def escaped? (c : Char) : Option Char :=
  match c with
  | '"' => some '"'
  | '\\' => some '\\'
  | '/' => some '/'
  | 'b' => some '\x08'
  | 'f' => some '\x0c'
  | 'n' => some '\n'
  | 'r' => some '\r'
  | 't' => some '\t'
  | _ => none

end Token

open Token

/-- Where the machine stands: between tokens, in a run of number characters or letters, in a text,
after a backslash in a text, or in an escape with some of its four digits read. Runs and texts are
kept last piece first. -/
inductive Lexer
  | between
  | number (run : List Char)
  | word (run : List Char)
  | text (pieces : List Piece)
  | escape (pieces : List Piece)
  | digits (pieces : List Piece) (count code : Nat)

namespace Lexer

def isNumberChar (c : Char) : Bool :=
  c.isDigit || c == '+' || c == '-' || c == '.' || c == 'e' || c == 'E'

def isSpace (c : Char) : Bool :=
  c == ' ' || c == '\n' || c == '\t' || c == '\r'

/-- A character between tokens: the tokens it makes and where it leads. -/
def start (c : Char) : Option (List Token × Lexer) :=
  if isSpace c then some ([], .between)
  else if c.isDigit || c == '-' then some ([], .number [c])
  else if c.isLower then some ([], .word [c])
  else match c with
    | '"' => some ([], .text [])
    | '\x7b' => some ([.openObject], .between)
    | '\x7d' => some ([.closeObject], .between)
    | '[' => some ([.openArray], .between)
    | ']' => some ([.closeArray], .between)
    | ':' => some ([.colon], .between)
    | ',' => some ([.comma], .between)
    | _ => none

def endRun (token : Option Token) (c : Char) : Option (List Token × Lexer) := do
  let token ← token
  let (tokens, next) ← start c
  return (token :: tokens, next)

def step (lexer : Lexer) (g : Text.Utf8.Glyph) : Option (List Token × Lexer) :=
  match lexer, g with
  | .between, some c => start c
  | .number run, some c =>
    if isNumberChar c then some ([], .number (c :: run)) else endRun (ofNumber? run.reverse) c
  | .word run, some c =>
    if c.isLower then some ([], .word (c :: run)) else endRun (ofWord? run.reverse) c
  | .text pieces, some c =>
    if c = '"' then some ([.text (join? pieces.reverse) (pieces.any (·.isUnit))], .between)
    else if c = '\\' then some ([], .escape pieces)
    else if c.toNat < 0x20 then none
    else some ([], .text (.char c :: pieces))
  | .text pieces, none => some ([], .text (.bad :: pieces))
  | .escape pieces, some c =>
    if c = 'u' then some ([], .digits pieces 0 0)
    else (escaped? c).map fun e => ([], .text (.char e :: pieces))
  | .digits pieces count code, some c => do
    let code := 16 * code + (← Text.Numeral.hexValue? c)
    if count < 3 then some ([], .digits pieces (count + 1) code)
    else some ([], .text (.unit code :: pieces))
  | _, none => none

def finish : Lexer → Option (List Token)
  | .between => some []
  | .number run => (ofNumber? run.reverse).map ([·])
  | .word run => (ofWord? run.reverse).map ([·])
  | _ => none

def run (lexer : Lexer) : List Text.Utf8.Glyph → Option (List Token)
  | [] => lexer.finish
  | g :: gs => do
    let (tokens, next) ← lexer.step g
    let rest ← next.run gs
    return tokens ++ rest

end Lexer

/-- Whether a text can only be a number. -/
def startsNumber (cs : List Char) : Bool :=
  cs.head?.any fun c => c.isDigit || c = '-'

/-- Takes away from the keys that are numbers what makes them numbers, where a digit of it is given
by its own number: a number is one only as it is written. -/
def numberedKeysMarked : List Token → List Token
  | .text (some cs) true :: .colon :: rest =>
    .text (some (if startsNumber cs then '\\' :: cs else cs)) true :: .colon ::
      numberedKeysMarked rest
  | t :: rest => t :: numberedKeysMarked rest
  | [] => []

def tokens? (text : List Text.Utf8.Glyph) : Option (List Token) :=
  Lexer.between.run text

end Galley.Json
