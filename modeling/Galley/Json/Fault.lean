import Galley.Json.Decode
import Galley.Json.Token
/-!
# Faults of JSON texts

A text is gone through byte by byte up to its first fault. A fault is placed by its line and by how
many bytes of the line stand before its end: the bytes that were taken, with the next one when it is
that one which cannot stand there. What a value is wanted to be is only told once the value is over,
so such a fault is placed where the text goes on.
-/
namespace Galley.Json

inductive Cause
  | endOfValue
  | endOfList
  | endOfObject
  | endOfText
  | noValue
  | noColon
  | noListEnd
  | noObjectEnd
  | noWord
  | noQuote
  | badNumber
  | outOfRange
  | badEscape
  | loneSurrogate
  | halfPair
  | control
  | keyNotText
  | keyNotNumber
  | trailingComma
  | trailingText
  | tooDeep
  /-- The text is a JSON text that does not hold what is wanted. -/
  | unsuitable (e : DecodeError)
  deriving Repr

def Cause.message : Cause → String
  | .endOfValue => "EOF while parsing a value"
  | .endOfList => "EOF while parsing a list"
  | .endOfObject => "EOF while parsing an object"
  | .endOfText => "EOF while parsing a string"
  | .noValue => "expected value"
  | .noColon => "expected `:`"
  | .noListEnd => "expected `,` or `]`"
  | .noObjectEnd => "expected `,` or `\x7d`"
  | .noWord => "expected ident"
  | .noQuote => "expected `\"`"
  | .badNumber => "invalid number"
  | .outOfRange => "number out of range"
  | .badEscape => "invalid escape"
  | .loneSurrogate => "lone leading surrogate in hex escape"
  | .halfPair => "unexpected end of hex escape"
  | .control => "control character (\\u0000-\\u001F) found while parsing a string"
  | .keyNotText => "key must be a string"
  | .keyNotNumber => "invalid value: expected key to be a number in quotes"
  | .trailingComma => "trailing comma"
  | .trailingText => "trailing characters"
  | .tooDeep => "recursion limit exceeded"
  | .unsuitable e => e.message

structure Fault where
  cause : Cause
  line : Nat
  column : Nat
  deriving Repr

def Fault.message (f : Fault) : String :=
  f.cause.message ++ s!" at line {f.line} column {f.column}"

/-- A fault while the text is gone through, with the number of bytes left behind it where that is
settled. -/
structure Stop where
  cause : Cause
  left : Option Nat

def Stop.settled (stop : Stop) (left : Nat) : Stop :=
  { stop with left := some (stop.left.getD left) }

def Stop.fault (stop : Stop) (bytes : List UInt8) : Fault :=
  let before := bytes.take (bytes.length - stop.left.getD 0)
  let isEnd (b : UInt8) : Bool := b == 10
  ⟨stop.cause, before.countP isEnd + 1, (before.reverse.takeWhile (!isEnd ·)).length⟩

/-- Goes through a text from the bytes that are left of it. -/
abbrev Scan (α : Type) := EStateM Stop (List UInt8) α

namespace Scan

/-- The next byte, which is not taken. -/
def peek? : Scan (Option Char) := do
  return (← get).head?.map Char.ofUInt8

def take : Scan Unit := modify List.tail

def next? : Scan (Option Char) := do
  let c ← peek?
  take
  return c

/-- Stops where the bytes that were taken end. -/
def fail {α : Type} (cause : Cause) : Scan α := do
  throw ⟨cause, some (← get).length⟩

/-- Stops behind the next byte. -/
def failNext {α : Type} (cause : Cause) : Scan α := do
  throw ⟨cause, some ((← get).length - 1)⟩

/-- Stops at a place that is settled later. -/
def unsuitable {α : Type} (e : DecodeError) : Scan α :=
  throw ⟨.unsuitable e, none⟩

def skipBlanks : Scan (Option Char) := do
  modify (·.dropWhile fun b => Lexer.isSpace (Char.ofUInt8 b))
  peek?

def valueStart : Scan Char := do
  match ← skipBlanks with
  | some c => return c
  | none => failNext .endOfValue

def word : List Char → Scan Unit
  | [] => return ()
  | c :: cs => do
    match ← next? with
    | none => fail .endOfValue
    | some d => if c = d then word cs else fail .noWord

def digits : Scan (List Char) := do
  let ds := ((← get).takeWhile (fun b => (Char.ofUInt8 b).isDigit)).map Char.ofUInt8
  modify (·.drop ds.length)
  return ds

def wholePart (atEnd : Cause) : Scan (List Char) := do
  match ← next? with
  | none => fail atEnd
  | some '0' => if (← peek?).any Char.isDigit then failNext .badNumber else return ['0']
  | some c => if c.isDigit then return c :: (← digits) else fail .badNumber

/-- Takes a point and the digits behind it, if there is one. -/
def fractionPart (atEnd : Cause) : Scan (Option (List Char)) := do
  if (← peek?) = some '.' then
    take
    let ds ← digits
    if ds = [] then failNext (if (← peek?).isNone then atEnd else .badNumber)
    return some ds
  else return none

/-- Takes the sign and the digits behind the letter of an exponent, if there is one. -/
def powerPart (atEnd : Cause) : Scan (Option (Bool × List Char)) := do
  if (← peek?).any fun c => c = 'e' || c = 'E' then
    take
    let sign ← peek?
    if sign.any fun c => c = '+' || c = '-' then take
    match ← next? with
    | none => fail atEnd
    | some c =>
      if c.isDigit then return some (sign = some '-', c :: (← digits)) else fail .badNumber
  else return none

/-- Stops behind the first digit with which a positive power is beyond all bounds, if the number is
not zero. -/
def checkPower (isZero : Bool) : Option (Bool × List Char) → Scan Unit
  | some (false, ds) => do
    let isBeyond (count : Nat) : Bool := 2147483647 < Text.Numeral.valueFrom 0 (ds.take count)
    match (List.range' 1 ds.length).find? isBeyond with
    | some count =>
      if !isZero then throw ⟨.outOfRange, some ((← get).length + (ds.length - count))⟩
    | none => return ()
  | _ => return ()

/-- Takes a numeral behind its sign, and gives its value. -/
def numeral (negative : Bool) : Scan Json := do
  let whole ← wholePart .endOfValue
  let fraction ← fractionPart .endOfValue
  let power ← powerPart .endOfValue
  checkPower ((whole ++ fraction.getD []).all (· = '0')) power
  let signed (power : Bool × List Char) : Int :=
    let n : Int := Text.Numeral.valueFrom 0 power.2
    if power.1 then -n else n
  match Token.numberOf ⟨negative, whole, fraction, power.map signed⟩ with
  | .unreadable => fail .outOfRange
  | j => return j

/-- Takes a numeral behind its sign, whatever its value is. -/
def passNumber : Scan Unit := do
  let _ ← wholePart .badNumber
  let _ ← fractionPart .badNumber
  let _ ← powerPart .badNumber

def unit : Scan Nat := do
  match ← get with
  | a :: b :: c :: d :: rest =>
    set rest
    match [a, b, c, d].mapM fun x => Text.Numeral.hexValue? (Char.ofUInt8 x) with
    | some ds => return ds.foldl (fun n d => 16 * n + d) 0
    | none => fail .badEscape
  | _ =>
    set ([] : List UInt8)
    fail .endOfText

/-- Takes a byte that has to follow the first half of a surrogate pair. -/
def pairMark (mark : Char) : Scan Unit := do
  match ← peek? with
  | none => fail .endOfText
  | some c =>
    take
    if c ≠ mark then fail .halfPair

/-- Takes a character's number, and a second one where the first gives half a surrogate pair. -/
def numbered : Scan Char := do
  let n ← unit
  if Token.isLow n then fail .loneSurrogate
  else if Token.isHigh n then
    pairMark '\\'
    pairMark 'u'
    let m ← unit
    if Token.isLow m then return Token.paired n m else fail .loneSurrogate
  else return Char.ofNat n

def escape : Scan Char := do
  match ← next? with
  | none => fail .endOfText
  | some 'u' => numbered
  | some c =>
    match Token.escaped? c with
    | some c => return c
    | none => fail .badEscape

/-- Takes the rest of a text, at most `fuel` characters, behind what was taken in reverse. -/
def textFor (reversed : List UInt8) : (fuel : Nat) → Scan String
  | 0 => fail .endOfText
  | fuel + 1 => do
    match ← next? with
    | none => fail .endOfText
    | some '"' => return String.ofUtf8Lossy reversed.reverse
    | some '\\' =>
      let c ← escape
      textFor ((Text.Utf8.encodeChar c).reverse ++ reversed) fuel
    | some c =>
      if c.toNat < 0x20 then fail .control else textFor (c.toNat.toUInt8 :: reversed) fuel

/-- Takes a text behind its first quote. -/
def text : Scan String := do
  textFor [] ((← get).length + 1)

/-- Takes the rest of a text, at most `fuel` characters, whatever the numbers in it mean. -/
def passTextFor : (fuel : Nat) → Scan Unit
  | 0 => fail .endOfText
  | fuel + 1 => do
    match ← peek? with
    | none => fail .endOfText
    | some '"' => take
    | some '\\' =>
      take
      match ← next? with
      | none => fail .endOfText
      | some 'u' => let _ ← unit
      | some c => if (Token.escaped? c).isNone then fail .badEscape
      passTextFor fuel
    | some c =>
      if c.toNat < 0x20 then fail .control
      take
      passTextFor fuel

def passText : Scan Unit := do
  passTextFor ((← get).length + 1)

def colon : Scan Unit := do
  match ← skipBlanks with
  | some ':' => take
  | some _ => failNext .noColon
  | none => failNext .endOfObject

def hasItem (first : Bool) : Scan Bool := do
  match ← skipBlanks with
  | none => failNext .endOfList
  | some ']' => return false
  | some c =>
    if first then return true
    else if c = ',' then
      take
      match ← skipBlanks with
      | some ']' => failNext .trailingComma
      | some _ => return true
      | none => failNext .endOfValue
    else failNext .noListEnd

def hasKey (first : Bool) : Scan Bool := do
  match ← skipBlanks with
  | none => failNext .endOfObject
  | some '\x7d' => return false
  | some c =>
    if first then
      if c = '"' then return true else failNext .keyNotText
    else if c = ',' then
      take
      match ← skipBlanks with
      | some '"' => return true
      | some '\x7d' => failNext .trailingComma
      | some _ => failNext .keyNotText
      | none => failNext .endOfValue
    else failNext .noObjectEnd

def listEnd : Scan Unit := do
  match ← skipBlanks with
  | some ']' => take
  | some ',' =>
    take
    match ← skipBlanks with
    | some ']' => failNext .trailingComma
    | _ => failNext .trailingText
  | some _ => failNext .trailingText
  | none => failNext .endOfList

def objectEnd : Scan Unit := do
  match ← skipBlanks with
  | some '\x7d' => take
  | some ',' => failNext .trailingComma
  | some _ => failNext .trailingText
  | none => failNext .endOfObject

/-- Takes what is between two brackets and the closing one. The closing bracket is looked for even
behind a fault, which is placed there if its place is still open. -/
def closed {α : Type} (inside : Scan α) (close : Scan Unit) : Scan α := fun rest =>
  match inside rest with
  | .ok a rest =>
    match close rest with
    | .ok _ rest => .ok a rest
    | .error stop rest => .error stop rest
  | .error stop rest =>
    let rest := match close rest with
      | .ok _ rest => rest
      | .error _ rest => rest
    .error (stop.settled rest.length) rest

/-- How many levels may still be opened before any is. -/
def allLevels : Nat := maxLevels + 1

/-- Takes an opening bracket, one level further down. -/
def enter {α : Type} (levels : Nat) (inside : Nat → Scan α) : Scan α := do
  if levels ≤ 1 then failNext .tooDeep
  take
  inside (levels - 1)

/-- Takes a value that starts with a byte, if it is no array and no object. -/
def scalar? (c : Char) : Scan (Option Json) := do
  match c with
  | 'n' =>
    take
    word "ull".toList
    return some .null
  | 't' =>
    take
    word "rue".toList
    return some (.bool true)
  | 'f' =>
    take
    word "alse".toList
    return some (.bool false)
  | '"' =>
    take
    return some (.string (← text))
  | '-' =>
    take
    return some (← numeral true)
  | _ => if c.isDigit then return some (← numeral false) else return none

/-- Refuses the value that starts with a byte in place of what is wanted. -/
def unwanted {α : Type} (c : Char) (wanted : String) : Scan α := do
  let found ← match c with
    | '[' => pure (.array [])
    | '\x7b' => pure (.object [])
    | _ =>
      match ← scalar? c with
      | some j => pure j
      | none => failNext .noValue
  fail (.unsuitable (.invalidType found wanted))

mutual

/-- Takes a value of any form, within `fuel` steps. -/
def valueFor (fuel levels : Nat) : Scan Json :=
  match fuel with
  | 0 => fail .endOfValue
  | fuel + 1 => do
    let c ← valueStart
    if c = '[' then enter levels fun levels => closed (itemsFor fuel levels []) listEnd
    else if c = '\x7b' then enter levels fun levels => closed (membersFor fuel levels []) objectEnd
    else match ← scalar? c with
      | some j => return j
      | none => failNext .noValue

/-- Takes the items of an array behind those taken, last one first. -/
def itemsFor (fuel levels : Nat) (reversed : List Json) : Scan Json :=
  match fuel with
  | 0 => fail .endOfList
  | fuel + 1 => do
    if ← hasItem reversed.isEmpty then
      let j ← valueFor fuel levels
      itemsFor fuel levels (j :: reversed)
    else return .array reversed.reverse

/-- Takes the members of an object behind those taken, last one first. -/
def membersFor (fuel levels : Nat) (reversed : List (String × Json)) : Scan Json :=
  match fuel with
  | 0 => fail .endOfObject
  | fuel + 1 => do
    if ← hasKey reversed.isEmpty then
      take
      let key ← text
      colon
      let j ← valueFor fuel levels
      membersFor fuel levels ((key, j) :: reversed)
    else return .object reversed.reverse

end

def value (levels : Nat) : Scan Json := do
  valueFor (3 * (← get).length + 3) levels

/-- An array or an object whose content does not count. -/
inductive Bracket
  | list
  | object
  deriving DecidableEq

def Bracket.noEnd : Bracket → Cause
  | .list => .noListEnd
  | .object => .noObjectEnd

def Bracket.brokenOff : Bracket → Cause
  | .list => .endOfList
  | .object => .endOfObject

def Bracket.close : Bracket → Char
  | .list => ']'
  | .object => '\x7d'

/-- Takes a key that does not count, and its colon. -/
def passKey : Scan Unit := do
  match ← skipBlanks with
  | some '"' => take
  | some _ => failNext .keyNotText
  | none => failNext .endOfObject
  passText
  colon

mutual

def passValueFor (fuel : Nat) : Scan Unit :=
  match fuel with
  | 0 => fail .endOfValue
  | fuel + 1 => do
    match ← valueStart with
    | 'n' =>
      take
      word "ull".toList
    | 't' =>
      take
      word "rue".toList
    | 'f' =>
      take
      word "alse".toList
    | '"' =>
      take
      passText
    | '-' =>
      take
      passNumber
    | '[' =>
      take
      passRestFor fuel .list true
    | '\x7b' =>
      take
      passRestFor fuel .object true
    | c => if c.isDigit then passNumber else failNext .noValue

/-- Takes the rest of an array or object that does not count, up to its end. -/
def passRestFor (fuel : Nat) (bracket : Bracket) (first : Bool) : Scan Unit :=
  match fuel with
  | 0 => fail bracket.brokenOff
  | fuel + 1 => do
    match ← skipBlanks with
    | none => failNext bracket.brokenOff
    | some c =>
      if c = bracket.close then take
      else
        if !first then
          if c = ',' then take else failNext bracket.noEnd
        if bracket = .object then passKey
        passValueFor fuel
        passRestFor fuel bracket false

end

def passValue : Scan Unit := do
  passValueFor (3 * (← get).length + 3)

/-- Goes through a text as a whole. -/
def fault? (whole : Scan Unit) (s : String) : Option Fault :=
  let bytes := s.utf8
  let all : Scan Unit := do
    whole
    if (← skipBlanks).isSome then failNext .trailingText
  match all bytes with
  | .ok _ _ => none
  | .error stop _ => some (stop.fault bytes)

end Scan

end Galley.Json
