import Galley.Duration.Text
import Galley.Scope
import Galley.Text.Split
import Galley.Text.Word
/-!
# Trigger expressions

What the author of a step writes: when it runs (`now`, `in.<count>.<unit>`, `every.<count>.<unit>`)
and how long it may take (`<count>.<unit>`). The count is a run of decimal digits and the unit a run
of word characters; only ASCII digits are read as a number, and only some words are units.
-/
namespace Galley

inductive TriggerError
  | expression (text : String)
  | unit (text : String)
  | timeout (text : String)
  | description (text : String)
  | duration (e : DurationError)
  deriving DecidableEq, Repr

def TriggerError.message : TriggerError → String
  | .expression s => "unrecognized trigger expression " ++ s.quoted
  | .unit s => "unknown time unit " ++ s.quoted
  | .timeout s => "invalid timeout " ++ s.quoted
  | .description s => "malformed trigger description " ++ s.quoted
  | .duration e => e.message

/-- When a step runs: with its recipe, once after a delay, or again and again. -/
inductive StepTrigger
  | now
  | once (delay : Duration)
  | every (interval : Duration)
  deriving DecidableEq, Repr

namespace StepTrigger

def queue : StepTrigger → QueueName
  | .now => .now
  | .once _ => .delayed
  | .every _ => .recurring

/-- Splits `<count>.<unit>` into a run of decimal digits and a run of word characters. -/
def countAndUnit? (cs : List Char) : Option (List Char × List Char) :=
  (Text.cutAt? '.' cs).filter fun (count, unit) =>
    count ≠ [] ∧ count.all Text.isDecimalDigit ∧ unit ≠ [] ∧ unit.all Text.isWordChar

def unitSeconds? (unit : List Char) : Option Nat :=
  let unit := String.ofList unit
  if unit = "second" ∨ unit = "seconds" then some 1
  else if unit = "minute" ∨ unit = "minutes" then some 60
  else if unit = "hour" ∨ unit = "hours" then some 3600
  else none

/-- A count of units, with at most as many seconds as 64 bits hold. -/
def span (count scale : Nat) : Duration :=
  .ofSeconds (min (count * scale) Text.Numeral.maxU64)

def scaled (count unit : List Char) : Except TriggerError Duration :=
  match Text.Numeral.count? Text.Numeral.maxU64 count with
  | none => .error (.expression (String.ofList count))
  | some n =>
    match unitSeconds? unit with
    | none => .error (.unit (String.ofList unit))
    | some scale => .ok (span n scale)

/-- The count and unit after a word and a dot. -/
def afterWord? (word : String) (s : String) : Option (List Char × List Char) :=
  (Text.after? (word.toList ++ ['.']) s.toList).bind countAndUnit?

def parse (s : String) : Except TriggerError StepTrigger :=
  if s = "now" then .ok .now
  else match afterWord? "in" s with
    | some (count, unit) => (scaled count unit).map .once
    | none =>
      match afterWord? "every" s with
      | some (count, unit) => (scaled count unit).map .every
      | none => .error (.expression s)

end StepTrigger

/-- Reads the time a step may take: a count of seconds or minutes. -/
def parseTimeout (s : String) : Except TriggerError Duration :=
  let found := do
    let (count, unit) ← StepTrigger.countAndUnit? s.toList
    let n ← Text.Numeral.count? Text.Numeral.maxU64 count
    let scale ← StepTrigger.unitSeconds? unit
    if scale = 3600 then none else some (StepTrigger.span n scale)
  match found with
  | some d => .ok d
  | none => .error (.timeout s)

end Galley
