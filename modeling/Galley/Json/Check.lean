import Galley.Json.Fault
/-!
# Checks of JSON texts

What a text has to hold, piece by piece, so that it can be told where it does not. Every decoder of
values that are read from a file has its check, which finds a fault exactly where the decoder
refuses the value or there is none.
-/
namespace Galley.Json

/-- Goes through a value, with the number of levels that may be opened. -/
abbrev Check := (levels : Nat) → Scan Unit

structure CheckedField where
  names : List String
  check : Check
  required : Bool

namespace CheckedField

/-- A field that must be there. -/
def field (name : String) (check : Check) : CheckedField := ⟨[name], check, true⟩

/-- A field with a default. -/
def fieldD (name : String) (check : Check) : CheckedField := ⟨[name], check, false⟩

def firstName (f : CheckedField) : String :=
  f.names.headD ""

end CheckedField

namespace Check

open Scan

def string : Check := fun _ => do
  let c ← valueStart
  if c = '"' then
    take
    let _ ← text
  else unwanted c "a string"

def bool : Check := fun _ => do
  match ← valueStart with
  | 't' =>
    take
    word "rue".toList
  | 'f' =>
    take
    word "alse".toList
  | c => unwanted c "a boolean"

def integer (wanted : String) (low high : Int) : Check := fun _ => do
  let c ← valueStart
  if c = '-' ∨ c.isDigit then
    if c = '-' then take
    match Decoder.integer wanted low high (← numeral (c = '-')) with
    | .ok _ => return ()
    | .error e => fail (.unsuitable e)
  else unwanted c wanted

def u32 : Check :=
  integer "u32" 0 Text.Numeral.maxU32

def i64 : Check :=
  integer "i64" Text.Numeral.minI64 Text.Numeral.maxI64

def itemsFor (item : Scan Unit) (first : Bool) : (fuel : Nat) → Scan Unit
  | 0 => fail .endOfList
  | fuel + 1 => do
    if ← hasItem first then
      item
      itemsFor item false fuel

def list (item : Check) : Check := fun levels => do
  let c ← valueStart
  if c = '[' then
    enter levels fun levels => do
      closed (itemsFor (item levels) true ((← get).length + 1)) listEnd
  else unwanted c "a sequence"

def numberKey (number : Check) : Scan Unit := do
  take
  if (← peek?).any fun c => c = '-' || c.isDigit then
    number 0
    if (← peek?) = some '"' then take else failNext .noQuote
  else fail .keyNotNumber

def entriesFor (key : Check) (entry : Scan Unit) (first : Bool) : (fuel : Nat) → Scan Unit
  | 0 => fail .endOfObject
  | fuel + 1 => do
    if ← hasKey first then
      numberKey key
      colon
      entry
      entriesFor key entry false fuel

def table (key entry : Check) : Check := fun levels => do
  let c ← valueStart
  if c = '\x7b' then
    enter levels fun levels => do
      closed (entriesFor key (entry levels) true ((← get).length + 1)) objectEnd
  else unwanted c "a map"

/-- Members of an object, at most `fuel`: a known key must not come twice, and another one is left
to `other`. Gives the keys that were found. -/
def membersFor {σ : Type} (fields : List CheckedField) (other : String → σ → Scan σ) (levels : Nat)
    (seen : List String) (s : σ) (first : Bool) : (fuel : Nat) → Scan (List String × σ)
  | 0 => fail .endOfObject
  | fuel + 1 => do
    if ← hasKey first then
      take
      let key ← text
      match fields.find? (·.names.contains key) with
      | some f =>
        if seen.contains f.firstName then unsuitable (.duplicateField f.firstName)
        colon
        f.check levels
        membersFor fields other levels (f.firstName :: seen) s false fuel
      | none =>
        colon
        let s ← other key s
        membersFor fields other levels seen s false fuel
    else return (seen, s)

def requireAll (fields : List CheckedField) (seen : List String) : Scan Unit :=
  match fields.find? fun f => f.required && !seen.contains f.firstName with
  | some f => unsuitable (.missingField f.firstName)
  | none => return ()

/-- The fields of a record as the items of an array, in their order. -/
def fieldItems (wanted : String) (levels index : Nat) : List CheckedField → Scan Unit
  | [] => return ()
  | f :: fs => do
    if ← hasItem (index = 0) then f.check levels
    else if f.required then unsuitable (.invalidLength index wanted)
    fieldItems wanted levels (index + 1) fs

def record (name : String) (fields : List CheckedField) : Check := fun levels => do
  let c ← valueStart
  if c = '\x7b' then
    enter levels fun levels => do
      let fuel := (← get).length + 1
      let inside : Scan Unit := do
        let (seen, _) ← membersFor fields (fun _ _ => passValue) levels [] () true fuel
        requireAll fields seen
      closed inside objectEnd
  else if c = '[' then
    let count := fields.length
    let elements := if count = 1 then "element" else "elements"
    enter levels fun levels =>
      closed (fieldItems s!"struct {name} with {count} {elements}" levels 0 fields) listEnd
  else unwanted c ("struct " ++ name)

/-- A record that is an object and has the members of another one beside its own, which are decoded
when all are there. -/
def joined {α : Type} (name : String) (fields : List CheckedField) (other : Decoder α) : Check :=
  fun levels => do
    let c ← valueStart
    if c = '\x7b' then
      enter levels fun levels => do
        let fuel := (← get).length + 1
        let collect (key : String) (members : List (String × Json)) :
            Scan (List (String × Json)) := do
          return (key, ← value levels) :: members
        let inside : Scan Unit := do
          let (seen, reversed) ← membersFor fields collect levels [] [] true fuel
          requireAll fields seen
          match other (.object reversed.reverse) with
          | .ok _ => return ()
          | .error e => unsuitable e
        closed inside objectEnd
    else unwanted c ("struct " ++ name)

def fault? (check : Check) (s : String) : Option Fault :=
  Scan.fault? (check allLevels) s

end Check

end Galley.Json
