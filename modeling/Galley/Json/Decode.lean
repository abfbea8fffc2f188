import Galley.Json.Basic
import Galley.Text.Quoted
/-!
# Decoding JSON values

A decoder turns a value into a domain value or says why it refuses. Records are described field by
field in their declared order. A record may be written as an object, where unknown keys are passed
over and the first fault in the order of the members counts, or as an array of its fields in
order, where fields with a default may be missing at the end.
-/
namespace Galley.Json

inductive DecodeError
  | missingField (name : String)
  | duplicateField (name : String)
  | invalidType (found : Json) (wanted : String)
  | outOfRange (n : Int) (wanted : String)
  | invalidLength (n : Nat) (wanted : String)
  | unknownName (name : String)
  | unreadable
  deriving Repr

/-- What a value is, as a message names it. -/
def described : Json → String
  | .null => "null"
  | .bool true => "boolean `true`"
  | .bool false => "boolean `false`"
  | .number (.int n) => s!"integer `{n}`"
  | .number (.float x) => "floating point `" ++ String.ofList (Decimal.Layout.json.write x) ++ "`"
  | .string s => "string " ++ s.quoted
  | .array _ => "sequence"
  | .object _ => "map"
  | .unreadable => "unreadable literal"

def DecodeError.message : DecodeError → String
  | .missingField name => s!"missing field `{name}`"
  | .duplicateField name => s!"duplicate field `{name}`"
  | .invalidType found wanted => "invalid type: " ++ found.described ++ ", expected " ++ wanted
  | .outOfRange n wanted => s!"invalid value: integer `{n}`, expected {wanted}"
  | .invalidLength n wanted => s!"invalid length {n}, expected {wanted}"
  | .unknownName name => s!"unknown variant `{name}`"
  | .unreadable => "unreadable literal"

abbrev Decoder (α : Type) := Json → Except DecodeError α

/-- Refuses a value that is of another kind than the wanted one. -/
def refuse {α : Type} (j : Json) (wanted : String) : Except DecodeError α :=
  match j with
  | .unreadable => .error .unreadable
  | j => .error (.invalidType j wanted)

namespace Decoder

def string : Decoder String
  | .string s => .ok s
  | j => refuse j "a string"

def bool : Decoder Bool
  | .bool b => .ok b
  | j => refuse j "a boolean"

def integer (wanted : String) (low high : Int) : Decoder Int
  | .number (.int n) => if low ≤ n ∧ n ≤ high then .ok n else .error (.outOfRange n wanted)
  | j => refuse j wanted

def u32 : Decoder Nat := fun j =>
  (integer "u32" 0 Text.Numeral.maxU32 j).map Int.toNat

def u64 : Decoder Nat := fun j =>
  (integer "u64" 0 Text.Numeral.maxU64 j).map Int.toNat

def i64 : Decoder Int :=
  integer "i64" Text.Numeral.minI64 Text.Numeral.maxI64

def items {α : Type} (item : Decoder α) : List Json → Except DecodeError (List α)
  | [] => .ok []
  | j :: js => do
    let a ← item j
    let rest ← items item js
    return a :: rest

def list {α : Type} (item : Decoder α) : Decoder (List α)
  | .array js => items item js
  | j => refuse j "a sequence"

def option {α : Type} (present : Decoder α) : Decoder (Option α)
  | .null => .ok none
  | j => (present j).map some

/-- A free-form value below a record that is the outermost value of its text. -/
def freeform : Decoder Json := fun j =>
  match j.normal? (maxLevels - 1) with
  | some j => .ok j
  | none => .error .unreadable

/-- One of several names, written as a text or as the only key of an object with null behind it. -/
def name {α : Type} (names : List (String × α)) : Decoder α
  | .string s => named s
  | .object [(s, .null)] => named s
  | j => refuse j "a name"
where
  named (s : String) : Except DecodeError α :=
    match names.find? (·.1 == s) with
    | some (_, a) => .ok a
    | none => .error (.unknownName s)

end Decoder

/-- One known key of a record: its names and a check of its value. -/
structure Known where
  names : List String
  check : Json → Except DecodeError Unit

/-- The fields of a record: the known keys, and how the record is put together from the members of
an object or from the items of an array, of which `ofItems` gives back the unused ones. -/
structure Fields (α : Type) where
  known : List Known
  ofMembers : List (String × Json) → Except DecodeError α
  ofItems : (wanted : String) → (index : Nat) → List Json → Except DecodeError (α × List Json)

namespace Fields

def pure {α : Type} (a : α) : Fields α where
  known := []
  ofMembers _ := .ok a
  ofItems _ _ js := .ok (a, js)

def seq {α β : Type} (f : Fields (α → β)) (x : Fields α) : Fields β where
  known := f.known ++ x.known
  ofMembers members := do
    let g ← f.ofMembers members
    let a ← x.ofMembers members
    return g a
  ofItems wanted index js := do
    let (g, js) ← f.ofItems wanted index js
    let (a, js) ← x.ofItems wanted (index + f.known.length) js
    return (g a, js)

instance : Applicative Fields where
  pure := pure
  seq f x := seq f (x ())

/-- One field, with other names it goes by and the value it has when it is missing. -/
def fieldWith {α : Type} (names : List String) (decode : Decoder α) (absent : Option α) :
    Fields α where
  known := [⟨names, fun j => (decode j).map fun _ => ()⟩]
  ofMembers members :=
    match members.find? (names.contains ·.1), absent with
    | some (_, j), _ => decode j
    | none, some a => .ok a
    | none, none => .error (.missingField (names.headD ""))
  ofItems wanted index js :=
    match js, absent with
    | j :: js, _ => (decode j).map (·, js)
    | [], some a => .ok (a, [])
    | [], none => .error (.invalidLength index wanted)

/-- A field that must be there. -/
def field {α : Type} (name : String) (decode : Decoder α) : Fields α :=
  fieldWith [name] decode none

def fieldD {α : Type} (name : String) (decode : Decoder α) (absent : α) : Fields α :=
  fieldWith [name] decode (some absent)

/-- A field that may be missing or null. -/
def field? {α : Type} (name : String) (decode : Decoder α) : Fields (Option α) :=
  fieldWith [name] (Decoder.option decode) (some none)

end Fields

/-- Looks through the members in order: a known key must not come twice and must have a good
value. `seen` holds the first names of the keys met so far. -/
def scan (known : List Known) (seen : List String) : List (String × Json) → Except DecodeError Unit
  | [] => .ok ()
  | (key, j) :: rest =>
    match known.find? (·.names.contains key) with
    | none => scan known seen rest
    | some k =>
      let first := k.names.headD ""
      if seen.contains first then .error (.duplicateField first)
      else do
        k.check j
        scan known (first :: seen) rest

def Decoder.record {α : Type} (name : String) (fields : Fields α) : Decoder α
  | .object members => do
    scan fields.known [] members
    fields.ofMembers members
  | .array js => do
    let count := fields.known.length
    let elements := if count = 1 then "element" else "elements"
    let (a, rest) ← fields.ofItems s!"struct {name} with {count} {elements}" 0 js
    if rest.isEmpty then .ok a
    else .error (.invalidLength js.length "fewer elements in array")
  | j => refuse j s!"struct {name}"

/-- A member that is left out when its value is empty. -/
def memberUnless (empty : Bool) (key : String) (value : Json) : List (String × Json) :=
  if empty then [] else [(key, value)]

end Galley.Json
