import Galley.Decimal.Shortest
import Galley.Text.Numeral
/-!
# JSON values

What a JSON text says, with the members of an object in the order of the text and a repeated key
kept. Numbers are whole numbers of at most 64 bits or floating point numbers. A *free-form* value is
one whose objects have sorted and distinct keys; `normal?` makes a value free-form, the last of
several members with one key winning.
-/
namespace Galley

inductive Json.Number
  | int (n : Int)
  | float (x : Decimal.Binary64)
  deriving DecidableEq, Repr

/-- A JSON value. What is well formed and still has no value is `unreadable`: a number beyond every
floating point number, a text with half a surrogate pair, and an object with such a text for a
key. -/
inductive Json
  | null
  | bool (b : Bool)
  | number (n : Json.Number)
  | string (s : String)
  | array (items : List Json)
  | object (members : List (String × Json))
  | unreadable
  deriving Repr, Inhabited, BEq

namespace Json

def int (n : Int) : Json := .number (.int n)

def nat (n : Nat) : Json := .number (.int n)

def strings (ss : List String) : Json := .array (ss.map .string)

def isNull : Json → Bool
  | .null => true
  | _ => false

def find? (key : String) (members : List (String × Json)) : Option Json :=
  (members.find? (·.1 == key)).map (·.2)

/-- Puts a member into sorted members, in the place of one with the same key. -/
def insert (key : String) (value : Json) : List (String × Json) → List (String × Json)
  | [] => [(key, value)]
  | (k, v) :: rest =>
    if key < k then (key, value) :: (k, v) :: rest
    else if key = k then (key, value) :: rest
    else (k, v) :: insert key value rest

def sorted (members : List (String × Json)) : Json :=
  .object (members.foldl (fun acc (k, v) => insert k v acc) [])

mutual

/-- The free-form value, unless something in it is unreadable or nested more than `levels` deep. -/
def normal? (levels : Nat) : Json → Option Json
  | .array items =>
    match levels with
    | 0 => none
    | levels + 1 => (normalItems? levels items).map .array
  | .object members =>
    match levels with
    | 0 => none
    | levels + 1 => (normalMembers? levels members).map sorted
  | .unreadable => none
  | j => some j

def normalItems? (levels : Nat) : List Json → Option (List Json)
  | [] => some []
  | j :: js => do
    let j ← normal? levels j
    let js ← normalItems? levels js
    return j :: js

def normalMembers? (levels : Nat) : List (String × Json) → Option (List (String × Json))
  | [] => some []
  | (k, j) :: rest => do
    let j ← normal? levels j
    let rest ← normalMembers? levels rest
    return (k, j) :: rest

end

def maxLevels : Nat := 127

/-- The value with sorted keys in all its objects. -/
def freeform (j : Json) : Json :=
  (normal? maxLevels j).getD j

end Json

end Galley
