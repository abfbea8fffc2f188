import Galley.Json.Basic
/-!
# Looking into JSON values

What a value holds, read leniently: a member that is missing, or that is of another kind than the
one that is asked for, is given as the stated default.
-/
namespace Galley.Json

def text? : Json → Option String
  | .string s => some s
  | _ => none

def int? : Json → Option Int
  | .number (.int n) => some n
  | _ => none

def bool? : Json → Option Bool
  | .bool b => some b
  | _ => none

def items? : Json → Option (List Json)
  | .array js => some js
  | _ => none

def members : Json → List (String × Json)
  | .object ms => ms
  | _ => []

/-- The member with a key, be it null. -/
def member? (j : Json) (key : String) : Option Json :=
  find? key j.members

/-- The member with a key, if it is not null. -/
def given? (j : Json) (key : String) : Option Json :=
  match j.member? key with
  | some .null => none
  | other => other

/-- The member with a key, null where there is none. -/
def at_ (j : Json) (key : String) : Json :=
  (j.member? key).getD .null

def textAt? (j : Json) (key : String) : Option String :=
  (j.at_ key).text?

def textAt (j : Json) (key : String) (default : String := "") : String :=
  (j.textAt? key).getD default

def intAt? (j : Json) (key : String) : Option Int :=
  (j.at_ key).int?

def intAt (j : Json) (key : String) (default : Int := 0) : Int :=
  (j.intAt? key).getD default

def natAt (j : Json) (key : String) (default : Nat := 0) : Nat :=
  ((j.intAt? key).map Int.toNat).getD default

def boolAt (j : Json) (key : String) (default : Bool := false) : Bool :=
  (j.at_ key).bool?.getD default

def itemsAt (j : Json) (key : String) : List Json :=
  (j.at_ key).items?.getD []

def textsAt (j : Json) (key : String) : List String :=
  (j.itemsAt key).filterMap text?

/-- The members of both objects, those of the second in the place of those of the first. -/
def overlay (base top : Json) : Json :=
  .object ((base.members.filter fun (k, _) => (top.member? k).isNone) ++ top.members)

/-- The value with the member at a key changed, if there is one. -/
def change (j : Json) (key : String) (f : Json → Json) : Json :=
  match j with
  | .object ms => .object (ms.map fun (k, v) => (k, if k = key then f v else v))
  | j => j

end Galley.Json
