import Galley.Json.Token
/-!
# Reading JSON texts

A stack machine over tokens. Each open array or object is a frame with what it holds so far, last
first. A text is read when exactly one value has been finished at its end.
-/
namespace Galley.Json

/-- An array or object that is still open, the latter with the key whose value comes next. -/
inductive Frame
  | array (before : List Json)
  | object (before : List (Option String × Json)) (key : Option String)

/-- What may come next, with the open frames, innermost first. -/
inductive Reader
  | value (frames : List Frame)
  | firstItem (frames : List Frame)
  | firstKey (frames : List Frame)
  | key (frames : List Frame) (before : List (Option String × Json))
  | colon (frames : List Frame) (before : List (Option String × Json)) (key : Option String)
  | after (frames : List Frame) (j : Json)

namespace Reader

def textOf (s : Option (List Char)) : Option String :=
  s.map String.ofList

def stringOf (s : Option (List Char)) : Json :=
  match s with
  | some cs => .string (String.ofList cs)
  | none => .unreadable

/-- An object from its members, first one first. -/
def objectOf (members : List (Option String × Json)) : Json :=
  match members.mapM fun (k, j) => k.map (·, j) with
  | some members => .object members
  | none => .unreadable

/-- A token where a value must come. -/
def begin? (frames : List Frame) : Token → Option Reader
  | .value j => some (.after frames j)
  | .text s _ => some (.after frames (stringOf s))
  | .openArray => some (.firstItem frames)
  | .openObject => some (.firstKey frames)
  | _ => none

def step (reader : Reader) (token : Token) : Option Reader :=
  match reader, token with
  | .value frames, t => begin? frames t
  | .firstItem frames, .closeArray => some (.after frames (.array []))
  | .firstItem frames, t => begin? (.array [] :: frames) t
  | .firstKey frames, .closeObject => some (.after frames (.object []))
  | .firstKey frames, .text k _ => some (.colon frames [] (textOf k))
  | .key frames before, .text k _ => some (.colon frames before (textOf k))
  | .colon frames before k, .colon => some (.value (.object before k :: frames))
  | .after (.array before :: frames) j, .comma => some (.value (.array (j :: before) :: frames))
  | .after (.array before :: frames) j, .closeArray =>
    some (.after frames (.array (j :: before).reverse))
  | .after (.object before k :: frames) j, .comma => some (.key frames ((k, j) :: before))
  | .after (.object before k :: frames) j, .closeObject =>
    some (.after frames (objectOf ((k, j) :: before).reverse))
  | _, _ => none

def run (reader : Reader) : List Token → Option Reader
  | [] => some reader
  | t :: ts => (reader.step t).bind (·.run ts)

@[simp] theorem run_nil (reader : Reader) : reader.run [] = some reader := rfl

@[simp] theorem run_cons (reader : Reader) (t : Token) (ts : List Token) :
    reader.run (t :: ts) = (reader.step t).bind (·.run ts) := rfl

end Reader

def ofTokens? (ts : List Token) : Option Json := do
  match ← (Reader.value []).run ts with
  | .after [] j => some j
  | _ => none

def ofGlyphs? (text : List Text.Utf8.Glyph) : Option Json := do
  ofTokens? (← tokens? text)

def ofText? (s : String) : Option Json :=
  ofGlyphs? (s.toList.map some)

/-- Reads a text in which some objects have numbers for keys. Such a key counts as a number only if
it is written in digits. -/
def ofNumberedText? (s : String) : Option Json := do
  ofTokens? (numberedKeysMarked (← tokens? (s.toList.map some)))

def ofBytes? (bytes : List UInt8) : Option Json :=
  ofGlyphs? (Text.Utf8.read bytes)

end Galley.Json
