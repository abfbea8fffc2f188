import Galley.Text.Alphanumeric
import Galley.Text.Blank
/-!
# Files of variables

A file of lines `NAME=value` sets variables that are not set yet. A value may be quoted: nothing is
special between single quotes; elsewhere a backslash escapes a character and a dollar sign puts in
another variable. A quoted value may go over several lines. Unquoted, a blank ends the value, and
only a comment may follow. The first line that is wrong ends the file, and so does a last line that
breaks off after a single blank. No variable can hold the zero character.
-/
namespace Galley.EnvFile

/-- How far the reading of a value has come at the end of a line. -/
inductive Quoting
  | plain
  /-- After a blank, where a comment may start. -/
  | blank
  | escape
  | double
  | doubleEscape
  | single
  | singleEscape
  deriving DecidableEq, Repr

/-- The reading after one more character; `none` where a comment starts. -/
def Quoting.next? (q : Quoting) (c : Char) : Option Quoting :=
  let opened : Quoting :=
    if c = '\\' then .escape else if c = '"' then .double else if c = '\'' then .single else .plain
  match q with
  | .blank => if c = '#' then none else some opened
  | .escape => some .plain
  | .plain =>
    if Text.isBlank c && c != '\n' && c != '\r' then some .blank else some opened
  | .double => some (if c = '\\' then .doubleEscape else if c = '"' then .plain else .double)
  | .doubleEscape => some .double
  | .single => some (if c = '\\' then .singleEscape else if c = '\'' then .plain else .single)
  | .singleEscape => some .single

/-- Whether something has to follow, be it on another line. -/
def Quoting.isOpen : Quoting → Bool
  | .plain => false
  | _ => true

/-- One line with the characters before a comment and what is open at its end; nothing is after a
comment. -/
def scan (q : Quoting) : List Char → List Char × Quoting
  | [] => ([], q)
  | c :: cs =>
    match q.next? c with
    | none => ([], .plain)
    | some q =>
      let (kept, q) := scan q cs
      (c :: kept, q)

def rawLines : List Char → List (List Char)
  | [] => []
  | c :: cs =>
    if c = '\n' then [c] :: rawLines cs
    else match rawLines cs with
      | [] => [[c]]
      | l :: ls => (c :: l) :: ls

def isComment (line : List Char) : Bool :=
  (line.dropWhile Text.isBlank).head? = some '#'

/-- The lines of a file, each with all that its quotes hold together; `none` stands for an end of
the file where something has to follow. -/
def joined (before : List Char) (q : Quoting) : List (List Char) → List (Option (List Char))
  | [] => if q.isOpen then [none] else []
  | line :: rest =>
    if isComment (before ++ line) then joined [] .plain rest
    else
      let (kept, q) := scan q line
      if q.isOpen then joined (before ++ kept) q rest
      else some (before ++ kept) :: joined [] .plain rest

inductive Place
  | text
  | single
  | double
  /-- After a backslash, within double quotes or not. -/
  | escape (within : Bool)
  /-- In a variable's name after a dollar sign, or between braces after it. -/
  | name (within : Bool) (braced : Bool) (reversed : List Char)
  | ended
  deriving DecidableEq, Repr

def valueOf (look : String → Option String) (reversed : List Char) : List Char :=
  ((look (String.ofList reversed.reverse)).getD "").toList

/-- What a character does outside of names. -/
def plainStep (within : Bool) (c : Char) : Option (List Char × Place) :=
  if c = '$' then some ([], .name within false [])
  else if c = '\\' then some ([], .escape within)
  else if c = '"' then some ([], if within then .text else .double)
  else if within then some ([c], .double)
  else if c = '\'' then some ([], .single)
  else if c = ' ' || c = '\t' then some ([], .ended)
  else some ([c], .text)

/-- What a character of a value gives and where it leads. A value that is over and a comment after
it end together, so the rest of a comment gives nothing. -/
def step (look : String → Option String) (place : Place) (c : Char) :
    Option (List Char × Place) :=
  match place with
  | .ended => if c = ' ' || c = '\t' then some ([], .ended) else none
  | .escape within =>
    let back := if within then Place.double else .text
    if c = 'n' then some (['\n'], back)
    else if ['\\', '\'', '"', '$', ' '].contains c then some ([c], back)
    else none
  | .single => some (if c = '\'' then ([], .text) else ([c], .single))
  | .name within braced reversed =>
    let back := if within then Place.double else .text
    if Text.isAlphanumeric c then some ([], .name within braced (c :: reversed))
    else if braced then
      if c = '\x7d' then some (valueOf look reversed, back)
      else some ([], .name within true (c :: reversed))
    else if c = '\x7b' && reversed.isEmpty then some ([], .name within true [])
    else if c = '$' then some (valueOf look reversed, .name within false [])
    else some (valueOf look reversed ++ [c], back)
  | .double => plainStep true c
  | .text => plainStep false c

def value? (look : String → Option String) (place : Place) : List Char → Option (List Char)
  | [] =>
    match place with
    | .text | .ended | .escape false => some []
    | .name false false reversed => some (valueOf look reversed)
    | _ => none
  | c :: cs =>
    if place = .ended ∧ c = '#' then some []
    else do
      let (out, place) ← step look place c
      return out ++ (← value? look place cs)

def isNameStart (c : Char) : Bool := c.isAlpha || c = '_'

def isNamePart (c : Char) : Bool := c.isAlphanum || c = '_' || c = '.'

/-- Reads a name and the blanks after it. -/
def name? (cs : List Char) : Option (List Char × List Char) :=
  if cs.head?.any isNameStart then
    some (cs.takeWhile isNamePart, (cs.dropWhile isNamePart).dropWhile Text.isBlank)
  else none

def equals? : List Char → Option (List Char)
  | '=' :: rest => some (rest.dropWhile Text.isBlank)
  | _ => none

/-- The name that a line assigns to and what stands after the sign. The word `export` may stand in
front of the name, and is a name itself where the sign follows it. -/
def target? (cs : List Char) : Option (List Char × List Char) := do
  let (name, rest) ← name? cs
  match equals? rest with
  | some rest => return (name, rest)
  | none =>
    if name = "export".toList then
      let (name, rest) ← name? rest
      return (name, ← equals? rest)
    else none

inductive Line
  | nothing
  | wrong
  | assignment (name value : String)
  deriving DecidableEq, Repr

def readLine (look : String → Option String) (line : List Char) : Line :=
  let cs := (Text.trimRight line).dropWhile Text.isBlank
  if cs = [] ∨ cs.head? = some '#' then .nothing
  else match target? cs with
    | none => .wrong
    | some (name, rest) =>
      if rest = [] ∨ rest.head? = some '#' then .assignment (String.ofList name) ""
      else match value? look .text rest with
        | none => .wrong
        | some value => .assignment (String.ofList name) (String.ofList value)

/-- Variables, the first value of one counts. -/
abbrev Assignments := List (String × String)

def find? (vs : Assignments) (name : String) : Option String :=
  (List.find? (·.1 = name) vs).map (·.2)

/-- Sets the variables of some lines. A variable that is put into a value is the one that is set, or
else what the file last said of it. There is no result when a value cannot be set. -/
def assignAll? (vars said : Assignments) : List (Option (List Char)) → Option Assignments
  | [] => some vars
  | none :: _ => some vars
  | some line :: rest =>
    let look (name : String) : Option String := (find? vars name).orElse fun _ => find? said name
    match readLine look line with
    | .nothing => assignAll? vars said rest
    | .wrong => some vars
    | .assignment name value =>
      if (find? vars name).isSome then assignAll? vars ((name, value) :: said) rest
      else if value.toList.contains '\x00' then none
      else assignAll? (vars ++ [(name, value)]) ((name, value) :: said) rest

/-- Sets the variables of a file beside those that are set, if all of them can be. -/
def load? (vars : Assignments) (text : String) : Option Assignments :=
  let cs := match text.toList with
    | '\ufeff' :: rest => rest
    | cs => cs
  assignAll? vars [] (joined [] .plain (rawLines cs))

end Galley.EnvFile
