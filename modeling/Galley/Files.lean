import Galley.Path
import Galley.Text.Utf8
/-!
# Trees of files

A directory holds named entries and lists the newest one first. Operations go down a path from the
root; each either answers with a new tree or fails and leaves the old one. A name has at most 255
bytes and a whole path at most 4095, and neither has the zero character.
-/
namespace Galley

inductive FileError
  | notFound
  | notDirectory
  | isDirectory
  | badName
  | nameTooLong
  deriving DecidableEq, Repr, Inhabited

def FileError.message : FileError → String
  | .notFound => "No such file or directory (os error 2)"
  | .notDirectory => "Not a directory (os error 20)"
  | .isDirectory => "Is a directory (os error 21)"
  | .badName => "file name contained an unexpected NUL byte"
  | .nameTooLong => "File name too long (os error 36)"

inductive Node
  | file (bytes : List UInt8)
  | directory (entries : List (String × Node))
  deriving Repr, Inhabited

abbrev Entries := List (String × Node)

namespace Entries

def find? (es : Entries) (name : String) : Option Node :=
  (List.find? (·.1 = name) es).map (·.2)

def contains (es : Entries) (name : String) : Bool :=
  es.any (·.1 = name)

/-- Puts a node in the place of the one with its name. -/
def replace (es : Entries) (name : String) (node : Node) : Entries :=
  es.map fun e => if e.1 = name then (name, node) else e

/-- Puts an entry in the place of the one with its name, or before all others. -/
def put (es : Entries) (name : String) (node : Node) : Entries :=
  if es.contains name then es.replace name node else (name, node) :: es

def erase (es : Entries) (name : String) : Entries :=
  es.filter (·.1 ≠ name)

@[simp] theorem find?_nil (name : String) : find? [] name = none := rfl

theorem find?_cons (n : String) (node : Node) (es : Entries) (name : String) :
    find? ((n, node) :: es) name = if n = name then some node else find? es name := by
  by_cases h : n = name <;> simp [find?, h]

theorem find?_replace (es : Entries) (name other : String) (node : Node) :
    (es.replace name node).find? other =
      if name = other then (if es.contains name then some node else none) else es.find? other := by
  induction es with
  | nil => simp [replace, contains]
  | cons e es ih =>
    obtain ⟨n, old⟩ := e
    have step : (replace ((n, old) :: es) name node).find? other =
        if n = name then (if name = other then some node else find? (replace es name node) other)
        else if n = other then some old else find? (replace es name node) other := by
      by_cases h : n = name <;> simp [replace, find?_cons, h]
    rw [step, ih, find?_cons]
    have held : contains ((n, old) :: es) name = (decide (n = name) || contains es name) := by
      simp [contains]
    rw [held]
    by_cases h : n = name
    · subst h
      by_cases h' : n = other <;> simp [h']
    · by_cases h' : name = other
      · subst h'
        simp [h]
      · simp [h, h']

theorem find?_put (es : Entries) (name other : String) (node : Node) :
    (es.put name node).find? other = if name = other then some node else es.find? other := by
  unfold put
  split
  · next h => simp [find?_replace, h]
  · simp [find?_cons]

theorem find?_erase (es : Entries) (name other : String) :
    (es.erase name).find? other = if name = other then none else es.find? other := by
  induction es with
  | nil => simp [erase]
  | cons e es ih =>
    obtain ⟨n, old⟩ := e
    unfold erase at ih ⊢
    by_cases h : n = name
    · subst h
      simp only [ne_eq, not_true_eq_false, decide_false, Bool.false_eq_true, not_false_eq_true,
        List.filter_cons_of_neg, ih, find?_cons]
      split <;> rfl
    · simp only [ne_eq, h, not_false_eq_true, decide_true, List.filter_cons_of_pos, find?_cons, ih]
      by_cases h' : n = other
      · subst h'
        simp [Ne.symm h]
      · simp [h']

end Entries

namespace Node

def empty : Node := .directory []

/-- The greatest number of bytes of a name. -/
def maxName : Nat := 255

def get (node : Node) : List String → Except FileError Node
  | [] => .ok node
  | name :: rest =>
    match node with
    | .file _ => .error .notDirectory
    | .directory es =>
      if maxName < name.utf8ByteSize then .error .nameTooLong
      else match Entries.find? es name with
        | none => .error .notFound
        | some child => child.get rest

def modify (node : Node) (change : Node → Except FileError Node) :
    List String → Except FileError Node
  | [] => change node
  | name :: rest =>
    match node with
    | .file _ => .error .notDirectory
    | .directory es =>
      if maxName < name.utf8ByteSize then .error .nameTooLong
      else match Entries.find? es name with
        | none => .error .notFound
        | some child => do
          let child ← child.modify change rest
          return .directory (Entries.put es name child)

def isDirectory : Node → Bool
  | .file _ => false
  | .directory _ => true

def inDirectory (node : Node) (path : List String)
    (change : Entries → Except FileError Entries) : Except FileError Node :=
  node.modify (fun
    | .file _ => .error .notDirectory
    | .directory es => (change es).map .directory) path

end Node

/-- A file system. Paths are texts, and those that are not absolute start at the working directory;
two dots lead back to where a path came from. -/
structure Files where
  root : Node
  here : String := ""
  deriving Repr, Inhabited

namespace Files

/-- The place that the parts of a path lead to from a place. -/
def walk (files : Files) (place : List String) : List String → Except FileError (List String)
  | [] => .ok place
  | part :: rest =>
    if part = ".." then
      match files.root.get place with
      | .error e => .error e
      | .ok (.file _) => .error .notDirectory
      | .ok (.directory _) => files.walk place.dropLast rest
    else files.walk (place ++ [part]) rest

/-- The greatest number of bytes of a path. -/
def maxPath : Nat := 4095

def checkPath (path : String) : Except FileError Unit :=
  if path.toList.contains '\x00' then .error .badName
  else if path.isEmpty then .error .notFound
  else if maxPath < path.utf8ByteSize then .error .nameTooLong
  else .ok ()

/-- The place of a path. A path that ends inside its last part does not lead to a file. -/
def place (files : Files) (path : String) : Except FileError (List String) := do
  checkPath path
  let place ← files.walk [] (Path.parts (Path.join files.here path))
  match files.root.get place with
  | .ok (.file _) => if Path.endsInside path then throw .notDirectory else return place
  | _ => return place

def get (files : Files) (path : String) : Except FileError Node := do
  files.root.get (← files.place path)

def exist (files : Files) (path : String) : Bool :=
  match files.get path with
  | .ok _ => true
  | .error _ => false

def read (files : Files) (path : String) : Except FileError (List UInt8) := do
  match ← files.get path with
  | .file bytes => return bytes
  | .directory _ => throw .isDirectory

/-- The text of a file in UTF-8, or `none` in place of a text that is not UTF-8. -/
def readText (files : Files) (path : String) : Except FileError (Option String) := do
  return String.ofUtf8? (← files.read path)

def entries (files : Files) (path : String) : Except FileError Entries := do
  match ← files.get path with
  | .file _ => throw .notDirectory
  | .directory es => return es

/-- Makes one directory at a place unless it is there. -/
def makeDir (files : Files) (place : List String) : Except FileError Files :=
  match place.getLast? with
  | none => .ok files
  | some name =>
    if Node.maxName < name.utf8ByteSize then .error .nameTooLong
    else
      (files.root.inDirectory place.dropLast fun es =>
        match Entries.find? es name with
        | none => .ok (Entries.put es name Node.empty)
        | some (.directory _) => .ok es
        | some (.file _) => .error .notDirectory).map fun root => { files with root }

/-- Makes the directories of a path one after another. Those that are made before one fails stay. -/
def makeDirsFrom (files : Files) (place : List String) :
    List String → Except FileError Unit × Files
  | [] => (.ok (), files)
  | part :: rest =>
    if part = ".." then files.makeDirsFrom place.dropLast rest
    else match files.makeDir (place ++ [part]) with
      | .error e => (.error e, files)
      | .ok files => files.makeDirsFrom (place ++ [part]) rest

/-- Makes a directory with all that lead to it. The empty path stands for the working directory. -/
def makeDirs (files : Files) (path : String) : Except FileError Unit × Files :=
  if path.isEmpty then (.ok (), files)
  else match checkPath path with
    | .error e => (.error e, files)
    | .ok _ => files.makeDirsFrom [] (Path.parts (Path.join files.here path))

/-- Puts a node made from the one that is there, if any, at a path whose directory is there. -/
def update (files : Files) (path : String) (change : Option Node → Except FileError Node) :
    Except FileError Files := do
  let place ← files.place path
  match place.getLast? with
  | none => throw .isDirectory
  | some name =>
    if Path.endsInside path then throw .isDirectory
    if Node.maxName < name.utf8ByteSize then throw .nameTooLong
    let root ← files.root.inDirectory place.dropLast fun es => do
      return Entries.put es name (← change (Entries.find? es name))
    return { files with root }

/-- Writes a file anew. -/
def write (files : Files) (path : String) (bytes : List UInt8) : Except FileError Files :=
  files.update path fun
    | some (.directory _) => .error .isDirectory
    | _ => .ok (.file bytes)

/-- Appends to a file, which is made if it is not there. -/
def append (files : Files) (path : String) (bytes : List UInt8) : Except FileError Files :=
  files.update path fun
    | some (.directory _) => .error .isDirectory
    | some (.file old) => .ok (.file (old ++ bytes))
    | none => .ok (.file bytes)

def removeAll (files : Files) (path : String) : Except FileError Files := do
  let place ← files.place path
  match place.getLast? with
  | none => throw .isDirectory
  | some name =>
    let root ← files.root.inDirectory place.dropLast fun es =>
      if Entries.contains es name then .ok (Entries.erase es name) else .error .notFound
    return { files with root }

/-- Writes a file anew in a directory that is made if need be; where that fails nothing is written.
-/
def put (files : Files) (path : String) (bytes : List UInt8) : Files :=
  let files := ((Path.parent? path).map fun dir => (files.makeDirs dir).2).getD files
  (files.write path bytes).toOption.getD files

def without (files : Files) (path : String) : Files :=
  (files.removeAll path).toOption.getD files

/-- The names in a directory in order, directories with a slash at the end. -/
def listing (files : Files) (path : String) : List String :=
  (((files.entries path).toOption.getD []).map fun (name, node) =>
    if node.isDirectory then name ++ "/" else name).mergeSort

def setEntries (files : Files) (path : String) (es : Entries) : Except FileError Files := do
  let place ← files.place path
  let root ← files.root.inDirectory place fun _ => .ok es
  return { files with root }

mutual

/-- The paths below a node, directories with a slash at the end. -/
def pathsBelow (above : String) : Node → List String
  | .file _ => []
  | .directory es => pathsOf above es

def pathsOf (above : String) : List (String × Node) → List String
  | [] => []
  | (name, .file _) :: rest => (above ++ name) :: pathsOf above rest
  | (name, .directory es) :: rest =>
    (above ++ name ++ "/") :: (pathsBelow (above ++ name ++ "/") (.directory es) ++
      pathsOf above rest)

end

def tree (files : Files) (path : String) : List String :=
  (((files.get path).toOption.map (pathsBelow "")).getD []).mergeSort

end Files

end Galley
