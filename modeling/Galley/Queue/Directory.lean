import Galley.Files
import Galley.Queue.Basic
/-!
# Queues in directories

A queue kept as a directory with one file for each task, named for the time of its next run. An
entry of the queue is a file whose name, less one `.json`, is a signed 64-bit integer and does not
start with a dot; everything else in the directory is left alone. Entries count in the order of
their numbers. An entry is readable when its record decodes and the task may be in the queue.
-/
namespace Galley.QueueDirectory

def timeOfName? (name : String) : Option Int :=
  let cs := name.toList
  if cs.head? = some '.' then none
  else
    let suffix := ".json".toList
    let stem := if suffix.isSuffixOf cs then cs.take (cs.length - suffix.length) else cs
    Text.Numeral.integer? stem

def nameOf (time : Int) : String :=
  String.ofList (Text.Numeral.signed time) ++ ".json"

def entryOf? (e : String × Node) : Option (Int × String × List UInt8) :=
  match e.2 with
  | .file bytes => (timeOfName? e.1).map (·, e.1, bytes)
  | .directory _ => none

/-- The entries of a queue in the order of their times. -/
def numbered (es : Entries) : List (Int × String × List UInt8) :=
  (es.filterMap entryOf?).mergeSort fun a b => a.1 ≤ b.1

def load (queue : QueueName) (bytes : List UInt8) : Except QueueError Filed :=
  match Record.decode queue bytes with
  | .error e => .error (.record e)
  | .ok f => (Queue.check queue f).map fun _ => f

/-- The readable entries in order, with their names. -/
def readable (queue : QueueName) (es : Entries) : List (String × Filed) :=
  (numbered es).filterMap fun (_, name, bytes) => (load queue bytes).toOption.map (name, ·)

def tasks (queue : QueueName) (es : Entries) : List Filed :=
  (readable queue es).map (·.2)

/-- Files a task under its time or the first time after it that names nothing in the directory. -/
def push (queue : QueueName) (es : Entries) (f : Filed) : Except QueueError (Int × Entries) := do
  Queue.check queue f
  let time := Queue.freeTime (fun t => es.contains (nameOf t)) es.length f.nextRun
  let bytes := Record.bytes { f with nextRun := time }
  -- the record is written under another name first and then renamed
  let draft := "." ++ nameOf time ++ ".tmp"
  match Entries.find? es draft with
  | some (.directory _) => throw (.io .isDirectory)
  | _ => return (time, (es.erase draft).put (nameOf time) (.file bytes))

/-- Takes out the first readable entry; the unreadable ones before it are deleted. -/
def popFrom (queue : QueueName) (es : Entries) :
    List (Int × String × List UInt8) → Except QueueError Filed × Entries
  | [] => (.error .notFound, es)
  | (_, name, bytes) :: rest =>
    match load queue bytes with
    | .ok f => (.ok f, es.erase name)
    | .error _ => popFrom queue (es.erase name) rest

def pop (queue : QueueName) (es : Entries) : Except QueueError Filed × Entries :=
  popFrom queue es (numbered es)

def head (queue : QueueName) (es : Entries) : Except QueueError Filed :=
  match readable queue es with
  | [] => .error .notFound
  | (_, f) :: _ => .ok f

def get (queue : QueueName) (es : Entries) (key : String) : Except QueueError Filed :=
  match (readable queue es).find? (·.2.key = key) with
  | none => .error .notFound
  | some (_, f) => .ok f

def remove (queue : QueueName) (es : Entries) (key : String) :
    Except QueueError (Filed × Entries) :=
  match (readable queue es).find? (·.2.key = key) with
  | none => .error .notFound
  | some (name, f) => .ok (f, es.erase name)

def size (es : Entries) : Nat :=
  (numbered es).length

/-- Deletes all entries, readable or not. -/
def clear (es : Entries) : Entries :=
  (numbered es).foldl (fun es e => es.erase e.2.1) es

structure Recovery where
  kept : Nat
  removed : Nat
  deriving DecidableEq, Repr

/-- Looks at one entry after a restart: what is unreadable or has expired is deleted, and a task
whose time is not that of its name is filed anew. -/
def recoverEntry (queue : QueueName) (es : Entries) (report : Recovery)
    (e : Int × String × List UInt8) : Except QueueError Recovery × Entries :=
  let (time, name, bytes) := e
  let kept : Recovery := { report with kept := report.kept + 1 }
  let removed : Recovery := { report with removed := report.removed + 1 }
  match load queue bytes with
  | .error _ => (.ok removed, es.erase name)
  | .ok f =>
    if f.trigger.isExpired then (.ok removed, es.erase name)
    else if f.nextRun = time then (.ok kept, es)
    else match push queue (es.erase name) f with
      | .error e => (.error e, es.erase name)
      | .ok (_, es) => (.ok kept, es)

/-- Looks at entries one after another. What was done before one fails stays. -/
def recoverFrom (queue : QueueName) (es : Entries) (report : Recovery) :
    List (Int × String × List UInt8) → Except QueueError Recovery × Entries
  | [] => (.ok report, es)
  | e :: rest =>
    match recoverEntry queue es report e with
    | (.error e, es) => (.error e, es)
    | (.ok report, es) => recoverFrom queue es report rest

def recover (queue : QueueName) (es : Entries) : Except QueueError Recovery × Entries :=
  recoverFrom queue es ⟨0, 0⟩ (numbered es)

end Galley.QueueDirectory
