import Galley.Queue.Directory
import Galley.Queue.Memory
/-!
# Stores

The place where a queue is kept: in memory, or in a directory of a tree of files. Both answer the
same operations. Where the directory of a queue is gone, every operation fails.
-/
namespace Galley

inductive Store
  | memory (queue : MemoryQueue)
  | directory (path : String)
  deriving Repr, Inhabited

namespace Store

/-- What an operation gives, with what it leaves behind. -/
structure Outcome (α : Type) where
  value : Except QueueError α
  files : Files
  store : Store

def inDirectory {α : Type} (files : Files) (path : String)
    (change : Entries → Except QueueError α × Entries) : Outcome α :=
  match files.entries path with
  | .error e => ⟨.error (.io e), files, .directory path⟩
  | .ok es =>
    let (value, es) := change es
    match files.setEntries path es with
    | .error e => ⟨.error (.io e), files, .directory path⟩
    | .ok files => ⟨value, files, .directory path⟩

/-- A change that does nothing when it fails. -/
def unlessFailed {α : Type} (es : Entries) :
    Except QueueError (α × Entries) → Except QueueError α × Entries
  | .error e => (.error e, es)
  | .ok (a, es) => (.ok a, es)

/-- The same for a queue in memory. -/
def remembered {α : Type} (files : Files) (q : MemoryQueue) :
    Except QueueError (α × MemoryQueue) → Outcome α
  | .error e => ⟨.error e, files, .memory q⟩
  | .ok (a, q) => ⟨.ok a, files, .memory q⟩

def push (queue : QueueName) (files : Files) (s : Store) (f : Filed) : Outcome Int :=
  match s with
  | .memory q => remembered files q (q.push queue f)
  | .directory path =>
    match Queue.check queue f with
    | .error e => ⟨.error e, files, s⟩
    | .ok _ => inDirectory files path fun es =>
      unlessFailed es (QueueDirectory.push queue es f)

def pop (queue : QueueName) (files : Files) : Store → Outcome Filed
  | .memory q => remembered files q q.pop
  | .directory path => inDirectory files path (QueueDirectory.pop queue)

/-- Takes out all tasks with a key and counts them. -/
def evict (queue : QueueName) (files : Files) (s : Store) (key : String) : Outcome Nat :=
  match s with
  | .memory q =>
    ⟨.ok (q.tasks.countP (·.key = key)), files, .memory ⟨q.tasks.filter (·.key ≠ key)⟩⟩
  | .directory path => inDirectory files path fun es =>
    let names := ((QueueDirectory.readable queue es).filter (·.2.key = key)).map (·.1)
    (.ok names.length, names.foldl Entries.erase es)

def remove (queue : QueueName) (files : Files) (s : Store) (key : String) : Outcome Filed :=
  match s with
  | .memory q => remembered files q (q.remove key)
  | .directory path => inDirectory files path fun es =>
    unlessFailed es (QueueDirectory.remove queue es key)

def clear (files : Files) : Store → Outcome Unit
  | .memory _ => ⟨.ok (), files, .memory .empty⟩
  | .directory path => inDirectory files path fun es => (.ok (), QueueDirectory.clear es)

/-- What a queue tells without being changed. -/
def ask {α : Type} (files : Files) (s : Store) (ofTasks : MemoryQueue → Except QueueError α)
    (ofEntries : Entries → Except QueueError α) : Except QueueError α :=
  match s with
  | .memory q => ofTasks q
  | .directory path =>
    match files.entries path with
    | .error e => .error (.io e)
    | .ok es => ofEntries es

def head (queue : QueueName) (files : Files) (s : Store) : Except QueueError Filed :=
  s.ask files MemoryQueue.head (QueueDirectory.head queue)

def get (queue : QueueName) (files : Files) (s : Store) (key : String) : Except QueueError Filed :=
  s.ask files (·.get key) (QueueDirectory.get queue · key)

def size (files : Files) (s : Store) : Except QueueError Nat :=
  s.ask files (.ok ·.size) (.ok <| QueueDirectory.size ·)

def tasks (queue : QueueName) (files : Files) (s : Store) : Except QueueError (List Filed) :=
  s.ask files (.ok ·.tasks) (.ok <| QueueDirectory.tasks queue ·)

/-- Opens the queue in its directory below the root of all queues, which is made if need be. -/
def openAt (root : String) (queue : QueueName) (files : Files) : Except QueueError Store × Files :=
  let path := Path.join root queue.text
  match files.makeDirs path with
  | (.error e, files) => (.error (.io e), files)
  | (.ok _, files) => (.ok (.directory path), files)

/-- Looks through a queue after a restart. -/
def recover (queue : QueueName) (files : Files) : Store → Outcome QueueDirectory.Recovery
  | .memory q => ⟨.ok ⟨q.size, 0⟩, files, .memory q⟩
  | .directory path => inDirectory files path (QueueDirectory.recover queue)

end Store

end Galley
