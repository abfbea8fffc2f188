import Galley.Queue.Basic
/-!
# Queues in memory

Tasks in the order of their next runs, no two at one time.
-/
namespace Galley

structure MemoryQueue where
  tasks : List Filed
  deriving DecidableEq, Repr

namespace MemoryQueue

def empty : MemoryQueue := ⟨[]⟩

def insert (f : Filed) : List Filed → List Filed
  | [] => [f]
  | g :: rest => if f.nextRun ≤ g.nextRun then f :: g :: rest else g :: insert f rest

/-- Files a task at its time or at the first free time after it, and gives that time. -/
def push (queue : QueueName) (q : MemoryQueue) (f : Filed) :
    Except QueueError (Int × MemoryQueue) := do
  Queue.check queue f
  let time := Queue.freeTime (fun t => q.tasks.any (·.nextRun = t)) q.tasks.length f.nextRun
  return (time, ⟨insert { f with nextRun := time } q.tasks⟩)

def pop (q : MemoryQueue) : Except QueueError (Filed × MemoryQueue) :=
  match q.tasks with
  | [] => .error .notFound
  | f :: rest => .ok (f, ⟨rest⟩)

def head (q : MemoryQueue) : Except QueueError Filed :=
  match q.tasks with
  | [] => .error .notFound
  | f :: _ => .ok f

def get (q : MemoryQueue) (key : String) : Except QueueError Filed :=
  match q.tasks.find? (·.key = key) with
  | none => .error .notFound
  | some f => .ok f

def remove (q : MemoryQueue) (key : String) : Except QueueError (Filed × MemoryQueue) :=
  match q.tasks.find? (·.key = key) with
  | none => .error .notFound
  | some f => .ok (f, ⟨q.tasks.eraseP (·.key = key)⟩)

def size (q : MemoryQueue) : Nat :=
  q.tasks.length

end MemoryQueue

end Galley
