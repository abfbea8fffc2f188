import Galley.Job.Key
import Galley.World
/-!
# Status

Where a submission stands in each queue: its key is marked as running, or a task of it is filed, or
neither. A recurring task that runs is both, and counts as running.
-/
namespace Galley

inductive KeyStatus
  | idle
  | running
  | pending (nextRun : Int)
  deriving DecidableEq, Repr

structure JobStatus where
  now : KeyStatus
  delayed : KeyStatus
  recurring : KeyStatus
  deriving DecidableEq, Repr

inductive StatusError
  | key (e : KeyError)
  | queue (e : QueueError)
  deriving DecidableEq, Repr

def JobStatus.isIdle (s : JobStatus) : Bool :=
  s == ⟨.idle, .idle, .idle⟩

namespace World

def keyStatus (w : World) (job : Job) (queue : QueueName) : Except StatusError KeyStatus :=
  match job.key queue with
  | .error e => .error (.key e)
  | .ok key =>
    if w.running.isRunning key then .ok .running
    else match (w.stores queue).get queue w.files key with
      | .ok f => .ok (.pending f.nextRun)
      | .error .notFound => .ok .idle
      | .error e => .error (.queue e)

def status (w : World) (job : Job) : Except StatusError JobStatus := do
  let now ← w.keyStatus job .now
  let delayed ← w.keyStatus job .delayed
  let recurring ← w.keyStatus job .recurring
  return ⟨now, delayed, recurring⟩

end World

end Galley
