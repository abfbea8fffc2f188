import Galley.Files
import Galley.Job.Validity
import Galley.Queue.Record
import Galley.Running
/-!
# Queues

What both kinds of queue share: the errors, the check of a task before it is filed, and the search
for a free time.
-/
namespace Galley

inductive QueueError
  | notFound
  | io (e : FileError)
  | record (e : RecordError)
  | validation (e : ValidationError)
  | wrongKind (queue : QueueName)
  deriving DecidableEq, Repr

/-- The text of an error, where it is not that of a text's reader. -/
def QueueError.message : QueueError → String
  | .notFound => "no jobs found"
  | .io e => "queue io: " ++ e.message
  | .record .json => "record json"
  | .record (.trigger e) => "record trigger: " ++ e.message
  | .validation e => e.message
  | .wrongKind q => s!"job kind does not belong in the {q.text} queue"

namespace Queue

/-- A task may be filed in a queue when it is valid and of the queue's kind. -/
def check (queue : QueueName) (f : Filed) : Except QueueError Unit :=
  match f.validate with
  | .error e => .error (.validation e)
  | .ok _ => if f.fits queue then .ok () else .error (.wrongKind queue)

/-- The time `t`, moved by one nanosecond while it is taken, at most `fuel` times. -/
def freeTime (taken : Int → Bool) (fuel : Nat) (t : Int) : Int :=
  match fuel with
  | 0 => t
  | fuel + 1 =>
    if taken t then freeTime taken fuel (Text.Numeral.saturate (t + 1)) else t

end Queue

end Galley
