import Galley.Job.Codec
import Galley.Json.Printer
import Galley.Json.Reader
/-!
# Queue records

The stored form of a filed task: a pretty JSON text with the job, its key, its options, its trigger
as a text and the time of its next run. The description is written for people and not read back.
Whether the job is a recipe's or a step's is known from the queue.
-/
namespace Galley

open Json Json.Decoder Json.Fields

inductive RecordError
  | json
  | trigger (e : TriggerError)
  deriving DecidableEq, Repr

namespace Record

/-- A record as it stands in JSON. -/
structure Raw where
  task : Task
  key : String
  description : String
  group : String
  options : Option Options
  trigger : String
  nextRun : Int

/-- The kind of job that a queue holds. -/
def decodeTask (queue : QueueName) : Decoder Task := fun j =>
  match queue with
  | .now => (Job.decode j).map .recipe
  | .delayed => (StepJob.decode j).map .step
  | .recurring => (StepJob.decode j).map .step

def decodeRaw (queue : QueueName) : Decoder Raw :=
  .record "Record" (Raw.mk <$> field "job" (decodeTask queue) <*> field "job_key" string
    <*> fieldD "description" string "" <*> fieldD "group" string ""
    <*> field? "job_options" Options.decode <*> field "trigger" string
    <*> field "next_run_time" i64)

def encode (f : Filed) : Json :=
  .object [("job", f.task.encode), ("job_key", .string f.key),
    ("description", .string f.task.description), ("group", .string f.group),
    ("job_options", f.options.encode), ("trigger", .string f.trigger.text),
    ("next_run_time", .int f.nextRun)]

def text (f : Filed) : String :=
  (encode f).pretty

def bytes (f : Filed) : List UInt8 :=
  (text f).utf8

def ofRaw (raw : Raw) : Except RecordError Filed :=
  match Trigger.parse raw.trigger with
  | .error e => .error (.trigger e)
  | .ok trigger =>
    .ok ⟨raw.task, raw.key, raw.group, raw.options.getD .default, trigger, raw.nextRun⟩

def ofJson (queue : QueueName) (j : Json) : Except RecordError Filed :=
  match decodeRaw queue j with
  | .error _ => .error .json
  | .ok raw => ofRaw raw

def decode (queue : QueueName) (bytes : List UInt8) : Except RecordError Filed :=
  match Json.ofBytes? bytes with
  | none => .error .json
  | some j => ofJson queue j

end Record

end Galley
