import Galley.Report
import Galley.Step.Command
import Galley.Trigger
import Galley.Locker
/-!
# Reports of what a step is given

The places a step works with, the commands in its output and the triggers it is run by.
-/
namespace Galley

/-- All places of a job, with what a step of it is mounted and called. -/
def Layout.report (l : Layout) (locker : Locker) (recipe : String) (job : Job) (step : Step) :
    Json :=
  .object [("root", .string locker.root), ("scope", .string l.scope.text),
    ("owner", .string l.owner), ("public", .string l.publicDir), ("private", .string l.privateDir),
    ("cache", .string l.cacheDir), ("log_dir", .string l.logDir),
    ("log", .string (l.logFile recipe)), ("shared", .string l.sharedDir),
    ("global", .string l.globalDir), ("mounts", Galley.report l.mounts),
    ("labels", Galley.report (l.labels job step)),
    ("container", .string (l.containerName recipe step))]

def Command.report (c : Command) (payload : String) : Json :=
  .object [("prefix", .string c.word), ("payload", .string payload), ("trunc", .bool c.isTrunc),
    ("write", match c.cacheWrite? with
      | none => .null
      | some (.replace k) => .strings ["replace", k.fileName]
      | some (.append k) => .strings ["append", k.fileName])]

def Trigger.summary (t : Trigger) : Json :=
  .object [("trigger", Galley.report t), ("text", .string t.text), ("kind", .string t.kind),
    ("expired", .bool t.isExpired)]

/-- How a step is run, with the queue that it goes to. -/
def StepTrigger.summary (t : StepTrigger) : Json :=
  .object [("kind", .string t.queue.text), ("queue", .string t.queue.text),
    ("duration", match t with
      | .now => .null
      | .once d | .every d => Galley.report d)]

end Galley
