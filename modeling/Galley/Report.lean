import Galley.Apps
import Galley.Json.Access
import Galley.Container.Call
import Galley.Job.Codec
import Galley.Queue.Directory
import Galley.Route
import Galley.Settings
import Galley.Status
/-!
# Reports

How values are shown to those who watch the daemon: as JSON, with spans of time in seconds and
nanoseconds.
-/
namespace Galley

class Report (α : Type) where
  report : α → Json

export Report (report)

namespace Report

instance : Report Json := ⟨id⟩

instance : Report String := ⟨.string⟩

instance : Report Int := ⟨.int⟩

instance : Report Nat := ⟨.nat⟩

instance : Report Bool := ⟨.bool⟩

instance : Report Unit := ⟨fun _ => .null⟩

instance {α : Type} [Report α] : Report (Option α) :=
  ⟨fun a => (a.map report).getD .null⟩

instance {α : Type} [Report α] : Report (List α) :=
  ⟨fun as => .array (as.map report)⟩

/-- A value, or the report of what went wrong in its place. -/
instance {ε α : Type} [Report ε] [Report α] : Report (Except ε α) :=
  ⟨fun
    | .ok a => report a
    | .error e => report e⟩

instance : Report Duration :=
  ⟨fun d => .object [("secs", .nat d.seconds), ("nanos", .nat d.fraction)]⟩

instance : Report Trigger :=
  ⟨fun
    | .runOnce d expired => .object [("run_once", report d), ("expired", .bool expired)]
    | .simple d => .object [("simple", report d)]⟩

instance : Report Job := ⟨Job.encode⟩

instance : Report Recipe := ⟨Recipe.encode⟩

instance : Report Step := ⟨Step.encode⟩

instance : Report Labels :=
  ⟨fun ls => .object (ls.map fun (k, v) => (k, .string v))⟩

instance : Report Mount := ⟨fun m => .string m.bind⟩

instance : Report ApiUser :=
  ⟨fun u => .array [.int u.userId, .int u.accountId]⟩

instance : Report Image.Auth :=
  ⟨fun a => .object [("username", .string a.username), ("password", .string a.password)]⟩

instance : Report QueueDirectory.Recovery :=
  ⟨fun r => .object [("kept", .nat r.kept), ("removed", .nat r.removed)]⟩

instance : Report Settings :=
  ⟨fun s => .object [("workers", .nat s.workers), ("poll", report s.poll),
    ("outdated", report s.outdated), ("drain", report s.drain)]⟩

instance : Report Filed :=
  ⟨fun f => .object [("kind", .string (if f.task.isStep then "step" else "recipe")),
    ("key", .string f.key), ("group", .string f.group), ("options", f.options.encode),
    ("trigger", report f.trigger), ("nrt", .int f.nextRun),
    ("description", .string f.task.description), ("job", f.task.job.encode),
    ("step", match f.task with
      | .recipe _ => .null
      | .step s => s.step.encode)]⟩

instance : Report Delivery :=
  ⟨fun
    | .user id text => .array [.string "user", .int id, .string text]
    | .app id text => .array [.string "app", .int id, .string text]⟩

instance : Report ContainerSpec :=
  ⟨fun c => .object [("name", .string c.name), ("image", .string c.image), ("env", .strings c.env),
    ("labels", report c.labels), ("mounts", report c.mounts), ("entrypoint", .strings c.entrypoint),
    ("cmd", .strings c.command), ("stop_timeout", report c.stopTimeout)]⟩

instance : Report ContainerCall :=
  ⟨fun
    | .ping => .strings ["ping"]
    | .imageExists i => .strings ["image_exists", i]
    | .pull i auth => .array [.string "pull", .string i, .bool auth.isSome]
    | .imageId i => .strings ["image_id", i]
    | .removeLabeled ls => .array [.string "remove_labeled", report ls]
    | .create spec => .array [.string "create", report spec]
    | .logs id => .strings ["logs", id]
    | .wait id => .strings ["wait", id]
    | .stop id => .strings ["stop", id]
    | .remove id => .strings ["remove", id]⟩

instance : Report KeyStatus :=
  ⟨fun
    | .idle => .string "idle"
    | .running => .string "running"
    | .pending time => .object [("pending", .int time)]⟩

end Report

/-- A filed task in short. -/
def Filed.brief (f : Filed) : Json :=
  .object [("key", .string f.key), ("nrt", .int f.nextRun), ("trigger", .string f.trigger.text),
    ("description", .string f.task.description)]

end Galley
