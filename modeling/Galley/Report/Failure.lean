import Galley.Daemon
import Galley.Report
import Galley.Request
import Galley.Submission
import Galley.Execution
/-!
# Reports of failures

A failure is reported by its kind, with its text unless that is the system's own, and with what else
its kind calls for.
-/
namespace Galley

/-- A failure of a kind with its text. -/
def failure (kind message : String) (more : List (String × Json) := []) : Json :=
  .object ([("error", .string kind), ("message", .string message)] ++ more)

/-- A failure of a kind whose text is not the program's. -/
def silentFailure (kind : String) (more : List (String × Json) := []) : Json :=
  .object (("error", .string kind) :: more)

def broken : Json := silentFailure "Panic"

def TriggerError.kind : TriggerError → String
  | .expression _ => "Trigger.Expression"
  | .unit _ => "Trigger.Unit"
  | .timeout _ => "Trigger.Timeout"
  | .description _ => "Trigger.Description"
  | .duration _ => "Trigger.Duration"

def KeyError.kind : KeyError → String
  | .unsupportedScope _ => "Key.UnsupportedScope"
  | .missingEntity => "Key.MissingEntityId"

def RequestError.kind : RequestError → String
  | .recipeNotFound _ _ => "Request.RecipeNotFound"
  | .formField _ => "Request.FormField"

def ContainerError.kind : ContainerError → String
  | .unavailable _ => "Runtime.Unavailable"
  | .imageNotFound _ => "Runtime.ImageNotFound"
  | .pullFailed _ _ => "Runtime.PullFailed"
  | .noSuchContainer _ => "Runtime.NoSuchContainer"
  | .api _ => "Runtime.Api"

namespace Report

instance : Report DurationError := ⟨fun e => failure "Duration" e.message⟩

instance : Report TriggerError := ⟨fun e => failure e.kind e.message⟩

instance : Report KeyError := ⟨fun e => failure e.kind e.message⟩

instance : Report ScopeError := ⟨fun e => failure "Scope" e.message⟩

instance : Report ValidationError :=
  ⟨fun e => failure "Validation" e.message [("field", .string e.field)]⟩

instance : Report Json.DecodeError := ⟨fun e => failure "Params" e.message⟩

instance : Report Text.Base64.Error := ⟨fun e => failure "Base64" e.message⟩

instance : Report RequestError := ⟨fun e => failure e.kind e.message⟩

instance : Report ContainerError := ⟨fun e => failure e.kind e.message⟩

instance : Report RecordError :=
  ⟨fun
    | .json => silentFailure "Record.Json"
    | .trigger e =>
      failure "Record.Trigger" ("record trigger: " ++ e.message) [("inner", .string e.kind)]⟩

instance : Report QueueError :=
  ⟨fun
    | .notFound => failure "Queue.NotFound" QueueError.notFound.message
    | .io _ => silentFailure "Queue.Io"
    | .record e => report e
    | .validation e => report e
    | .wrongKind q => failure "Queue.WrongJobKind" (QueueError.wrongKind q).message⟩

instance : Report FileError := ⟨fun _ => silentFailure "Io"⟩

instance : Report FileFault :=
  ⟨fun e => silentFailure "Files" [("action", .string e.action), ("path", .string e.path)]⟩

instance : Report AppsError :=
  ⟨fun
    | .io _ => silentFailure "Directory.Io"
    | .notText => silentFailure "Directory.Io"
    | .parse _ => silentFailure "Directory.Parse"⟩

instance : Report StepError :=
  ⟨fun
    | .locker _ => silentFailure "Runner.Locker"
    | .files e => report e
    | .scope e => failure "Runner.Scope" (StepError.scope e).message
    | .timeout e => failure "Runner.InvalidTimeout" (StepError.timeout e).message
    | .container e => failure "Runner.Runtime" (StepError.container e).message
    | .reported step text => failure "Runner.Reported" (StepError.reported step text).message
    | .timedOut step limit => failure "Runner.TimedOut" (StepError.timedOut step limit).message
    | e => failure "Runner.Cancelled" e.message⟩

instance : Report ExecutionError :=
  ⟨fun
    | .key e => report e
    | .trigger e => report e
    | .queue e => report e
    | .step e => report e
    | .nowRunning => failure "NowRunning" ExecutionError.nowRunning.message⟩

instance : Report StatusError :=
  ⟨fun
    | .key e => report e
    | .queue e => report e⟩

/-- Why a job was not taken, without whether it may be sent again. -/
def ofSubmitError : SubmitError → Json
  | .validation e => report e
  | .key e => report e
  | .scope e => report e
  | .queue e => report e
  | .unavailable text => failure "RuntimeUnavailable" (SubmitError.unavailable text).message
  | .alreadyRunning => failure "AlreadyRunning" SubmitError.alreadyRunning.message
  | .userVisible u =>
    failure "UserVisible" (SubmitError.userVisible u).message [("json", u.encode.freeform)]

instance : Report SubmitError :=
  ⟨fun e => .object ((ofSubmitError e).members ++ [("retryable", .bool e.isRetryable)])⟩

instance : Report ConfigError :=
  ⟨fun
    | .read path => silentFailure "Config.Read" [("path", .string path)]
    | .parse path => silentFailure "Config.Parse" [("path", .string path)]
    | .noDataDir => failure "Config.NoDataDir" ConfigError.noDataDir.message
    | e => failure "Config.Invalid" e.message⟩

instance : Report LifecycleError :=
  ⟨fun
    | .locked _ => silentFailure "Lifecycle.LockFailed"
    | .bindFailed a => silentFailure "Lifecycle.BindFailed" [("addr", .string a.text)]
    | .queue e => report e
    | .unavailable e => report e
    | .tooManyWorkers => broken
    | .io => silentFailure "Lifecycle.Io"⟩

instance : Report Config :=
  ⟨fun c => .object [("data", .string c.dataDir), ("locker", .string c.lockerDir),
    ("queues", .string c.queuesDir), ("host", report c.hostLocker), ("docker", report c.dockerHost),
    ("bind", .string c.bind.text), ("apps", .string c.appsFile), ("lock", .string c.lockPath),
    ("logs", .string c.logDir), ("engine", report c.settings)]⟩

end Report

end Galley
