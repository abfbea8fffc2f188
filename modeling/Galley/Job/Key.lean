import Galley.Job
/-!
# Job keys

The text that identifies a submission in a queue: submissions with one key exclude each other and
replace each other. A shared job is identified by what it belongs to, an individual one by its user.
-/
namespace Galley

inductive KeyError
  | unsupportedScope (text : String)
  | missingEntity
  deriving DecidableEq, Repr

def KeyError.message : KeyError → String
  | .unsupportedScope s => "job key: unsupported scope " ++ s.quoted
  | .missingEntity => "job key: recipe has neither an app id nor a cookbook id"

namespace Job

/-- What a job belongs to, with its id: the app if there is one, else the cookbook. -/
def owner? (job : Job) : Option (Entity × String) :=
  if job.appId ≠ "" then some (.app, job.appId)
  else if job.cookbookId ≠ "" then some (.cookbook, job.cookbookId)
  else none

/-- The part of a key that tells submissions of one kind and scope apart. -/
def keyTail (job : Job) (queue : QueueName) : String :=
  s!"[page:{job.pageId}][uuid:{job.uuid}][queue:{queue.text}]"

def key (job : Job) (queue : QueueName) : Except KeyError String :=
  match job.parsedScope with
  | .error _ => .error (.unsupportedScope job.scope)
  | .ok scope =>
    match job.owner? with
    | none => .error .missingEntity
    | some (kind, id) =>
      .ok <| match scope with
        | .shared => s!"[{kind.text}][shared][{kind.text}id:{id}]" ++ job.keyTail queue
        | .individual =>
          s!"[{kind.text}][individual][userid:{job.userId}]" ++ job.keyTail queue

def group (job : Job) : String :=
  s!"[userid:{job.userId}][page:{job.pageId}][uuid:{job.uuid}][group]"

end Job

end Galley
