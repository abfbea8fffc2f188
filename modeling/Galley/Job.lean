import Galley.Recipe
import Galley.Scope
import Galley.Trigger
/-!
# Jobs

A job is a submitted recipe with everything that its run needs. A step that runs later or again is a
job of its own that carries the recipe's job. What a queue holds is a task, one of the two, with its
key, its trigger and the time of its next run.
-/
namespace Galley

structure Job where
  entity : Entity
  uuid : String
  cookbookId : String
  appId : String
  userId : String
  username : String
  pageId : String
  stepId : String
  /-- The scope as it was given. -/
  scope : String
  env : List String
  containerTimeoutSecs : Nat
  recipe : Recipe
  recipients : List Int
  deriving DecidableEq, Repr, Inhabited

namespace Job

def parsedScope (job : Job) : Except ScopeError Scope :=
  Scope.parse job.scope

def description (job : Job) : String :=
  s!"[userid:{job.userId}][pageid:{job.pageId}][uuid:{job.uuid}][queue:{job.entity.text}]"

end Job

/-- One step of a recipe as a job of its own. -/
structure StepJob where
  step : Step
  job : Job
  deriving DecidableEq, Repr, Inhabited

def StepJob.description (s : StepJob) : String :=
  s!"StepJob: {s.step.trigger}"

inductive Task
  | recipe (job : Job)
  | step (job : StepJob)
  deriving DecidableEq, Repr, Inhabited

namespace Task

def description : Task → String
  | .recipe job => job.description
  | .step job => job.description

def job : Task → Job
  | .recipe job => job
  | .step job => job.job

def isStep : Task → Bool
  | .recipe _ => false
  | .step _ => true

end Task

structure Options where
  maxRetries : Nat
  retryInterval : Nat
  replace : Bool
  suspended : Bool
  deriving DecidableEq, Repr, Inhabited

def Options.default : Options := ⟨0, 0, false, false⟩

structure Filed where
  task : Task
  key : String
  group : String
  options : Options
  trigger : Trigger
  /-- Nanoseconds since the epoch. -/
  nextRun : Int
  deriving DecidableEq, Repr, Inhabited

/-- Whether a task of this kind may be in a queue: recipes run at once, steps later or again. -/
def Filed.fits (f : Filed) : QueueName → Bool
  | .now => !f.task.isStep
  | .delayed => f.task.isStep
  | .recurring => f.task.isStep

end Galley
