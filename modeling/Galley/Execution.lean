import Galley.Job.Key
import Galley.Message.Catalog
import Galley.Step.Run
/-!
# Execution

What becomes of a task that was handed out. A recipe's steps are gone through in order: those that
run at once do so, each with the variables that those before it announced, and the others are filed
as tasks of their own. Such a task runs its step unless the recipe is running. The key that was
marked when the task was popped is unmarked in the end, whatever happened.
-/
namespace Galley

inductive ExecutionError
  | key (e : KeyError)
  | trigger (e : TriggerError)
  | queue (e : QueueError)
  | step (e : StepError)
  | nowRunning
  deriving DecidableEq, Repr

def ExecutionError.message : ExecutionError → String
  | .key e => e.message
  | .trigger e => e.message
  | .queue e => e.message
  | .step e => e.message
  | .nowRunning => "a NOW job is already running for this recipe"

namespace Execution

open Process

/-- The task of a step that runs later or again. -/
def stepTask (job : Job) (step : Step) (key : String) (trigger : Trigger) (now : Int) : Filed where
  task := .step ⟨step, job⟩
  key := key
  group := job.group
  options := .default
  trigger := trigger
  nextRun := trigger.firstFire now

theorem stepTask_eq (job : Job) (step : Step) (key : String) (trigger : Trigger) (now : Int) :
    stepTask job step key trigger now =
      { task := .step ⟨step, job⟩
        key := key
        group := job.group
        options := { maxRetries := 0, retryInterval := 0, replace := false, suspended := false }
        trigger := trigger
        nextRun := Text.Numeral.saturate (now + min (trigger.duration.nanos : Int) Text.Numeral.maxI64) } := rfl

def fileStep (job : Job) (step : Step) (queue : QueueName) (trigger : Trigger) :
    Process (Except ExecutionError Unit) := do
  match job.key queue with
  | .error e => return .error (.key e)
  | .ok key =>
    let now ← perform .now
    match ← perform (.push queue (stepTask job step key trigger now)) with
    | .error e => return .error (.queue e)
    | .ok _ => return .ok ()

/-- A job in front of one of its steps. -/
def atStep (job : Job) (step : Step) : Job :=
  { job with stepId := toString step.step }

def runSteps (locker : Locker) (job : Job) : List Step → Process (Except ExecutionError Unit)
  | [] => return .ok ()
  | step :: rest =>
    let job := atStep job step
    match StepTrigger.parse step.trigger.trimBlanks with
    | .error e => return .error (.trigger e)
    | .ok .now => (job.runStep locker step).andThen .step fun outcome =>
      runSteps locker { job with env := job.env ++ outcome.env } rest
    | .ok (.once delay) =>
      (fileStep job step .delayed (.once delay)).andThen id fun _ => runSteps locker job rest
    | .ok (.every interval) =>
      (fileStep job step .recurring (.simple interval)).andThen id fun _ =>
        runSteps locker job rest

/-- Sends a message to the clients of the job's app, if it has one. -/
def tellApp (job : Job) (text : String) : Process Unit :=
  match (Route.ofJob job).app with
  | none => return ()
  | some app => perform (.send (.app app text))

def runRecipe (locker : Locker) (job : Job) : Process (Except ExecutionError Unit) := do
  tellApp job Catalog.jobStarted
  (runSteps locker job job.recipe.steps).andThen id fun _ => do
    tellApp job Catalog.jobFinished
    return .ok ()

/-- Runs a step that was filed, unless its recipe is running. -/
def runFiledStep (locker : Locker) (s : StepJob) : Process (Except ExecutionError Unit) :=
  match s.job.key .now with
  | .error e => return .error (.key e)
  | .ok key => do
    if ← perform (.tryAcquire key) then
      let result ← (atStep s.job s.step).runStep locker s.step
      perform (.unmark key)
      return match result with
        | .error e => .error (.step e)
        | .ok _ => .ok ()
    else return .error .nowRunning

def runTask (locker : Locker) : Task → Process (Except ExecutionError Unit)
  | .recipe job => runRecipe locker job
  | .step s => runFiledStep locker s

end Execution

open Process in
def Filed.execute (locker : Locker) (f : Filed) : Process (Except ExecutionError Unit) := do
  let result ← Execution.runTask locker f.task
  perform (.unmark f.key)
  return result

end Galley
