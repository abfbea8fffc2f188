import Galley.Job.Key
import Galley.Process
import Galley.UserError
/-!
# Submissions

How a job is accepted. It is checked, its images are pulled, and the key of its run is taken; then
all that is left of earlier submissions goes away and the job is filed. The key stays marked until
the job has run, so that a second submission in between is refused.
-/
namespace Galley

inductive SubmitError
  | validation (e : ValidationError)
  | key (e : KeyError)
  | scope (e : ScopeError)
  | unavailable (text : String)
  | userVisible (e : UserError)
  | alreadyRunning
  | queue (e : QueueError)
  deriving Repr

namespace SubmitError

/-- The text of an error, where it is not that of a text's reader. -/
def message : SubmitError → String
  | .validation e => e.message
  | .key e => e.message
  | .scope e => e.message
  | .unavailable text => "container runtime is not accessible: " ++ text
  | .userVisible e => e.display
  | .alreadyRunning => "a NOW job is already running for this recipe"
  | .queue e => "failed to schedule job: " ++ e.message

/-- Whether submitting the job later may help. -/
def isRetryable : SubmitError → Bool
  | .alreadyRunning => true
  | .unavailable _ => true
  | _ => false

end SubmitError

namespace Submission

open Process

/-- How long the container engine may take to answer a ping. -/
def pingTime : Duration := .ofSeconds 2

def ping : Process (Except SubmitError Unit) := do
  match ← perform (.container .ping) with
  | some (.ok _) => return .ok ()
  | some (.error e) => return .error (.unavailable e.message)
  | none =>
    let deadline ← perform (.timer pingTime)
    perform (.awaitTime deadline)
    return .error (.unavailable s!"no answer within {pingTime.seconds}s")

/-- Whether an image is there, as far as the container engine can tell. -/
def isPresent (image : String) : Process Bool := do
  match ← perform (.container (.imageExists image)) with
  | .ok found => return found
  | .error _ => return false

/-- Pulls the images that are not there, and gives those that cannot be pulled after those that are
known to be missing. -/
def pullMissing (missing : List String) : List Step → Process (List String)
  | [] => return missing
  | step :: rest => do
    let image := step.image.trimBlanks
    if missing.contains image then pullMissing missing rest
    else if ← isPresent image then pullMissing missing rest
    else
      match ← perform (.container (.pull image (Image.Auth.parse? step.registryAuth))) with
      | .ok _ => pullMissing missing rest
      | .error _ => pullMissing (missing ++ [image]) rest

/-- Gives the images that are not there after those that are known to be missing. -/
def stillMissing (missing : List String) : List Step → Process (List String)
  | [] => return missing
  | step :: rest => do
    let image := step.image.trimBlanks
    if missing.contains image then stillMissing missing rest
    else if ← isPresent image then stillMissing missing rest
    else stillMissing (missing ++ [image]) rest

/-- Sees to it that all images of a job are there. -/
def checkImages (job : Job) : Process (Except SubmitError Unit) := do
  let unpulled ← pullMissing [] job.recipe.steps
  let missing ← if unpulled.isEmpty then stillMissing [] job.recipe.steps else pure unpulled
  if missing.isEmpty then return .ok ()
  else return .error (.userVisible (.missingImages missing))

/-- Takes what earlier submissions filed out of the queues. -/
def evictAll (job : Job) : List QueueName → Process (Except SubmitError Unit)
  | [] => return .ok ()
  | queue :: rest => do
    match job.key queue with
    | .error e => return .error (.key e)
    | .ok key =>
      match ← perform (.evict queue key) with
      | .error e => return .error (.queue e)
      | .ok _ => evictAll job rest

/-- Removes the containers of earlier submissions. That this may fail changes nothing. -/
def removeContainers (layout : Layout) (job : Job) : List Step → Process Unit
  | [] => return ()
  | step :: rest => do
    let _ ← perform (.container (.removeLabeled (layout.labels job step)))
    removeContainers layout job rest

/-- Takes away what is left of earlier submissions. -/
def replacePrevious (locker : Locker) (job : Job) : Process (Except SubmitError Unit) :=
  (evictAll job QueueName.all).andThen id fun _ => do
    match locker.layout job with
    | .error e => return .error (.scope e)
    | .ok layout =>
      removeContainers layout job job.recipe.steps
      return .ok ()

def filed (job : Job) (key : String) (now : Int) : Filed where
  task := .recipe job
  key := key
  group := job.group
  options := { Options.default with replace := true }
  trigger := .once Trigger.nowDelay
  nextRun := (Trigger.once Trigger.nowDelay).firstFire now

theorem filed_eq (job : Job) (key : String) (now : Int) : filed job key now =
    { task := .recipe job
      key := key
      group := job.group
      options := { maxRetries := 0, retryInterval := 0, replace := true, suspended := false }
      trigger := .runOnce (.ofMillis 100) false
      nextRun := Text.Numeral.saturate (now + 100000000) } := rfl

def file (job : Job) (key : String) : Process (Except SubmitError Int) := do
  let now ← perform .now
  match ← perform (.push .now (filed job key now)) with
  | .error e => return .error (.queue e)
  | .ok time => return .ok time

/-- Takes the key and files the job, or leaves the key as it was. -/
def accept (locker : Locker) (job : Job) (key : String) : Process (Except SubmitError String) := do
  if ← perform (.tryAcquire key) then
    match ← (replacePrevious locker job).andThen id fun _ => file job key with
    | .ok _ => return .ok key
    | .error e =>
      perform (.unmark key)
      return .error e
  else return .error .alreadyRunning

end Submission

open Submission in
/-- Accepts a job and gives the key of its run. -/
def Job.submit (locker : Locker) (job : Job) : Process (Except SubmitError String) :=
  match job.validateSubmission with
  | .error e => return .error (.validation e)
  | .ok _ =>
    match job.key .now with
    | .error e => return .error (.key e)
    | .ok key =>
      ping.andThen id fun _ => (checkImages job).andThen id fun _ => accept locker job key

end Galley
