import Galley.Process
import Galley.Request
import Galley.Step.Timeout
/-!
# The run of a step

A step runs as a container: what an earlier run left is removed, the image is pulled if need be, the
container is created, and its lines are handled until it ends, fails, takes too long or is
cancelled. A container that was created is removed in the end, whatever happened.
-/
namespace Galley

inductive StepError
  | scope (e : ScopeError)
  | timeout (e : TriggerError)
  | locker (e : FileError)
  | files (e : FileFault)
  | container (e : ContainerError)
  | reported (step : Nat) (message : String)
  | timedOut (step : Nat) (after : Duration)
  | cancelled (step : Nat)
  deriving DecidableEq, Repr

/-- The text of an error, where it is not that of a file system. -/
def StepError.message : StepError → String
  | .scope e => e.message
  | .timeout e => e.message
  | .locker _ => "locker"
  | .files e => s!"{e.action} {e.path}"
  | .container e => e.message
  | .reported step message => s!"step {step} reported an error: {message}"
  | .timedOut step after => s!"step {step} timed out after {after.seconds}s"
  | .cancelled step => s!"step {step} cancelled"

structure StepOutcome where
  exitCode : Int
  /-- The announced variables in order. -/
  env : List String
  deriving DecidableEq, Repr

namespace StepRun

open Process

/-- How long the lines of a container that has ended are waited for. -/
def drainTime : Duration := .ofSeconds 5

/-- What stays the same while a container runs. -/
structure Supervision where
  step : Nat
  route : Route
  id : String
  watch : Watch
  timeout : Duration
  deadline : Nat

/-- How the supervision of a container ends, with the output so far. -/
abbrev Verdict := Except StepError Int × Output

/-- Handles the lines that are left when the container has ended. -/
def drain (s : Supervision) (exitCode : Int) (drainEnd : Nat) (closes : Bool) (o : Output) :
    List String → Process Verdict
  | [] => do
    if closes then
      let _ ← perform (.awaitDrain drainEnd)
      return (.ok exitCode, o)
    else
      perform (.awaitTime drainEnd)
      return (.ok exitCode, o)
  | text :: rest => do
    if ← perform (.awaitDrain drainEnd) then
      match ← perform (.line o s.route text) with
      | (o, .failed message) => return (.error (.reported s.step message), o)
      | (o, .continue) => drain s exitCode drainEnd closes o rest
    else return (.ok exitCode, o)

/-- Stops the container; that this may fail changes nothing. -/
def stop (s : Supervision) : Process Unit := do
  let _ ← perform (.container (.stop s.id))
  return ()

def finish (s : Supervision) (closes : Bool) (o : Output) (left : List String) :
    Ending → Process Verdict
  | .exited (.error e) => return (.error (.container e), o)
  | .exited (.ok exitCode) => do
    let drainEnd ← perform (.timer drainTime)
    drain s exitCode drainEnd closes o left
  | .deadline => do
    stop s
    return (.error (.timedOut s.step s.timeout), o)
  | .cancelled => do
    stop s
    return (.error (.cancelled s.step), o)

def follow (s : Supervision) (closes : Bool) (o : Output) : List String → Process Verdict
  | [] => do
    if closes then
      match ← perform (.awaitOutput s.watch s.deadline) with
      | some ending => finish s closes o [] ending
      | none => finish s closes o [] (← perform (.awaitEnd s.watch s.deadline))
    else finish s closes o [] (← perform (.awaitEnd s.watch s.deadline))
  | text :: rest => do
    match ← perform (.awaitOutput s.watch s.deadline) with
    | some ending => finish s closes o (text :: rest) ending
    | none =>
      match ← perform (.line o s.route text) with
      | (o, .failed message) =>
        stop s
        return (.error (.reported s.step message), o)
      | (o, .continue) => follow s closes o rest

/-- Watches over a container from its creation to its end. -/
def supervise (step : Nat) (route : Route) (id : String) (timeout : Duration) (o : Output) :
    Process Verdict := do
  match ← perform (.container (.logs id)) with
  | .error e => return (.error (.container e), o)
  | .ok stream =>
    let deadline ← perform (.timer timeout)
    let watch ← perform (.container (.wait id))
    follow ⟨step, route, id, watch, timeout, deadline⟩ stream.closes o stream.lines

def ensureImage (image registryAuth : String) : Process (Except StepError Unit) := do
  match ← perform (.container (.imageExists image)) with
  | .error e => return .error (.container e)
  | .ok true => return .ok ()
  | .ok false =>
    match ← perform (.container (.pull image (Image.Auth.parse? registryAuth))) with
    | .error e => return .error (.container e)
    | .ok _ => return .ok ()

def openOutput (job : Job) (step : Step) (layout : Layout) (image imageHash : String) :
    Process (Except StepError Output) := do
  match ← perform (.openCache layout.cacheDir) with
  | .error e => return .error (.files e)
  | .ok _ =>
    match ← perform (.openLog (layout.logFile job.recipe.name)) with
    | .error e => return .error (.files e)
    | .ok log =>
      return .ok { pageId := job.pageId, uuid := job.uuid, viewType := job.scope
                   cacheDir := layout.cacheDir, source := ⟨toString step.step, imageHash, image⟩
                   log, lastClear := none, env := [] }

def spec (job : Job) (step : Step) (layout : Layout) (image : String) (timeout : Duration) :
    ContainerSpec where
  name := layout.containerName job.recipe.name step
  image := image
  env := job.stepEnv step
  labels := layout.labels job step
  mounts := layout.mounts
  entrypoint := step.entrypoint
  command := step.command
  stopTimeout := some timeout

/-- Runs the container of a step whose image is there. -/
def runContainer (job : Job) (step : Step) (layout : Layout) (image : String) (timeout : Duration)
    (o : Output) : Process (Except StepError StepOutcome) := do
  match ← perform (.container (.create (spec job step layout image timeout))) with
  | .error e => return .error (.container e)
  | .ok id =>
    let (result, o) ← supervise step.step (Route.ofJob job) id timeout o
    let o ← perform (.flush o)
    let _ ← perform (.container (.remove id))
    return result.map (⟨·, o.env⟩)

end StepRun

open Process in
def Job.runStep (locker : Locker) (job : Job) (step : Step) :
    Process (Except StepError StepOutcome) := do
  match job.stepTimeout step with
  | .error e => return .error (.timeout e)
  | .ok timeout =>
    match locker.layout job with
    | .error e => return .error (.scope e)
    | .ok layout =>
      match ← perform (.makeDirs layout) with
      | .error e => return .error (.locker e)
      | .ok _ =>
        let _ ← perform (.container (.removeLabeled (layout.labels job step)))
        let image := step.image.trimBlanks
        (StepRun.ensureImage image step.registryAuth).andThen id fun _ => do
          match ← perform (.container (.imageId image)) with
          | .error e => return .error (.container e)
          | .ok imageId =>
            (StepRun.openOutput job step layout image (Image.shortId imageId)).andThen id
              (StepRun.runContainer job step layout image timeout)

end Galley
