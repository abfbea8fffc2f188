import Galley.Answering
import Galley.Dispatch
import Galley.Execution
import Galley.Settings
import Galley.World
/-!
# The course of time

Everything that goes on in the world at once: a scheduler for each queue, the tasks that run, and
the requests that are being answered. At one instant everything goes on as far as it can; then time
jumps to the next instant at which something can go on. What an operator does comes before all that
happens at the same instant.
-/
namespace Galley

/-- What a scheduler is about. -/
inductive Scheduler
  | off
  | ready
  | asleep (wakeTime : Nat)
  /-- A task is due and all workers are busy. -/
  | waiting
  | ended
  deriving DecidableEq, Repr

structure Worker where
  queue : QueueName
  process : Process (Except ExecutionError Unit)

/-- A request of a client that is being answered. -/
structure Answering where
  app : Int
  client : Nat
  process : Process Rpc.Response

structure Timeline where
  world : World
  locker : Locker
  /-- The file with the directory of apps. -/
  appsPath : String
  settings : Settings
  schedulers : QueueName → Scheduler
  workers : List Worker
  answering : List Answering
  /-- Whether the schedulers were started. -/
  started : Bool
  stopping : Bool
  /-- Whether running tasks are cancelled. -/
  aborting : Bool

namespace Timeline

def idle (world : World) (locker : Locker) (appsPath : String) (settings : Settings) :
    Timeline where
  world := world
  locker := locker
  appsPath := appsPath
  settings := settings
  schedulers := fun _ => .off
  workers := []
  answering := []
  started := false
  stopping := false
  aborting := false

def instant (t : Timeline) : Nat := t.world.instant

def onWorld (t : Timeline) (change : World → World) : Timeline :=
  { t with world := change t.world }

def setHubs (t : Timeline) (hubs : Hubs) : Timeline :=
  t.onWorld fun w => { w with registry := { w.registry with hubs } }

def setScheduler (t : Timeline) (queue : QueueName) (s : Scheduler) : Timeline :=
  { t with schedulers := fun q => if q = queue then s else t.schedulers q }

/-- Whether one more task of a queue may run. -/
def hasFree (t : Timeline) (queue : QueueName) : Bool :=
  t.workers.countP (·.queue = queue) < max t.settings.workers 1

/-- How long a scheduler may sleep, or `none` when the first task of its queue is due. -/
def untilDue (t : Timeline) (queue : QueueName) : Option Duration :=
  match (t.world.stores queue).head queue t.world.files with
  | .error _ => some t.settings.poll
  | .ok f =>
    let remaining := Text.Numeral.saturate (f.nextRun - t.world.clock.time)
    if remaining ≤ 0 then none else some ⟨min remaining.toNat t.settings.poll.nanos⟩

/-- Lets a scheduler hand out tasks until it has to wait, with at most `fuel` looks at its queue.
One that has waited for a worker takes the first task without another look. -/
def schedule (queue : QueueName) (fuel : Nat) (looked : Bool) (t : Timeline) : Timeline :=
  match fuel with
  | 0 => t.setScheduler queue .ready
  | fuel + 1 =>
    if t.stopping then t.setScheduler queue .ended
    else match if looked then none else t.untilDue queue with
      | some wait =>
        if t.world.woken queue then
          schedule queue fuel false { t with world := t.world.setWoken queue false }
        else t.setScheduler queue (.asleep (t.world.instantAfter wait))
      | none =>
        if !t.hasFree queue then t.setScheduler queue .waiting
        else
          let (handed, world) := t.world.advance false (Dispatch.popDue queue)
          let t := { t with world }
          match handed with
          | .done (some f) =>
            schedule queue fuel false
              { t with workers := t.workers ++ [⟨queue, f.execute t.locker⟩] }
          | _ => schedule queue fuel false t

def isAwake (t : Timeline) (queue : QueueName) : Bool :=
  match t.schedulers queue with
  | .off => false
  | .ready => true
  | .asleep wakeTime => t.stopping || t.world.woken queue || wakeTime ≤ t.instant
  | .waiting => t.stopping || t.hasFree queue
  | .ended => false

/-- Lets the scheduler of a queue go on. A task is handed out once, so there are no more looks than
tasks and two. -/
def runScheduler (t : Timeline) (queue : QueueName) : Timeline :=
  let tasks := ((t.world.stores queue).size t.world.files).toOption.getD 0
  t.schedule queue (tasks + 3) (t.schedulers queue = .waiting)

def canGoOn {α : Type} (w : World) (cancelled : Bool) : Process α → Bool
  | .done _ => true
  | .act action _ => (w.answer? cancelled action).isSome

/-- Lets the running tasks go on, and tells whether any did. -/
def runWorkers (t : Timeline) : Bool × Timeline :=
  let (any, kept, world) := t.workers.foldl (fun (any, kept, w) worker =>
    if canGoOn w t.aborting worker.process then
      match w.advance t.aborting worker.process with
      | (.done _, w) => (true, kept, w)
      | (process, w) => (true, kept ++ [{ worker with process }], w)
    else (any, kept ++ [worker], w)) (false, [], t.world)
  (any, { t with workers := kept, world })

/-- Sends a finished answer to the client. -/
def sendAnswer (w : World) (a : Answering) (response : Rpc.Response) : World :=
  match w.registry.server? a.app with
  | none => w
  | some s => { w with registry := w.registry.setServer (s.sendAnswer a.client response) }

/-- Lets the requests that are being answered go on, and tells whether any did. -/
def runAnswering (t : Timeline) : Bool × Timeline :=
  let (any, kept, world) := t.answering.foldl (fun (any, kept, w) (a : Answering) =>
    match w.advance false a.process with
    | (.done response, after) => (true, kept, sendAnswer after a response)
    | (process, after) =>
      (any || canGoOn w false a.process, kept ++ [{ a with process }], after))
    (false, [], t.world)
  (any, { t with answering := kept, world })

/-- Lets everything go on once, and tells whether anything did. -/
def round (t : Timeline) : Bool × Timeline :=
  let t := t.onWorld fun w => { w with registry := w.registry.settleServers }
  let awake := QueueName.all.filter t.isAwake
  let t := awake.foldl runScheduler t
  let (worked, t) := t.runWorkers
  let (answered, t) := t.runAnswering
  let t := t.setHubs t.world.registry.hubs.settle
  (!awake.isEmpty || worked || answered, t)

/-- Lets everything go on as far as it can at this instant, in at most `rounds` rounds. -/
def settleFor (rounds : Nat) (t : Timeline) : Timeline :=
  match rounds with
  | 0 => t
  | rounds + 1 =>
    match t.round with
    | (true, t) => settleFor rounds t
    | (false, t) => t

def settle (t : Timeline) : Timeline :=
  t.settleFor 100000

def setInstant (t : Timeline) (instant : Nat) : Timeline :=
  t.onWorld fun w => { w with instant }

/-- When a process that waits has waited long enough. -/
def endOf {α : Type} (w : World) : Process α → Option Nat
  | .done _ => none
  | .act action _ => some (w.endsAt action)

/-- The instants at which something can go on by itself. -/
def instants (t : Timeline) : List Nat :=
  (QueueName.all.filterMap fun q =>
    match t.schedulers q with
    | .asleep wakeTime => some wakeTime
    | _ => none) ++
  t.workers.filterMap (endOf t.world ·.process) ++
  t.answering.filterMap (endOf t.world ·.process)

/-- The next instant at which something can go on. -/
def next? (t : Timeline) : Option Nat :=
  (t.instants.filter (t.instant < ·)).min?

/-- Lets time pass up to an instant, over at most `fuel` instants in between. What happens at the
last instant is left. -/
def passFor (fuel : Nat) (t : Timeline) (target : Nat) : Timeline :=
  match fuel with
  | 0 => t.setInstant (max t.instant target)
  | fuel + 1 =>
    let t := t.settle
    match t.next? with
    | none => t.setInstant target
    | some n => if n < target then passFor fuel (t.setInstant n) target else t.setInstant target

def pass (t : Timeline) (millis : Nat) : Timeline :=
  t.passFor millis (t.instant + millis)

/-- Whether an operator's process lets others go first: it does while it waits for lines. -/
def letsOthers : (a : Action) → a.Answer → Bool
  | .awaitOutput _ _, none => true
  | .awaitDrain _, true => true
  | _, _ => false

/-- Waits until an action of the operator is answered, over at most `fuel` instants. -/
def answerFor (fuel : Nat) (cancelAt : Option Nat) (t : Timeline) (a : Action) :
    Option a.Answer × Timeline :=
  let cancelled := cancelAt.any (· ≤ t.instant)
  match t.world.answer? cancelled a with
  | some (r, world) =>
    if letsOthers a r then
      let t := t.settle
      match t.world.answer? cancelled a with
      | some (r, world) => (some r, { t with world })
      | none => (none, t)
    else (some r, { t with world })
  | none =>
    match fuel with
    | 0 => (none, t)
    | fuel + 1 =>
      let t := t.settle
      match t.world.answer? cancelled a with
      | some (r, world) => (some r, { t with world })
      | none =>
        let soon := (t.world.endsAt a :: cancelAt.toList).filter (t.instant < ·)
        match (soon ++ t.next?.toList).min? with
        | none => (none, t)
        | some n => answerFor fuel cancelAt (t.setInstant n) a

/-- Lets the operator do a process to its end. The result is missing when it waits for what never
comes. -/
def complete {α : Type} (cancelAt : Option Nat) : Process α → Timeline → Option α × Timeline
  | .done a, t => (some a, t)
  | .act action next, t =>
    match t.answerFor 1000000 cancelAt action with
    | (none, t) => (none, t)
    | (some r, t) => complete cancelAt (next r) t

/-- Waits for the end of a container, which may be long, over at most `fuel` instants. -/
def awaitContainerFor (fuel : Nat) (t : Timeline) (watch : Watch) :
    Except ContainerError Int × Timeline :=
  match t.world.engine.ending? t.instant watch with
  | some r => (r, t)
  | none =>
    match fuel with
    | 0 => (.error (.noSuchContainer watch.id), t)
    | fuel + 1 =>
      let t := t.settle
      match t.world.engine.ending? t.instant watch with
      | some r => (r, t)
      | none =>
        let n := (t.next?.toList).foldl min (max watch.endsAt (t.instant + 1))
        awaitContainerFor fuel (t.setInstant n) watch

/-- Waits for the end of a container, past the faults. -/
def awaitContainer (t : Timeline) (watch : Watch) : Except ContainerError Int × Timeline :=
  t.awaitContainerFor 1000000 watch

/-- Starts the schedulers, unless that was done before, if there can be so many workers. -/
def start? (t : Timeline) : Option Timeline :=
  if t.started then some t
  else if t.settings.canStart then some { t with started := true, schedulers := fun _ => .ready }
  else none

/-- Waits for the running tasks, until an instant if one is given, and tells whether all have
ended. -/
def awaitWorkers (fuel : Nat) (deadline : Option Nat) (t : Timeline) : Bool × Timeline :=
  if t.workers.isEmpty then (true, t)
  else if deadline.any (· ≤ t.instant) then (false, t)
  else
    match fuel with
    | 0 => (false, t)
    | fuel + 1 =>
      let t := t.settle
      if t.workers.isEmpty then (true, t)
      else match (t.next?.toList ++ deadline.toList).min? with
        | none => (false, t)
        | some n => awaitWorkers fuel deadline (t.setInstant n)

/-- Stops the schedulers and gives the running tasks time to end. Tells whether they did; those that
did not are cancelled. -/
def shutdown (t : Timeline) : Bool × Timeline :=
  let t := { t with stopping := true }
  let t := if t.started then t.settle else t
  match t.awaitWorkers 1000000 (some (t.world.instantAfter t.settings.drain)) with
  | (true, t) => (true, t)
  | (false, t) => (false, (awaitWorkers 1000000 none { t with aborting := true }).2)

/-- Opens a connection of a user. Where there is no room in the inbox of the user's hub, everything
else goes on first. -/
def connect (t : Timeline) (user : Int) : Nat × Timeline :=
  let (id, hubs) := t.world.registry.hubs.beginConnect user
  match hubs.register? id with
  | some hubs => (id, t.setHubs hubs)
  | none =>
    let t := (t.setHubs hubs).settle
    (id, t.setHubs ((t.world.registry.hubs.register? id).getD t.world.registry.hubs))

end Timeline

end Galley
