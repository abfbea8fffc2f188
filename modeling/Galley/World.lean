import Galley.Clock
import Galley.Container.Scripted
import Galley.Process
import Galley.Queue.Store
import Galley.Registry
/-!
# The world

All that processes act on. There are two clocks: the clock that tells when tasks are due only moves
when it is told to, and the instant, in milliseconds, measures how long containers run and waits
take. An action is answered with what it does to the world; an action that waits is answered as soon
as what it waits for is there.
-/
namespace Galley

structure World where
  instant : Nat
  clock : Clock
  running : Running
  stores : QueueName → Store
  /-- Whether something was filed in a queue since its scheduler last looked. -/
  woken : QueueName → Bool
  engine : ScriptedEngine
  files : Files
  /-- All messages so far in order. -/
  sent : List Delivery
  registry : Registry

namespace World

def fresh (clock : Clock) (stores : QueueName → Store) (files : Files) (registry : Registry) :
    World where
  instant := 0
  clock := clock
  running := .empty
  stores := stores
  woken := fun _ => false
  engine := .empty
  files := files
  sent := []
  registry := registry

/-- The first instant at which a span of time is over. -/
def instantAfter (w : World) (length : Duration) : Nat :=
  w.instant + (length.nanos + 999999) / 1000000

def setStore (w : World) (queue : QueueName) (store : Store) : World :=
  { w with stores := fun q => if q = queue then store else w.stores q }

def setWoken (w : World) (queue : QueueName) (woken : Bool) : World :=
  { w with woken := fun q => if q = queue then woken else w.woken q }

/-- Takes over what an operation on a queue leaves behind. -/
def afterStore {α : Type} (w : World) (queue : QueueName) (r : Store.Outcome α) :
    Except QueueError α × World :=
  (r.value, { w.setStore queue r.store with files := r.files })

/-- Takes over what work on files leaves behind. -/
def afterFiles {α : Type} (w : World) (r : α × Files) : α × World :=
  (r.1, { w with files := r.2 })

def deliver (w : World) (d : Delivery) : World :=
  { w with sent := w.sent ++ [d], registry := w.registry.deliver d }

def pop (w : World) (queue : QueueName) : Except QueueError Filed × World :=
  let (value, w) := w.afterStore queue ((w.stores queue).pop queue w.files)
  match value with
  | .error e => (.error e, w)
  | .ok f => (.ok f, { w with running := w.running.mark f.key })

def push (w : World) (queue : QueueName) (f : Filed) : Except QueueError Int × World :=
  w.afterStore queue ((w.stores queue).push queue w.files f)

/-- Files a task and wakes those who look at the queue, if it could be filed. -/
def pushAndWake (w : World) (queue : QueueName) (f : Filed) : Except QueueError Int × World :=
  match w.push queue f with
  | (.error e, w) => (.error e, w)
  | (.ok time, w) => (.ok time, w.setWoken queue true)

/-- Handles a line of a step's output and sends what comes of it. -/
def line (w : World) (o : Output) (route : Route) (text : String) :
    (Output × LineOutcome) × World :=
  let h := o.handle w.files text w.clock.time w.instant
  let deliveries := match h.sent with
    | none => []
    | some m => route.deliveries m.text
  ((h.output, h.outcome), deliveries.foldl deliver { w with files := h.files })

/-- How the wait for a container's end is over, if it is. The end counts before the deadline and the
deadline before a cancellation. -/
def ending? (w : World) (cancelled : Bool) (watch : Watch) (deadline : Nat) : Option Ending :=
  match w.engine.faultyEnding? w.instant watch with
  | some r => some (.exited r)
  | none =>
    if deadline ≤ w.instant then some .deadline
    else if cancelled then some .cancelled
    else none

/-- The answer to an action and the world after it, or `none` while the action waits. Lines are
there as soon as they are waited for. -/
def answer? (w : World) (cancelled : Bool) : (a : Action) → Option (a.Answer × World)
  | .tryAcquire key =>
    let (taken, running) := w.running.tryAcquire key
    some (taken, { w with running })
  | .unmark key => some ((), { w with running := w.running.unmark key })
  | .pop queue => some (w.pop queue)
  | .push queue f => some (w.pushAndWake queue f)
  | .refile queue f => some (w.push queue f)
  | .evict queue key => some (w.afterStore queue ((w.stores queue).evict queue w.files key))
  | .now => some (w.clock.time, w)
  | .timer length => some (w.instantAfter length, w)
  | .container call =>
    let (r, engine) := w.engine.faultyCall w.instant call
    some (r, { w with engine })
  | .makeDirs layout => some (w.afterFiles (layout.makeDirs w.files))
  | .openCache dir => some (w.afterFiles (Cache.create dir w.files))
  | .openLog path => some (w.afterFiles (StepLog.create path w.clock.time w.files))
  | .line o route text => some (w.line o route text)
  | .flush o => some (w.afterFiles (o.flush w.files))
  | .send d => some ((), w.deliver d)
  | .readApps path => some (Apps.read w.files path, w)
  | .awaitTime instant => if instant ≤ w.instant then some ((), w) else none
  | .awaitOutput watch deadline => some (w.ending? cancelled watch deadline, w)
  | .awaitEnd watch deadline => (w.ending? cancelled watch deadline).map (·, w)
  | .awaitDrain deadline => some (decide (w.instant < deadline), w)

/-- When an action that waits will have waited long enough, whatever else happens. -/
def endsAt (w : World) : Action → Nat
  | .awaitTime instant => instant
  | .awaitOutput watch deadline => min watch.endsAt deadline
  | .awaitEnd watch deadline => min watch.endsAt deadline
  | _ => w.instant

/-- Lets a process go on as far as it does not have to wait. -/
def advance {α : Type} (w : World) (cancelled : Bool) : Process α → Process α × World
  | .done a => (.done a, w)
  | .act action next =>
    match w.answer? cancelled action with
    | none => (.act action next, w)
    | some (r, w) => w.advance cancelled (next r)

end World

end Galley
