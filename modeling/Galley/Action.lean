import Galley.Apps
import Galley.Container.Call
import Galley.Queue.Basic
import Galley.Route
import Galley.Step.Output
/-!
# Actions

What a running piece of the program asks of the world around it: marks on running keys, queues,
clocks, the container engine, files and messages. Each action is done as a whole. Four actions wait,
and what they are answered with says what came first.
-/
namespace Galley

inductive Ending
  | exited (result : Except ContainerError Int)
  | deadline
  | cancelled

inductive Action
  | tryAcquire (key : String)
  | unmark (key : String)
  /-- Takes out the first task of a queue and marks its key. -/
  | pop (queue : QueueName)
  /-- Files a task and wakes those who look at the queue. -/
  | push (queue : QueueName) (task : Filed)
  /-- Files a task and wakes nobody. -/
  | refile (queue : QueueName) (task : Filed)
  | evict (queue : QueueName) (key : String)
  | now
  /-- The instant, in milliseconds, at which a span of time that begins now is over. -/
  | timer (length : Duration)
  | container (call : ContainerCall)
  | makeDirs (layout : Layout)
  | openCache (dir : String)
  | openLog (path : String)
  /-- Handles a line of a step's output. -/
  | line (output : Output) (route : Route) (text : String)
  | flush (output : Output)
  | send (delivery : Delivery)
  | readApps (path : String)
  | awaitTime (instant : Nat)
  /-- Waits for the next line of a container, or for the end of its lines when none is left, unless
  its end, the deadline or a cancellation comes first. -/
  | awaitOutput (watch : Watch) (deadline : Nat)
  | awaitEnd (watch : Watch) (deadline : Nat)
  /-- Waits for the next line of a container that has ended, or for the end of its lines, unless the
  deadline comes first. -/
  | awaitDrain (deadline : Nat)

namespace Action

/-- What an action is answered with. Where a wait is for lines, `none` or `true` says that they have
moved on. -/
abbrev Answer : Action → Type
  | .tryAcquire _ => Bool
  | .unmark _ => Unit
  | .pop _ => Except QueueError Filed
  | .push _ _ => Except QueueError Int
  | .refile _ _ => Except QueueError Int
  | .evict _ _ => Except QueueError Nat
  | .now => Int
  | .timer _ => Nat
  | .container call => call.Answer
  | .makeDirs _ => Except FileError Unit
  | .openCache _ => Except FileFault Unit
  | .openLog _ => Except FileFault StepLog
  | .line _ _ _ => Output × LineOutcome
  | .flush _ => Output
  | .send _ => Unit
  | .readApps _ => Except AppsError Apps
  | .awaitTime _ => Unit
  | .awaitOutput _ _ => Option Ending
  | .awaitEnd _ _ => Ending
  | .awaitDrain _ => Bool

end Action

end Galley
