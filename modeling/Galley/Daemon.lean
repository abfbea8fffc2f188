import Galley.Config
import Galley.Container.Call
import Galley.Queue.Store
/-!
# The daemon's life

A daemon starts by taking the lock on its data, so that there is one daemon to a data directory;
then it opens its queues, which are put in order, and listens. What it made stays when a later step
fails, and the lock is given up. The three queues are directories below one root.
-/
namespace Galley

structure Machine where
  files : Files
  /-- The lock files that are held. -/
  held : List String
  /-- The number of the process. -/
  process : Nat
  /-- The port for one who asks for any. -/
  freePort : Nat

inductive LifecycleError
  | locked (path : String)
  | bindFailed (address : Address)
  | queue (e : QueueError)
  | unavailable (e : ContainerError)
  | tooManyWorkers
  | io
  deriving DecidableEq, Repr

structure Daemon where
  stores : QueueName → Store
  address : Address
  lock : String

namespace Machine

def makeDirs (m : Machine) (path : String) : Except LifecycleError Unit × Machine :=
  let (r, files) := m.files.makeDirs path
  (r.mapError fun _ => .io, { m with files })

/-- Takes the lock with a file, in which the number of the process is written. An attempt that fails
leaves the number of the one who holds the lock. -/
def acquire (m : Machine) (path : String) : Except LifecycleError Unit × Machine :=
  match m.makeDirs ((Path.parent? path).getD "") with
  | (.error e, m) => (.error e, m)
  | (.ok _, m) =>
    match m.files.append path [] with
    | .error _ => (.error .io, m)
    | .ok files =>
      let m := { m with files }
      if m.held.contains path then (.error (.locked path), m)
      else
        let pid := String.ofList (Text.Numeral.decimal m.process) ++ "\n"
        match m.files.write path pid.utf8 with
        | .error _ => (.error .io, m)
        | .ok files => (.ok (), { m with files, held := path :: m.held })

def release (m : Machine) (path : String) : Machine :=
  { m with held := m.held.filter (· ≠ path) }

/-- Listens at an address where the machine can, at a free port for port zero. -/
def listen? (m : Machine) (a : Address) : Option Address :=
  if a.isOpen then some { a with port := if a.port = 0 then m.freePort else a.port } else none

end Machine

namespace Daemon

/-- Opens a queue and puts it in order. -/
def openQueue (root : String) (queue : QueueName) (files : Files) :
    Except QueueError Store × Files :=
  match Store.openAt root queue files with
  | (.error e, files) => (.error e, files)
  | (.ok store, files) =>
    let r := store.recover queue files
    (r.value.map fun _ => r.store, r.files)

/-- Opens the queues, one after another until one fails. -/
def openQueues (root : String) (files : Files) :
    Except QueueError (QueueName → Store) × Files :=
  match openQueue root .now files with
  | (.error e, files) => (.error e, files)
  | (.ok now, files) =>
    match openQueue root .delayed files with
    | (.error e, files) => (.error e, files)
    | (.ok delayed, files) =>
      match openQueue root .recurring files with
      | (.error e, files) => (.error e, files)
      | (.ok recurring, files) =>
        (.ok fun
          | .now => now
          | .delayed => delayed
          | .recurring => recurring, files)

/-- What follows once the lock is held. -/
def prepare (c : Config) (m : Machine) : Except LifecycleError Daemon × Machine :=
  match m.makeDirs c.lockerDir with
  | (.error e, m) => (.error e, m)
  | (.ok _, m) =>
    match openQueues c.queuesDir m.files with
    | (.error e, files) => (.error (.queue e), { m with files })
    | (.ok stores, files) =>
      let m := { m with files }
      match m.listen? c.bind with
      | none => (.error (.bindFailed c.bind), m)
      | some address =>
        if c.settings.canStart then (.ok ⟨stores, address, c.lockPath⟩, m)
        else (.error .tooManyWorkers, m)

def start (c : Config) (m : Machine) : Except LifecycleError Daemon × Machine :=
  match m.acquire c.lockPath with
  | (.error e, m) => (.error e, m)
  | (.ok _, m) =>
    match prepare c m with
    | (.error e, m) => (.error e, m.release c.lockPath)
    | (.ok d, m) => (.ok d, m)

/-- Ends a daemon, which gives up its lock. -/
def stop (d : Daemon) (m : Machine) : Machine :=
  m.release d.lock

def size (d : Daemon) (m : Machine) (queue : QueueName) : Except QueueError Nat :=
  (d.stores queue).size m.files

end Daemon

end Galley
