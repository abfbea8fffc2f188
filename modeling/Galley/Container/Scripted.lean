import Galley.Container.Call
import Galley.Text.Utf8
/-!
# Scripted containers

A container engine whose containers do what a script for their image says: they print lines and end
after a while. Every image is there unless it is said to be missing, and a pull brings it. Faults
may be put in front of the engine: the call still takes effect, and its result is replaced by an
error.
-/
namespace Galley

/-- What a container of an image does. -/
structure Script where
  lines : List String
  /-- How long it runs, in milliseconds. -/
  runFor : Nat
  exitCode : Int
  deriving DecidableEq, Repr

/-- A container without a script ends at once and prints nothing. -/
def Script.idle : Script := ⟨[], 0, 0⟩

/-- The exit code of a container that was stopped before its end. -/
def stoppedExitCode : Int := 137

structure ScriptedContainer where
  id : String
  spec : ContainerSpec
  script : Script
  stopped : Bool
  removed : Bool
  deriving DecidableEq, Repr

inductive ContainerFault
  | ping
  | imageExists
  | pull
  | imageId
  | removeLabeled
  | create
  | logs
  | wait
  | stop
  | remove
  /-- A ping is never answered. -/
  | pingHang
  /-- A pulled image is missing again. -/
  | pullNoop
  /-- The stream of a container's lines never ends. -/
  | openLogs
  deriving DecidableEq, Repr

def ContainerFault.text : ContainerFault → String
  | .ping => "ping"
  | .imageExists => "image_exists"
  | .pull => "pull"
  | .imageId => "image_id"
  | .removeLabeled => "remove_labeled"
  | .create => "create"
  | .logs => "logs"
  | .wait => "wait"
  | .stop => "stop"
  | .remove => "remove"
  | .pingHang => "ping_hang"
  | .pullNoop => "pull_noop"
  | .openLogs => "open_logs"

namespace ContainerFault

def all : List ContainerFault :=
  [.ping, .imageExists, .pull, .imageId, .removeLabeled, .create, .logs, .wait, .stop, .remove,
    .pingHang, .pullNoop, .openLogs]

def ofText? (s : String) : Option ContainerFault :=
  all.find? (·.text = s)

end ContainerFault

structure ScriptedEngine where
  scripts : List (String × Script)
  missing : List String
  unpullable : List String
  pingFails : Bool
  faults : List ContainerFault
  /-- All calls so far in order. -/
  calls : List ContainerCall
  /-- All containers so far in the order of their creation. -/
  containers : List ScriptedContainer
  deriving Repr, Inhabited

namespace ScriptedEngine

def empty : ScriptedEngine := ⟨[], [], [], false, [], [], []⟩

def script (e : ScriptedEngine) (image : String) (s : Script) : ScriptedEngine :=
  { e with scripts := (image, s) :: e.scripts }

def addMissing (e : ScriptedEngine) (image : String) : ScriptedEngine :=
  if e.missing.contains image then e else { e with missing := image :: e.missing }

def addUnpullable (e : ScriptedEngine) (image : String) : ScriptedEngine :=
  { e.addMissing image with unpullable := image :: e.unpullable }

def scriptFor (e : ScriptedEngine) (image : String) : Script :=
  ((e.scripts.find? (·.1 = image)).map (·.2)).getD .idle

def find? (e : ScriptedEngine) (id : String) : Option ScriptedContainer :=
  e.containers.find? (·.id = id)

/-- How many containers there are that were not removed. -/
def live (e : ScriptedEngine) : Nat :=
  e.containers.countP fun c => !c.removed

def stops (e : ScriptedEngine) : Nat :=
  e.calls.countP fun
    | .stop _ => true
    | _ => false

def creations (e : ScriptedEngine) : Nat :=
  e.calls.countP fun
    | .create _ => true
    | _ => false

def hexByte (b : UInt8) : List Char :=
  [Nat.digitChar (b.toNat / 16), Nat.digitChar (b.toNat % 16)]

/-- The id of an image: the start of its name in hexadecimal digits, filled up with zeros. -/
def imageIdOf (image : String) : String :=
  let hex := (image.utf8.take 32).flatMap hexByte
  "sha256:" ++ String.ofList (hex ++ List.replicate (64 - hex.length) '0')

def carries (labels : Labels) (c : ScriptedContainer) : Bool :=
  labels.all fun l => c.spec.labels.contains l

/-- The effect and the result of a call made at an instant, without faults. -/
def obey (e : ScriptedEngine) (instant : Nat) :
    (call : ContainerCall) → call.Answer × ScriptedEngine
  | .ping =>
    (some (if e.pingFails then .error (.unavailable "fake runtime is down") else .ok ()), e)
  | .imageExists image => (.ok (!e.missing.contains image), e)
  | .pull image _ =>
    if e.unpullable.contains image then (.error (.pullFailed image "manifest unknown"), e)
    else (.ok (), { e with missing := e.missing.filter (· ≠ image) })
  | .imageId image =>
    (if e.missing.contains image then .error (.imageNotFound image) else .ok (imageIdOf image), e)
  | .removeLabeled labels =>
    let hit (c : ScriptedContainer) : Bool := carries labels c && !c.removed
    (.ok (e.containers.countP hit),
      { e with containers := e.containers.map fun c =>
          if hit c then { c with removed := true, stopped := true } else c })
  | .create spec =>
    if e.missing.contains spec.image then (.error (.imageNotFound spec.image), e)
    else
      let id := s!"fake-{e.containers.length + 1}"
      (.ok id, { e with containers := e.containers ++
        [⟨id, spec, e.scriptFor spec.image, false, false⟩] })
  | .logs id =>
    (match e.find? id with
      | none => .error (.noSuchContainer id)
      | some c => .ok ⟨c.script.lines, true⟩, e)
  | .wait id => (⟨id, instant + ((e.find? id).map (·.script.runFor)).getD 0⟩, e)
  | .stop id =>
    (.ok (), { e with containers := e.containers.map fun c =>
      if c.id = id then { c with stopped := true } else c })
  | .remove id =>
    (if (e.find? id).isSome then .ok () else .error (.noSuchContainer id),
      { e with containers := e.containers.map fun c =>
          if c.id = id then { c with removed := true, stopped := true } else c })

def call (e : ScriptedEngine) (instant : Nat) (c : ContainerCall) : c.Answer × ScriptedEngine :=
  { e with calls := e.calls ++ [c] }.obey instant c

def ending? (e : ScriptedEngine) (instant : Nat) (w : Watch) : Option (Except ContainerError Int) :=
  match e.find? w.id with
  | none => some (.error (.noSuchContainer w.id))
  | some c =>
    if c.stopped then some (.ok stoppedExitCode)
    else if w.endsAt ≤ instant then some (.ok c.script.exitCode)
    else none

/-- The error in the place of a result. -/
def injected (f : ContainerFault) : ContainerError :=
  .api ("injected " ++ f.text)

/-- The result of a call under the faults. -/
def distort (e : ScriptedEngine) : (call : ContainerCall) → call.Answer → call.Answer
  | .ping, r =>
    if e.faults.contains .pingHang then none
    else if e.faults.contains .ping then some (.error (injected .ping)) else r
  | .imageExists _, r =>
    if e.faults.contains .imageExists then .error (injected .imageExists) else r
  | .pull _ _, r => if e.faults.contains .pull then .error (injected .pull) else r
  | .imageId _, r => if e.faults.contains .imageId then .error (injected .imageId) else r
  | .removeLabeled _, r =>
    if e.faults.contains .removeLabeled then .error (injected .removeLabeled) else r
  | .create _, r => if e.faults.contains .create then .error (injected .create) else r
  | .logs _, r =>
    if e.faults.contains .logs then .error (injected .logs)
    else if e.faults.contains .openLogs then r.map fun s => { s with closes := false } else r
  | .wait _, r => r
  | .stop _, r => if e.faults.contains .stop then .error (injected .stop) else r
  | .remove _, r => if e.faults.contains .remove then .error (injected .remove) else r

def faultyCall (e : ScriptedEngine) (instant : Nat) (c : ContainerCall) :
    c.Answer × ScriptedEngine :=
  let (r, after) := e.call instant c
  let after := match c, r with
    | .pull image _, .ok _ =>
      if e.faults.contains .pullNoop then after.addMissing image else after
    | _, _ => after
  (e.distort c r, after)

def faultyEnding? (e : ScriptedEngine) (instant : Nat) (w : Watch) :
    Option (Except ContainerError Int) :=
  (e.ending? instant w).map fun r =>
    if e.faults.contains .wait then .error (injected .wait) else r

end ScriptedEngine

end Galley
