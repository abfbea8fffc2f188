import Galley.Settings
/-!
# Hubs

Every user with an open connection has a hub. What happens to the hub is put into its inbox, so that
joins, leaves and messages keep their order, and the hub takes one command after another. A message
that finds the inbox full is dropped, and a connection whose buffer is full misses a message. The
hub goes away with the last connection of its user.
-/
namespace Galley

inductive HubCommand
  | register (connection : Nat)
  | unregister (connection : Nat)
  | broadcast (text : String)
  deriving DecidableEq, Repr

structure Hub where
  user : Int
  inbox : List HubCommand
  members : List Nat
  /-- How many connections the user has, with those that are being opened. -/
  connections : Nat
  deriving DecidableEq, Repr

/-- A connection with the messages that wait in its buffer. -/
structure Connection where
  id : Nat
  user : Int
  buffer : List String
  deriving DecidableEq, Repr

structure Hubs where
  inboxSize : Nat
  bufferSize : Nat
  nextId : Nat
  hubs : List Hub
  /-- The connections that were not closed, with those that are being opened. -/
  connections : List Connection
  deriving DecidableEq, Repr, Inhabited

namespace Hubs

def empty (inboxSize bufferSize : Nat) : Hubs :=
  ⟨max inboxSize 1, max bufferSize 1, 1, [], []⟩

def standard : Hubs := empty 256 256

/-- Whether there can be inboxes and buffers of such sizes. -/
def canOpen (h : Hubs) : Bool :=
  h.inboxSize ≤ Settings.maxPlaces && h.bufferSize ≤ Settings.maxPlaces

def hub? (h : Hubs) (user : Int) : Option Hub :=
  h.hubs.find? (·.user = user)

def connection? (h : Hubs) (id : Nat) : Option Connection :=
  h.connections.find? (·.id = id)

def modifyHub (h : Hubs) (user : Int) (change : Hub → Hub) : Hubs :=
  { h with hubs := h.hubs.map fun hub => if hub.user = user then change hub else hub }

def modifyConnection (h : Hubs) (id : Nat) (change : Connection → Connection) : Hubs :=
  { h with connections := h.connections.map fun c => if c.id = id then change c else c }

/-- Begins to open a connection. The user's hub is made if there is none. -/
def beginConnect (h : Hubs) (user : Int) : Nat × Hubs :=
  let h' := if (h.hub? user).isSome then h
    else { h with hubs := h.hubs ++ [⟨user, [], [], 0⟩] }
  let h' := h'.modifyHub user fun hub => { hub with connections := hub.connections + 1 }
  (h.nextId, { h' with nextId := h.nextId + 1
                       connections := h'.connections ++ [⟨h.nextId, user, []⟩] })

/-- Puts a command into a user's inbox unless there is no room. -/
def post? (h : Hubs) (user : Int) (command : HubCommand) : Option Hubs :=
  match h.hub? user with
  | none => none
  | some hub =>
    if hub.inbox.length < h.inboxSize then
      some (h.modifyHub user fun hub => { hub with inbox := hub.inbox ++ [command] })
    else none

/-- Finishes opening a connection, when there is room in the inbox. -/
def register? (h : Hubs) (id : Nat) : Option Hubs :=
  (h.connection? id).bind fun c => h.post? c.user (.register id)

/-- Sends a message to all connections of a user, and tells whether the user has a hub. -/
def send (h : Hubs) (user : Int) (text : String) : Bool × Hubs :=
  ((h.hub? user).isSome, (h.post? user (.broadcast text)).getD h)

def close (h : Hubs) (id : Nat) : Hubs :=
  match h.connection? id with
  | none => h
  | some c =>
    let h := { h with connections := h.connections.filter (·.id ≠ id) }
    let h := h.modifyHub c.user fun hub => { hub with connections := hub.connections - 1 }
    match h.hub? c.user with
    | none => h
    | some hub =>
      if hub.connections = 0 then { h with hubs := h.hubs.filter (·.user ≠ c.user) }
      else (h.post? c.user (.unregister id)).getD h

def receive (h : Hubs) (id : Nat) : Option String × Hubs :=
  match h.connection? id with
  | none => (none, h)
  | some c =>
    match c.buffer with
    | [] => (none, h)
    | text :: rest => (some text, h.modifyConnection id fun c => { c with buffer := rest })

/-- Puts a message into the buffers of the connections that have room. -/
def deliver (h : Hubs) (members : List Nat) (text : String) : Hubs :=
  { h with connections := h.connections.map fun c =>
      if members.contains c.id ∧ c.buffer.length < h.bufferSize then
        { c with buffer := c.buffer ++ [text] }
      else c }

/-- Does what a command says to a user's hub. Members that are closed are forgotten when a message
comes. -/
def obey (h : Hubs) (user : Int) (members : List Nat) : HubCommand → Hubs
  | .register id => h.modifyHub user fun hub => { hub with members := hub.members ++ [id] }
  | .unregister id =>
    h.modifyHub user fun hub => { hub with members := hub.members.filter (· ≠ id) }
  | .broadcast text =>
    let stillOpen := members.filter fun id => (h.connection? id).isSome
    (h.deliver stillOpen text).modifyHub user fun hub => { hub with members := stillOpen }

/-- Lets a user's hub take one command. -/
def step (h : Hubs) (user : Int) : Hubs :=
  match h.hub? user with
  | none => h
  | some hub =>
    match hub.inbox with
    | [] => h
    | command :: rest =>
      (h.modifyHub user fun hub => { hub with inbox := rest }).obey user hub.members command

def settleHub (h : Hubs) (user : Int) : Hubs :=
  match h.hub? user with
  | none => h
  | some hub => hub.inbox.foldl (fun h _ => h.step user) h

def settle (h : Hubs) : Hubs :=
  h.hubs.foldl (fun h hub => h.settleHub hub.user) h

/-- Opens a connection. Where there is no room in the inbox, the hub takes its commands first. -/
def connect (h : Hubs) (user : Int) : Nat × Hubs :=
  let (id, h) := h.beginConnect user
  match h.register? id with
  | some h => (id, h)
  | none =>
    let h := h.settleHub user
    (id, (h.register? id).getD h)

def count (h : Hubs) (user : Int) : Nat :=
  ((h.hub? user).map (·.connections)).getD 0

end Hubs

end Galley
