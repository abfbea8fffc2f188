import Galley.AppServer
import Galley.Hub
import Galley.Route
/-!
# The registry

Where messages go: to the hubs of users and to the servers of apps. The server of an app is made
when the app is first asked for.
-/
namespace Galley

structure Registry where
  hubs : Hubs
  servers : List AppServer
  deriving DecidableEq, Repr

namespace Registry

def empty : Registry := ⟨.standard, []⟩

def server? (r : Registry) (app : Int) : Option AppServer :=
  r.servers.find? (·.appId = app)

def setServer (r : Registry) (s : AppServer) : Registry :=
  { r with servers := r.servers.map fun old => if old.appId = s.appId then s else old }

/-- The server of an app, made from its record when there is none. -/
def serverFor (r : Registry) (app : App) : AppServer × Registry :=
  match r.server? app.id with
  | some s => (s, r)
  | none => (.ofApp app, { r with servers := r.servers ++ [.ofApp app] })

/-- Sends a message to all connections of a user, and tells whether the user has a hub. -/
def sendToUser (r : Registry) (user : Int) (text : String) : Bool × Registry :=
  let (found, hubs) := r.hubs.send user text
  (found, { r with hubs })

/-- Sends a message to the clients of an app, and counts those that accept it. -/
def sendToApp (r : Registry) (app : Int) (text : String) : Nat × Registry :=
  match r.server? app with
  | none => (0, r)
  | some s =>
    let (count, s) := s.broadcast text
    (count, r.setServer s)

/-- Lets the answers go on that wait for places in the buffers of clients. -/
def settleServers (r : Registry) : Registry :=
  { r with servers := r.servers.map AppServer.settle }

def deliver (r : Registry) : Delivery → Registry
  | .user id text => (r.sendToUser id text).2
  | .app id text => (r.sendToApp id text).2

end Registry

end Galley
