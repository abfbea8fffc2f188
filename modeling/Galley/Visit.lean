import Galley.Http
import Galley.Timeline
/-!
# Visits

What becomes of a request over HTTP. Whoever comes with a key is looked up in the directory of apps,
which lets everything else go on first; a client of an app keeps a stream of its messages, and what
it asks for is answered on that stream.
-/
namespace Galley

namespace Http

/-- The answer to a visit: a response, or a stream of the messages for a client of an app. -/
inductive Answer
  | response (r : Response)
  | stream (app : Int) (client : Nat)
  deriving DecidableEq, Repr

/-- Who may use an app, or the response to everyone else. -/
def authorize (apps : Except AppsError Apps) (uuid key : String) :
    Except Response (App × ApiUser) :=
  match apps.toOption.bind (·.authorize? uuid key) with
  | none => .error .unauthorized
  | some (app, user) => if app.mcpEnabled then .ok (app, user) else .error .forbidden

end Http

namespace Timeline

open Http

def setRegistry (t : Timeline) (registry : Registry) : Timeline :=
  t.onWorld fun w => { w with registry }

/-- Looks a visitor up, with the key. -/
def lookUp (t : Timeline) (uuid : String) (header : Option (List UInt8)) :
    Except Response (App × ApiUser × String) × Timeline :=
  match key? header with
  | none => (.error .unauthorized, t)
  | some key =>
    let t := t.settle
    ((authorize (Apps.read t.world.files t.appsPath) uuid key).map fun (app, user) =>
      (app, user, key), t)

/-- Subscribes a visitor to the messages for an app's clients. -/
def visitStream (t : Timeline) (uuid : String) (header : Option (List UInt8)) : Answer × Timeline :=
  match t.lookUp uuid header with
  | (.error r, t) => (.response r, t)
  | (.ok (app, user, key), t) =>
    let (server, registry) := t.world.registry.serverFor app
    let (id, server) := server.subscribe user key
    (.stream app.id id, t.setRegistry (registry.setServer server))

/-- Takes the request of a client, which is answered on the client's stream. -/
def visitRequest (t : Timeline) (uuid : String) (header : Option (List UInt8))
    (body : List UInt8) : Response × Timeline :=
  match t.lookUp uuid header with
  | (.error r, t) => (r, t)
  | (.ok (app, _, key), t) =>
    let (server, registry) := t.world.registry.serverFor app
    let t := t.setRegistry registry
    match server.clientOfKey? key with
    | none => (.gone, t)
    | some client =>
      match (Json.ofBytes? body).map Rpc.Request.decode with
      | some (.ok request) =>
        let process := server.respond t.locker t.appsPath client.user request
        (.accepted, { t with answering := t.answering ++ [⟨app.id, client.id, process⟩] })
      | _ => (.badRequest, t)

def leaveStream (t : Timeline) (app : Int) (client : Nat) : Timeline :=
  match t.world.registry.server? app with
  | none => t
  | some s => t.setRegistry (t.world.registry.setServer (s.unsubscribe client))

/-- Answers a request over HTTP. -/
def visit (t : Timeline) (method target : String) (header : Option (List UInt8))
    (body : List UInt8) : Answer × Timeline :=
  let isHead := method = "HEAD"
  let plain (r : Response) : Answer := .response (if isHead then r.head else r)
  match Endpoint.ofTarget? target with
  | none => (.response .notFound, t)
  | some endpoint =>
    if !endpoint.allows method then (.response .methodNotAllowed, t)
    else match endpoint with
      | .health => (plain .healthy, t)
      | .socket => (if isHead then .response .methodNotAllowed else .response .noUpgrade, t)
      | .stream none => (plain .badUuid, t)
      | .request none => (.response .badUuid, t)
      | .stream (some uuid) =>
        match t.visitStream uuid header with
        | (.response r, t) => (plain r, t)
        | (.stream app client, t) =>
          (.stream app client, if isHead then t.leaveStream app client else t)
      | .request (some uuid) =>
        let (r, t) := t.visitRequest uuid header body
        (.response r, t)

def takeMessage (t : Timeline) (app : Int) (client : Nat) : Option String × Timeline :=
  match t.world.registry.server? app with
  | none => (none, t)
  | some s =>
    let (text, s) := s.receive client
    (text, t.setRegistry (t.world.registry.setServer s))

/-- Waits for the next message of a client, up to an instant and over at most `fuel` instants. -/
def awaitMessageFor (fuel : Nat) (t : Timeline) (app : Int) (client deadline : Nat) :
    Option String × Timeline :=
  match t.takeMessage app client with
  | (some text, t) => (some text, t)
  | (none, t) =>
    match fuel with
    | 0 => (none, t)
    | fuel + 1 =>
      let t := t.settle
      match t.takeMessage app client with
      | (some text, t) => (some text, t)
      | (none, t) =>
        if deadline ≤ t.instant then (none, t)
        else
          let n := t.next?.toList.foldl min deadline
          awaitMessageFor fuel (t.setInstant n) app client deadline

def awaitMessage (t : Timeline) (app : Int) (client millis : Nat) : Option String × Timeline :=
  t.awaitMessageFor (millis + 1) app client (t.instant + millis)

/-- Waits for the next event on a client's stream for some milliseconds. On a stream that nothing
was written to for long there is a sign of life. -/
def awaitEvent (t : Timeline) (app : Int) (client lastWritten millis : Nat) :
    Option String × Timeline :=
  let alive := lastWritten + Http.longestSilence
  let deadline := t.instant + millis
  let (text, t) := if alive ≤ t.instant then t.takeMessage app client
    else t.awaitMessageFor (millis + 1) app client (min alive deadline)
  match text with
  | some text => (some (Http.event text), t)
  | none => (if alive ≤ deadline then some Http.signOfLife else none, t)

end Timeline

end Galley
