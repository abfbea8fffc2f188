import Galley.Hub
import Galley.Http
import Galley.Inbound
/-!
# Sockets of pages

A page holds a socket for its user. All messages that wait for the page go out together as one
frame, a line for each, and every text that comes in goes to all pages of the user as one line.
-/
namespace Galley.Socket

def frame (messages : List String) : String :=
  "\n".intercalate messages

def unframe (text : String) : List String :=
  (Text.pieces '\n' text.toList).map String.ofList

/-- Takes all that waits for a connection as one frame; there is none when nothing waits. -/
def next? (hubs : Hubs) (id : Nat) : Option String × Hubs :=
  match (hubs.connection? id).map (·.buffer) with
  | some (first :: rest) =>
    (some (frame (first :: rest)), hubs.modifyConnection id fun c => { c with buffer := [] })
  | _ => (none, hubs)

inductive Message
  | text (s : String)
  | bytes (bs : List UInt8)
  | ping (bs : List UInt8)
  | close
  deriving DecidableEq, Repr

/-- The bytes that count towards the greatest size of a message. -/
def Message.size : Message → Nat
  | .text s => s.utf8ByteSize
  | .bytes bs => bs.length
  | .ping _ | .close => 0

/-- Takes what a page sends, or ends the connection: when it is closed, and when a message is too
long. Blank texts and bytes are ignored. -/
def receive? (hubs : Hubs) (user : Int) (m : Message) : Option Hubs :=
  if Inbound.maxSize < m.size then none
  else match m with
    | .close => none
    | .text s =>
      let line := Inbound.fold s
      some (if line = "" then hubs else (hubs.send user line).2)
    | _ => some hubs

/-- A name or a value in a query, where a plus sign stands for a space. -/
def queryText (cs : List Char) : String :=
  String.ofUtf8Lossy (Http.percentDecoded (cs.map fun c => if c = '+' then ' ' else c))

/-- The user that a query names, in the one value of its key. -/
def userOfQuery? (query : String) : Option Int :=
  let pairs := (Text.pieces '&' query.toList).map fun p =>
    (Text.cutAt? '=' p).getD (p, [])
  match pairs.filter (fun p => queryText p.1 = "user_id") with
  | [(_, value)] => (queryText value).integer?
  | _ => none

end Galley.Socket
