import Galley.Text.Numeral
import Galley.Text.Split
import Galley.Text.Utf8
/-!
# Requests over HTTP

The paths that the daemon serves: the pages' socket, the stream of an app's messages, the requests
to an app, and a probe. The uuid of an app is one nonempty part of the path, in which any byte may
be written as a percent sign with two hexadecimal digits.
-/
namespace Galley.Http

inductive Endpoint
  | socket
  /-- The stream of messages for the clients of an app; `none` for a uuid that is not UTF-8. -/
  | stream (uuid : Option String)
  | request (uuid : Option String)
  | health
  deriving DecidableEq, Repr

def percentDecoded : List Char → List UInt8
  | '%' :: a :: b :: rest =>
    match Text.Numeral.hexValue? a, Text.Numeral.hexValue? b with
    | some x, some y => (16 * x + y).toUInt8 :: percentDecoded rest
    | _, _ => '%'.toNat.toUInt8 :: percentDecoded (a :: b :: rest)
  | c :: rest => Text.Utf8.encodeChar c ++ percentDecoded rest
  | [] => []

def decodePart? (part : List Char) : Option String :=
  String.ofUtf8? (percentDecoded part)

/-- What follows the scheme of a full address and its two slashes. -/
def afterScheme? (address : List Char) : Option (List Char) :=
  let isSchemeChar (c : Char) := c.isAlphanum || c = '+' || c = '-' || c = '.'
  match address.dropWhile isSchemeChar with
  | ':' :: '/' :: '/' :: rest => some rest
  | _ => none

/-- The path that a request asks for, without the query and the fragment. It may be given in a full
address, behind the scheme and the host. -/
def barePath (target : String) : List Char :=
  let isEnd (c : Char) := c = '?' || c = '#'
  let path := match afterScheme? target.toList with
    | some rest => rest.dropWhile fun c => c ≠ '/' && !isEnd c
    | none => target.toList
  path.takeWhile fun c => !isEnd c

def Endpoint.ofTarget? (target : String) : Option Endpoint :=
  match Text.pieces '/' (barePath target) with
  | [[], part] =>
    if part = "ws".toList then some .socket
    else if part = "healthz".toList then some .health
    else none
  | [[], mcp, uuid] =>
    if mcp = "mcp".toList ∧ uuid ≠ [] then some (.request (decodePart? uuid)) else none
  | [[], mcp, uuid, sse] =>
    if mcp = "mcp".toList ∧ uuid ≠ [] ∧ sse = "sse".toList then some (.stream (decodePart? uuid))
    else none
  | _ => none

def Endpoint.allows (method : String) : Endpoint → Bool
  | .request _ => method = "POST"
  | _ => method = "GET" ∨ method = "HEAD"

/-- The key in a header: a nonempty text of printable ASCII characters. -/
def key? (header : Option (List UInt8)) : Option String := do
  let bytes ← header
  if bytes ≠ [] ∧ bytes.all fun b => (0x20 ≤ b ∧ b < 0x7F) ∨ b = 9 then String.ofUtf8? bytes
  else none

structure Response where
  status : Nat
  body : String
  deriving DecidableEq, Repr

namespace Response

def ok : Response := ⟨200, ""⟩

def accepted : Response := ⟨202, ""⟩

def badRequest : Response := ⟨400, ""⟩

def unauthorized : Response := ⟨401, ""⟩

def forbidden : Response := ⟨403, ""⟩

def notFound : Response := ⟨404, ""⟩

def methodNotAllowed : Response := ⟨405, ""⟩

def gone : Response := ⟨410, ""⟩

/-- A uuid in a path that is not UTF-8. -/
def badUuid : Response := ⟨400, "Invalid URL: Invalid UTF-8 in `uuid`"⟩

def healthy : Response := ⟨200, "ok"⟩

/-- A request for the pages' socket that does not ask to go on as one. -/
def noUpgrade : Response := ⟨400, "Connection header did not include 'upgrade'"⟩

def head (r : Response) : Response := { r with body := "" }

end Response

/-- The lines of a message as they stand in an event, each behind the name of its field. A carriage
return ends a line as well. -/
def dataLines (text : List Char) : List Char :=
  let field := "data: ".toList
  field ++ text.flatMap fun c => if c = '\n' || c = '\r' then c :: field else [c]

/-- One event of a stream: a line for each line of the message, then an empty one. An empty message
has no lines. -/
def event (text : String) : String :=
  if text = "" then "\n" else String.ofList (dataLines text.toList) ++ "\n\n"

/-- How many milliseconds a stream is silent at most. -/
def longestSilence : Nat := 15000

/-- What is written to a stream that has been silent for long, a comment without text. -/
def signOfLife : String := ":\n\n"

end Galley.Http
