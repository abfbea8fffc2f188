import Galley.Json.Decode
import Galley.Json.Printer
/-!
# Requests and responses

The envelopes of JSON-RPC. An id, parameters or result of null is the same as none.
-/
namespace Galley.Rpc

open Json Json.Decoder Json.Fields

def version : String := "2.0"

structure Request where
  jsonrpc : String
  id : Option Json
  method : String
  params : Option Json
  deriving Repr

/-- A member that is there when it has a value. -/
def optional (key : String) (value : Option Json) : List (String × Json) :=
  match value with
  | some j => [(key, j)]
  | none => []

namespace Request

def decode : Decoder Request :=
  .record "RpcRequest" (Request.mk <$> fieldD "jsonrpc" string "" <*> field? "id" freeform
    <*> fieldD "method" string "" <*> field? "params" freeform)

def encode (r : Request) : Json :=
  .object ([("jsonrpc", .string r.jsonrpc)] ++ optional "id" r.id ++
    memberUnless r.method.isEmpty "method" (.string r.method) ++ optional "params" r.params)

def new (id : Json) (method : String) (params : Json) : Request :=
  ⟨version, some id, method, some params⟩

/-- The parameters as a domain value; missing ones are an empty object. -/
def decodeParams {α : Type} (r : Request) (decode : Decoder α) : Except DecodeError α :=
  match r.params with
  | none => decode (.object [])
  | some .null => decode (.object [])
  | some j => decode j

end Request

structure Response where
  jsonrpc : String
  id : Option Json
  result : Option Json
  error : Option String
  deriving Repr

namespace Response

def decode : Decoder Response :=
  .record "RpcResponse" (Response.mk <$> field "jsonrpc" string <*> field? "id" freeform
    <*> field? "result" freeform <*> field? "error" string)

def encode (r : Response) : Json :=
  .object ([("jsonrpc", .string r.jsonrpc)] ++ optional "id" r.id ++ optional "result" r.result ++
    optional "error" (r.error.map .string))

def ok (id : Option Json) (result : Json) : Response :=
  ⟨version, id, some result, none⟩

def failed (id : Option Json) (message : String) : Response :=
  ⟨version, id, none, some message⟩

def isError (r : Response) : Bool :=
  r.error.isSome

def text (r : Response) : String :=
  r.encode.compact

end Response

end Galley.Rpc
