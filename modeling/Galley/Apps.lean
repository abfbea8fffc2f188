import Galley.Cookbook.Codec
import Galley.Files
import Galley.Json.Reader
/-!
# The directory of apps

Which apps there are, what cookbook each has, and which keys let whom in. A key belongs to a user of
an account and opens the apps of that account. The directory is a file that may change at any time;
where there is no file there are no apps.
-/
namespace Galley

open Json Json.Decoder Json.Fields

structure App where
  id : Int
  uuid : String
  name : String
  description : String
  accountId : Int
  mcpEnabled : Bool
  cookbook : Cookbook
  deriving DecidableEq, Repr, Inhabited

/-- Who stands behind a key. -/
structure ApiUser where
  userId : Int
  accountId : Int
  deriving DecidableEq, Repr, Inhabited

structure ApiKey where
  key : String
  user : ApiUser
  deriving DecidableEq, Repr, Inhabited

structure Apps where
  apps : List App
  keys : List ApiKey
  deriving DecidableEq, Repr, Inhabited

/-- Why the directory cannot be read. -/
inductive AppsError
  | io (e : FileError)
  /-- The file is not in UTF-8. -/
  | notText
  /-- The text is no directory; its first fault, if there is one. -/
  | parse (fault : Option Fault)
  deriving Repr

def AppsError.message (path : String) : AppsError → String
  | .io e => s!"failed to read app directory {path}: " ++ e.message
  | .notText => s!"failed to read app directory {path}: stream did not contain valid UTF-8"
  | .parse fault =>
    "invalid app directory " ++ path ++ (fault.map fun f => ": " ++ f.message).getD ""

def App.decode : Decoder App :=
  .record "AppRecord" (App.mk <$> field "id" i64 <*> field "uuid" string <*> field "name" string
    <*> fieldD "description" string "" <*> field "account_id" i64
    <*> fieldD "mcp_enabled" bool false <*> fieldD "cookbook" Cookbook.decode ⟨⟨[], []⟩, [], []⟩)

def App.check : Check :=
  .record "AppRecord" [.field "id" Check.i64, .field "uuid" Check.string,
    .field "name" Check.string, .fieldD "description" Check.string, .field "account_id" Check.i64,
    .fieldD "mcp_enabled" Check.bool, .fieldD "cookbook" Cookbook.check]

def App.encode (app : App) : Json :=
  .object [("id", .int app.id), ("uuid", .string app.uuid), ("name", .string app.name),
    ("description", .string app.description), ("account_id", .int app.accountId),
    ("mcp_enabled", .bool app.mcpEnabled), ("cookbook", app.cookbook.encode)]

def ApiUser.decode : Decoder ApiUser :=
  .record "ApiUser" (ApiUser.mk <$> field "user_id" i64 <*> field "account_id" i64)

/-- The members of a key and those of its user stand in one object. The rest of the object is read
as free-form values, which are then three levels below the text. -/
def ApiKey.decode : Decoder ApiKey
  | .object members => do
    let (own, others) := members.partition (·.1 == "key")
    let key ← Decoder.record "ApiKeyRecord" (id <$> field "key" string) (.object own)
    if others.any fun (_, j) => (j.normal? (maxLevels - 3)).isNone then throw .unreadable
    return ⟨key, ← ApiUser.decode (.object others)⟩
  | j => refuse j "struct ApiKeyRecord"

def ApiKey.check : Check :=
  .joined "ApiKeyRecord" [.field "key" Check.string] ApiUser.decode

namespace Apps

def empty : Apps := ⟨[], []⟩

def decode : Decoder Apps :=
  .record "DirectoryFile" (Apps.mk <$> fieldD "apps" (list App.decode) []
    <*> fieldD "api_keys" (list ApiKey.decode) [])

def check : Check :=
  .record "DirectoryFile" [.fieldD "apps" (Check.list App.check),
    .fieldD "api_keys" (Check.list ApiKey.check)]

def read (files : Files) (path : String) : Except AppsError Apps :=
  match files.readText path with
  | .error .notFound => .ok empty
  | .error e => .error (.io e)
  | .ok none => .error .notText
  | .ok (some text) =>
    match (Json.ofNumberedText? text).map decode with
    | some (.ok apps) => .ok apps
    | _ => .error (.parse (check.fault? text))

/-- The app that a key opens, with the key's user. Only the first record of a key counts, and it
opens the first app with the uuid in its account. -/
def authorize? (d : Apps) (uuid key : String) : Option (App × ApiUser) := do
  let k ← d.keys.find? (·.key = key)
  let app ← d.apps.find? fun a => a.uuid = uuid ∧ a.accountId = k.user.accountId
  return (app, k.user)

def visible (d : Apps) (user : ApiUser) : List App :=
  d.apps.filter (·.accountId = user.accountId)

/-- How many apps stand before a page, where no count fits in 64 bits the greatest number that
does. -/
def skipped (page limit : Int) : Nat :=
  let n := Text.Numeral.saturate ((max page 1 - 1) * limit)
  if n < 0 then Text.Numeral.maxU64 else n.toNat

/-- One page of the apps that a user may see, and how many there are in all. -/
def page (d : Apps) (user : ApiUser) (page limit : Int) : List App × Nat :=
  let visible := d.visible user
  ((visible.drop (skipped page limit)).take limit.toNat, visible.length)

end Apps

end Galley
