import Galley.Apps
import Galley.Message.Catalog
import Galley.Message.Rpc
import Galley.Request
/-!
# Servers of apps

The server of an app answers requests about its cookbook, starts its recipes, and sends what happens
to the clients that have subscribed. A client's messages wait in a buffer; one that comes while it
is full is not accepted, but an answer waits for a place. A place that becomes free is promised to
the first answer that waits, which takes it when it goes on.
-/
namespace Galley

structure Client where
  id : Nat
  key : String
  user : ApiUser
  buffer : List String := []
  /-- The answers that wait for a place in the buffer. -/
  waiting : List String := []
  /-- How many of them have been promised one. -/
  promised : Nat := 0
  deriving DecidableEq, Repr

namespace Client

/-- How many messages wait for a client at most. -/
def bufferSize : Nat := 64

def hasRoom (c : Client) : Bool :=
  c.buffer.length + c.promised < bufferSize

/-- Takes a message, if there is room. -/
def offer (c : Client) (text : String) : Client :=
  if c.hasRoom then { c with buffer := c.buffer ++ [text] } else c

/-- Takes an answer, which waits if there is no room. -/
def answer (c : Client) (text : String) : Client :=
  if c.hasRoom then c.offer text else { c with waiting := c.waiting ++ [text] }

def settle (c : Client) : Client :=
  { c with
    buffer := c.buffer ++ c.waiting.take c.promised
    waiting := c.waiting.drop c.promised
    promised := 0 }

/-- Takes the next message out of the buffer and promises its place to the next answer. -/
def receive (c : Client) : Option String × Client :=
  match c.buffer with
  | [] => (none, c)
  | text :: rest =>
    (some text, { c with buffer := rest, promised := min c.waiting.length (c.promised + 1) })

end Client

structure AppServer where
  appId : Int
  uuid : String
  cookbook : Cookbook
  clients : List Client
  nextId : Nat
  deriving DecidableEq, Repr

/-- The answer to a request: at once, or when a job was submitted. -/
inductive Reply
  | now (response : Rpc.Response)
  | launch (job : Job) (finish : Except String String → Rpc.Response)

namespace AppServer

def ofApp (app : App) : AppServer :=
  ⟨app.id, app.uuid, app.cookbook, [], 1⟩

def client? (s : AppServer) (id : Nat) : Option Client :=
  s.clients.find? (·.id = id)

def clientOfKey? (s : AppServer) (key : String) : Option Client :=
  s.clients.find? (·.key = key)

def subscribe (s : AppServer) (user : ApiUser) (key : String) : Nat × AppServer :=
  let clients := s.clients ++ [{ id := s.nextId, key, user }]
  (s.nextId, { s with clients, nextId := s.nextId + 1 })

def unsubscribe (s : AppServer) (id : Nat) : AppServer :=
  { s with clients := s.clients.filter (·.id ≠ id) }

def modifyClient (s : AppServer) (id : Nat) (change : Client → Client) : AppServer :=
  { s with clients := s.clients.map fun c => if c.id = id then change c else c }

/-- Sends a message to all clients and counts those that accept it. -/
def broadcast (s : AppServer) (text : String) : Nat × AppServer :=
  (s.clients.countP Client.hasRoom, { s with clients := s.clients.map (·.offer text) })

/-- Sends a message to one client, if it accepts it. -/
def tell (s : AppServer) (id : Nat) (text : String) : AppServer :=
  s.modifyClient id (·.offer text)

/-- Sends the answer to a client's request. It is lost when the client is gone. -/
def sendAnswer (s : AppServer) (id : Nat) (r : Rpc.Response) : AppServer :=
  s.modifyClient id (·.answer r.text)

def settle (s : AppServer) : AppServer :=
  { s with clients := s.clients.map Client.settle }

def receive (s : AppServer) (id : Nat) : Option String × AppServer :=
  ((s.client? id).bind (·.receive.1), s.modifyClient id (·.receive.2))

/-- The answer that holds a result, in which objects have sorted keys. -/
def good (id : Option Json) (result : Json) : Rpc.Response :=
  .ok id result.freeform

/-- A page with its recipes. A wiki that cannot be read counts as empty. -/
def pageInfo (s : AppServer) (page : Page) : Catalog.PageInfo where
  id := page.page
  name := page.name
  wiki := match s.cookbook.wiki? page.page with
    | some (.ok html) => html
    | _ => ""
  recipes := page.recipes.map fun r =>
    ⟨r.name, r.description, Catalog.recipeAction s.uuid page.page r.name⟩

def pages (s : AppServer) : Json :=
  .object [("pages", .array (s.cookbook.pages.map fun p => (s.pageInfo p).encode))]

def recipes (s : AppServer) : Json :=
  .object [("recipes", .array ((s.cookbook.pages.flatMap (·.recipes)).map fun r =>
    .object [("name", .string r.name), ("description", .string r.description)]))]

def resources (s : AppServer) : List Catalog.Resource :=
  (s.cookbook.pages.filter fun p => (s.cookbook.wiki? p.page).isSome).map fun p =>
    ⟨Catalog.wikiUri s.uuid p.page, s!"Page {p.page} Wiki", "", "text/html"⟩

def readResource (s : AppServer) (uri : String) : Except String Catalog.Content :=
  match Catalog.parseWikiUri? uri with
  | none => .error "unknown resource"
  | some page =>
    match s.cookbook.wiki? page with
    | none => .error "resource not found"
    | some (.error e) => .error ("decode: " ++ e.message)
    | some (.ok html) => .ok ⟨uri, "text/html", html, ""⟩

def appsPage (params : Catalog.AppsParams) (user : ApiUser) (apps : Apps) : Catalog.AppsResult :=
  let params := params.normalized
  let (found, total) := apps.page user params.page params.limit
  ⟨found.map fun a => ⟨a.uuid, a.name, a.description⟩, params.page,
    Catalog.totalPages total params.limit⟩

def runRequest (s : AppServer) (params : Catalog.RunParams) : Request where
  entity := .app
  uuid := s.uuid
  entityId := toString s.appId
  page := params.page
  recipe := params.recipe
  userId := 0
  username := "mcp"
  scope := .shared
  form := []
  recipients := []

/-- Submits a recipe's job and answers with the result when it is accepted. -/
def run (s : AppServer) (id : Option Json) (params : Catalog.RunParams) (result : Json) : Reply :=
  match (s.runRequest params).build s.cookbook with
  | .error e => .now (.failed id e.message)
  | .ok job => .launch job fun
    | .ok _ => good id result
    | .error text => .failed id text

/-- Reads the parameters of a request, or answers that they are wrong. -/
def withParams {α : Type} (r : Rpc.Request) (decode : Json.Decoder α) (f : α → Reply) : Reply :=
  match r.decodeParams decode with
  | .error e => .now (.failed r.id ("params: " ++ e.message))
  | .ok params => f params

def answer (r : Rpc.Request) : Except String Json → Reply
  | .ok result => .now (good r.id result)
  | .error text => .now (.failed r.id text)

def callTool (s : AppServer) (r : Rpc.Request) (call : Catalog.ToolCall) : Reply :=
  if call.name ≠ Catalog.runRecipeTool then .now (.failed r.id "unknown tool")
  else
    match Catalog.RunParams.decode call.arguments with
    | .error e => .now (.failed r.id ("args: " ++ e.message))
    | .ok params => s.run r.id params (.object [("content",
        .array [.object [("type", .string "text"), ("text", .string "ok")]])])

def handle (s : AppServer) (apps : Except String Apps) (user : ApiUser) (r : Rpc.Request) : Reply :=
  match r.method with
  | "lemc.pages" => .now (good r.id s.pages)
  | "lemc.recipes" => .now (good r.id s.recipes)
  | "lemc.apps" => withParams r Catalog.AppsParams.decode fun params =>
    answer r (apps.map fun apps => (appsPage params user apps).encode)
  | "lemc.run" => withParams r Catalog.RunParams.decode fun params =>
    s.run r.id params (.string "ok")
  | "tools/list" =>
    .now (good r.id (.object [("tools", .array [Catalog.Tool.runRecipe.encode])]))
  | "tools/call" => withParams r Catalog.ToolCall.decode (s.callTool r)
  | "resources/list" =>
    .now (good r.id (.object [("resources", .array (s.resources.map Catalog.Resource.encode))]))
  | "resources/read" => withParams r Catalog.ReadParams.decode fun params =>
    answer r ((s.readResource params.uri).map fun c =>
      .object [("contents", .array [Catalog.Content.encode c])])
  | other => .now (.failed r.id ("unknown method: " ++ other))

end AppServer

end Galley
