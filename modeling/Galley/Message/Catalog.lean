import Galley.Json.Decode
import Galley.Text.Split
/-!
# The catalog of an app

What a client of an app asks for and gets: its pages and recipes, the apps it may see, the one tool
that runs a recipe, and the wikis of its pages as resources.
-/
namespace Galley.Catalog

open Json Json.Decoder Json.Fields

/-- Sent to the clients of an app when a job of its starts. -/
def jobStarted : String := "--MCP JOB STARTED--"

/-- Sent to the clients of an app when a job of its has finished. -/
def jobFinished : String := "--MCP JOB FINISHED--"

def runRecipeTool : String := "run-recipe"

structure RecipeInfo where
  name : String
  description : String
  action : String
  deriving DecidableEq, Repr

def RecipeInfo.decode : Decoder RecipeInfo :=
  .record "RecipeInfo" (RecipeInfo.mk <$> field "name" string <*> field "description" string
    <*> field "action" string)

def RecipeInfo.encode (r : RecipeInfo) : Json :=
  .object [("name", .string r.name), ("description", .string r.description),
    ("action", .string r.action)]

structure PageInfo where
  id : Nat
  name : String
  wiki : String
  recipes : List RecipeInfo
  deriving DecidableEq, Repr

def PageInfo.decode : Decoder PageInfo :=
  .record "PageInfo" (PageInfo.mk <$> field "id" u32 <*> field "name" string
    <*> field "wiki" string <*> field "recipes" (list RecipeInfo.decode))

def PageInfo.encode (p : PageInfo) : Json :=
  .object [("id", .nat p.id), ("name", .string p.name), ("wiki", .string p.wiki),
    ("recipes", .array (p.recipes.map RecipeInfo.encode))]

structure AppInfo where
  uuid : String
  name : String
  description : String
  deriving DecidableEq, Repr

def AppInfo.decode : Decoder AppInfo :=
  .record "AppInfo" (AppInfo.mk <$> field "uuid" string <*> field "name" string
    <*> field "description" string)

def AppInfo.encode (a : AppInfo) : Json :=
  .object [("uuid", .string a.uuid), ("name", .string a.name),
    ("description", .string a.description)]

structure Tool where
  name : String
  description : String
  inputSchema : Json
  deriving Repr

def Tool.decode : Decoder Tool :=
  .record "ToolDescriptor" (Tool.mk <$> field "name" string <*> fieldD "description" string ""
    <*> fieldD "inputSchema" freeform .null)

def Tool.encode (t : Tool) : Json :=
  .object ([("name", .string t.name)] ++
    memberUnless t.description.isEmpty "description" (.string t.description) ++
    memberUnless t.inputSchema.isNull "inputSchema" t.inputSchema)

def Tool.runRecipe : Tool where
  name := runRecipeTool
  description := "Run a recipe by page and name"
  inputSchema := .object [
    ("properties", .object [("page", .object [("type", .string "integer")]),
      ("recipe", .object [("type", .string "string")])]),
    ("required", .strings ["page", "recipe"]),
    ("type", .string "object")]

structure ToolCall where
  name : String
  arguments : Json
  deriving Repr

def ToolCall.decode : Decoder ToolCall :=
  .record "ToolCallParams" (ToolCall.mk <$> field "name" string
    <*> fieldD "arguments" freeform .null)

def ToolCall.encode (c : ToolCall) : Json :=
  .object [("name", .string c.name), ("arguments", c.arguments)]

structure RunParams where
  page : Nat
  recipe : String
  deriving DecidableEq, Repr

def RunParams.decode : Decoder RunParams :=
  .record "RunParams" (RunParams.mk <$> field "page" u32 <*> field "recipe" string)

def RunParams.encode (p : RunParams) : Json :=
  .object [("page", .nat p.page), ("recipe", .string p.recipe)]

/-- Which page of the apps is asked for, and how many there are to be on a page. -/
structure AppsParams where
  page : Int
  limit : Int
  deriving DecidableEq, Repr

namespace AppsParams

def decode : Decoder AppsParams :=
  .record "AppsParams" (AppsParams.mk <$> fieldD "page" i64 0 <*> fieldD "limit" i64 0)

def encode (p : AppsParams) : Json :=
  .object [("page", .int p.page), ("limit", .int p.limit)]

/-- Pages start at one, and ten apps are on a page unless more than none are asked for. -/
def normalized (p : AppsParams) : AppsParams :=
  ⟨max p.page 1, if p.limit < 1 then 10 else p.limit⟩

end AppsParams

def totalPages (total limit : Int) : Int :=
  if total ≤ 0 ∨ limit ≤ 0 then 0 else (total + limit - 1).tdiv limit

structure AppsResult where
  apps : List AppInfo
  page : Int
  totalPages : Int
  deriving DecidableEq, Repr

def AppsResult.decode : Decoder AppsResult :=
  .record "AppsResult" (AppsResult.mk <$> field "apps" (list AppInfo.decode) <*> field "page" i64
    <*> field "total_pages" i64)

def AppsResult.encode (r : AppsResult) : Json :=
  .object [("apps", .array (r.apps.map AppInfo.encode)), ("page", .int r.page),
    ("total_pages", .int r.totalPages)]

structure Resource where
  uri : String
  name : String
  description : String
  mimeType : String
  deriving DecidableEq, Repr

def Resource.decode : Decoder Resource :=
  .record "ResourceDescriptor" (Resource.mk <$> field "uri" string <*> field "name" string
    <*> fieldD "description" string "" <*> fieldD "mimeType" string "")

def Resource.encode (r : Resource) : Json :=
  .object ([("uri", .string r.uri), ("name", .string r.name)] ++
    memberUnless r.description.isEmpty "description" (.string r.description) ++
    memberUnless r.mimeType.isEmpty "mimeType" (.string r.mimeType))

structure Content where
  uri : String
  mimeType : String
  text : String
  blob : String
  deriving DecidableEq, Repr

def Content.decode : Decoder Content :=
  .record "ResourceContent" (Content.mk <$> field "uri" string <*> fieldD "mimeType" string ""
    <*> fieldD "text" string "" <*> fieldD "blob" string "")

def Content.encode (c : Content) : Json :=
  .object ([("uri", .string c.uri)] ++
    memberUnless c.mimeType.isEmpty "mimeType" (.string c.mimeType) ++
    memberUnless c.text.isEmpty "text" (.string c.text) ++
    memberUnless c.blob.isEmpty "blob" (.string c.blob))

structure ReadParams where
  uri : String
  deriving DecidableEq, Repr

def ReadParams.decode : Decoder ReadParams :=
  .record "ReadParams" (ReadParams.mk <$> field "uri" string)

def ReadParams.encode (p : ReadParams) : Json :=
  .object [("uri", .string p.uri)]

def wikiUri (uuid : String) (page : Nat) : String :=
  s!"lemc://app/{uuid}/wiki/{page}"

/-- The page of a wiki's address, whatever the app in it. -/
def parseWikiUri? (uri : String) : Option Nat := do
  let rest ← uri.after? "lemc://app/"
  let (app, page) ← rest.cutAtWord? "/wiki/"
  if app.isEmpty ∨ app.toList.contains '/' then none
  else
    let n ← Text.Numeral.digits? page.toList
    if n ≤ Text.Numeral.maxU32 then some n else none

/-- The address that runs a recipe. -/
def recipeAction (uuid : String) (page : Nat) (recipe : String) : String :=
  s!"/lemc/app/job/shared/uuid/{uuid}/page/{page}/recipe/{recipe}"

end Galley.Catalog
