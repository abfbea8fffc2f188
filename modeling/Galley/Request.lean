import Galley.Cookbook
import Galley.Job
import Galley.Text.Slug
/-!
# Requests

A request names a recipe of a cookbook and brings the values of its form. The job made from it has
the variables of the cookbook, then those of the form, then those of the system, so that a later
one wins over an earlier one of its name. When a step runs, more variables of the system follow, and
last those of the step.
-/
namespace Galley

structure Request where
  entity : Entity
  uuid : String
  /-- The id of the app or of the cookbook. -/
  entityId : String
  page : Nat
  recipe : String
  userId : Int
  username : String
  scope : Scope
  /-- The names and values of the form in the order in which they were sent. -/
  form : List (String × String)
  recipients : List Int
  deriving DecidableEq, Repr

inductive RequestError
  | recipeNotFound (page : Nat) (recipe : String)
  | formField (name : String)
  deriving DecidableEq, Repr

def RequestError.message : RequestError → String
  | .recipeNotFound page recipe => s!"recipe " ++ recipe.quoted ++ s!" not found on page {page}"
  | .formField name => "invalid characters in form field name " ++ name.quoted

/-- Where the files of a recipe's unit are downloaded from. -/
def downloadBaseUrl (uuid : String) (page : Nat) (scope : Scope) : String :=
  s!"/lemc/locker/uuid/{uuid}/page/{page}/scope/{scope.text}/filename/"

namespace Request

/-- A name of ASCII letters, digits and underscores. -/
def isFieldName (name : String) : Bool :=
  name ≠ "" && name.toList.all Text.Slug.isKept

/-- The variables of the form, their names in upper case. -/
def formVariables : List (String × String) → Except RequestError (List String)
  | [] => .ok []
  | (name, value) :: rest =>
    if isFieldName name then
      (formVariables rest).map fun vars =>
        s!"{String.ofList (name.toList.map Char.toUpper)}={value}" :: vars
    else .error (.formField name)

def systemVariables (r : Request) (recipe : Recipe) : List String :=
  ["LEMC_STEP_ID=1", s!"LEMC_SCOPE={r.scope.text}", s!"LEMC_USER_ID={r.userId}",
    s!"LEMC_USERNAME={r.username}", s!"LEMC_UUID={r.uuid}",
    s!"LEMC_RECIPE_NAME={recipe.name.slug}", s!"LEMC_PAGE_ID={r.page}",
    "LEMC_HTTP_DOWNLOAD_BASE_URL=" ++ downloadBaseUrl r.uuid r.page r.scope]

def build (r : Request) (book : Cookbook) : Except RequestError Job := do
  match book.findRecipe? r.page r.recipe with
  | none => throw (.recipeNotFound r.page r.recipe)
  | some recipe =>
    let form ← formVariables r.form
    return {
      entity := r.entity
      uuid := r.uuid
      cookbookId := if r.entity = .cookbook then r.entityId else ""
      appId := if r.entity = .app then r.entityId else ""
      userId := toString r.userId
      username := r.username
      pageId := toString r.page
      stepId := ""
      scope := r.scope.text
      env := book.environment.private ++ book.environment.public ++ form ++
        r.systemVariables recipe
      containerTimeoutSecs := 0
      recipe
      recipients := if r.scope = .shared then r.recipients else [] }

end Request

/-- The variables that the system sets for a step. -/
def Job.stepVariables (job : Job) (step : Step) : List String :=
  let id := s!"uuid-{job.uuid}-pageid-{job.pageId}-scope-{job.scope}"
  ["PYTHONUNBUFFERED=1", s!"LEMC_STEP_ID={step.step}", s!"LEMC_HTML_ID={id}-html",
    s!"LEMC_CSS_ID={id}-style", s!"LEMC_JS_ID={id}-script"]

def Job.stepEnv (job : Job) (step : Step) : List String :=
  job.env ++ job.stepVariables step ++ step.vars

end Galley
