import Galley.Files
import Galley.Job
import Galley.Text.Slug
/-!
# The locker

The directories in which jobs keep files: below the root one directory for each unit of recipes,
below it one for each scope and owner, and below that one for each page and one for logs. The
container engine may see the root under another path; mounts are given in its view. The container of
a step is known by its labels and its name.
-/
namespace Galley

structure Locker where
  root : String
  /-- The root in the view of the container engine, where it differs. -/
  hostRoot : Option String
  deriving DecidableEq, Repr

structure Layout where
  root : String
  bindRoot : String
  uuid : String
  pageId : String
  scope : Scope
  owner : String
  deriving DecidableEq, Repr

structure Mount where
  source : String
  target : String
  deriving DecidableEq, Repr

def Mount.bind (m : Mount) : String :=
  s!"{m.source}:{m.target}"

abbrev Labels := List (String × String)

/-- The owner of a job's files: its user, or nobody for shared ones. -/
def Job.ownerName (job : Job) : Scope → String
  | .individual => s!"{job.username.slug}-{job.userId}"
  | .shared => "shared-user"

def Locker.layout (locker : Locker) (job : Job) : Except ScopeError Layout := do
  let scope ← job.parsedScope
  return ⟨locker.root, locker.hostRoot.getD locker.root, job.uuid, job.pageId, scope,
    job.ownerName scope⟩

namespace Layout

open Galley.Path

def unitDir (l : Layout) (root : String) : String :=
  join root l.uuid

def ownerDir (l : Layout) (root : String) : String :=
  join (join (l.unitDir root) l.scope.text) l.owner

def pageDir (l : Layout) (root : String) : String :=
  join (l.ownerDir root) s!"page-{l.pageId}"

def publicDir (l : Layout) : String := join (l.pageDir l.root) "public"

def privateDir (l : Layout) : String := join (l.pageDir l.root) "private"

def cacheDir (l : Layout) : String := join (l.pageDir l.root) "cache"

def logDir (l : Layout) : String := join (l.ownerDir l.root) "logs"

def logFile (l : Layout) (recipe : String) : String :=
  let page := s!"page-{l.pageId}".slug
  join l.logDir s!"{page}-{recipe.slug}.log"

def sharedDir (l : Layout) : String := join (l.unitDir l.root) "shared"

def globalDir (l : Layout) : String := join (l.unitDir l.root) "global"

/-- The directories that a step may write to, in the order in which they are made. -/
def directories (l : Layout) : List String :=
  [l.publicDir, l.privateDir, l.cacheDir, l.logDir, l.globalDir] ++
    (if l.scope = .shared then [l.sharedDir] else [])

def makeDirs (l : Layout) (files : Files) : Except FileError Unit × Files :=
  l.directories.foldl (fun (result, files) dir =>
    match result with
    | .error e => (.error e, files)
    | .ok _ => files.makeDirs dir) (.ok (), files)

def mounts (l : Layout) : List Mount :=
  let page := l.pageDir l.bindRoot
  let unit := l.unitDir l.bindRoot
  [⟨join page "public", "/lemc/public"⟩, ⟨join page "private", "/lemc/private"⟩,
    ⟨join unit "global", "/lemc/global"⟩] ++
    (if l.scope = .shared then [⟨join unit "shared", "/lemc/shared"⟩] else [])

def labels (l : Layout) (job : Job) (step : Step) : Labels :=
  [("CONTRACT_ID", job.pageId), ("OWNED_BY", "LEMC"), ("RECIPE_NAME", job.recipe.name),
    ("STEP_ID", toString step.step), ("USERNAME", l.owner), ("USER_ID", job.userId),
    ("UUID", job.uuid)]

def containerName (l : Layout) (recipe : String) (step : Step) : String :=
  s!"uuid-{l.uuid}-page-{l.pageId}-recipe-{recipe.slug}-step-{step.step}" ++
    s!"-scope-{l.scope.text}-username-{l.owner}"

end Layout

end Galley
