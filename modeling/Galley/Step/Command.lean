import Galley.Text.Split
/-!
# Commands in a step's output

A line of a container's output may start with a command, which changes one of the three cached files
of the page, reports a failure or announces a variable. Everything after the command's word is its
payload.
-/
namespace Galley

/-- The cached files of a page. -/
inductive CacheKind
  | html
  | css
  | js
  deriving DecidableEq, Repr

def CacheKind.all : List CacheKind := [.html, .css, .js]

def CacheKind.fileName : CacheKind → String
  | .html => "cache.html"
  | .css => "cache.css"
  | .js => "cache.js"

inductive Command
  | cssTrunc
  | cssAppend
  | cssBuffer
  | htmlTrunc
  | htmlAppend
  | htmlBuffer
  | jsExec
  | jsTrunc
  | err
  | env
  deriving DecidableEq, Repr

/-- How a command changes a cached file. -/
inductive CacheWrite
  | replace (kind : CacheKind)
  | append (kind : CacheKind)
  deriving DecidableEq, Repr

namespace Command

def all : List Command :=
  [.cssTrunc, .cssAppend, .cssBuffer, .htmlTrunc, .htmlAppend, .htmlBuffer, .jsExec, .jsTrunc,
    .err, .env]

/-- The word that a line with this command starts with. -/
def word : Command → String
  | .cssTrunc => "lemc.css.trunc;"
  | .cssAppend => "lemc.css.append;"
  | .cssBuffer => "lemc.css.buffer;"
  | .htmlTrunc => "lemc.html.trunc;"
  | .htmlAppend => "lemc.html.append;"
  | .htmlBuffer => "lemc.html.buffer;"
  | .jsExec => "lemc.js.exec;"
  | .jsTrunc => "lemc.js.trunc;"
  | .err => "lemc.err;"
  | .env => "lemc.env;"

def parse? (line : String) : Option (Command × String) :=
  all.findSome? fun c => (line.after? c.word).map (c, ·)

def cacheWrite? : Command → Option CacheWrite
  | .cssTrunc => some (.replace .css)
  | .cssAppend => some (.append .css)
  | .cssBuffer => some (.append .css)
  | .htmlTrunc => some (.replace .html)
  | .htmlAppend => some (.append .html)
  | .htmlBuffer => some (.append .html)
  | .jsExec => some (.replace .js)
  | .jsTrunc => some (.replace .js)
  | .err => none
  | .env => none

/-- A command that empties a part of the page when it has no payload. -/
def isTrunc : Command → Bool
  | .cssTrunc => true
  | .htmlTrunc => true
  | .jsTrunc => true
  | _ => false

theorem mem_all (c : Command) : c ∈ all := by
  cases c <;> simp [all]

end Command

end Galley
