import Galley.Files
import Galley.Step.Command
import Galley.Text.Utf8
/-!
# Cached files

What a page shows is kept in three files, so that a browser that comes back can replay it. A payload
replaces the content of a file or is appended to it as one line.
-/
namespace Galley

structure FileFault where
  action : String
  path : String
  deriving DecidableEq, Repr

/-- A piece of work on files, which may fail after a part of it is done. -/
abbrev FileWork (α : Type) := Files → Except FileFault α × Files

namespace FileWork

/-- One step of the work: a change that is done or not. -/
def step (action path : String) (change : Files → Except FileError Files) : FileWork Unit :=
  fun files =>
    match change files with
    | .error _ => (.error ⟨action, path⟩, files)
    | .ok files => (.ok (), files)

def makeDirs (path : String) : FileWork Unit := fun files =>
  match files.makeDirs path with
  | (.error _, files) => (.error ⟨"create", path⟩, files)
  | (.ok _, files) => (.ok (), files)

/-- One piece of work and then another, unless the first one fails. -/
def andThen {α : Type} (a : FileWork Unit) (b : FileWork α) : FileWork α := fun files =>
  match a files with
  | (.error e, files) => (.error e, files)
  | (.ok _, files) => b files

end FileWork

namespace Cache

open FileWork

def path (dir : String) (kind : CacheKind) : String :=
  Path.join dir kind.fileName

/-- Makes the directory and those of the files that are not there. -/
def create (dir : String) : FileWork Unit :=
  CacheKind.all.foldl (fun work kind =>
    work.andThen (step "open" (path dir kind) (·.append (path dir kind) []))) (makeDirs dir)

/-- Makes the payload the whole content of a file. -/
def replace (dir : String) (kind : CacheKind) (payload : String) : FileWork Unit :=
  step "truncate" (path dir kind) (·.write (path dir kind) payload.utf8)

/-- Appends the payload as one line. -/
def append (dir : String) (kind : CacheKind) (payload : String) : FileWork Unit :=
  step "open" (path dir kind) (·.append (path dir kind) (payload ++ "\n").utf8)

def write (dir : String) (w : CacheWrite) (payload : String) : FileWork Unit :=
  match w with
  | .replace kind => replace dir kind payload
  | .append kind => append dir kind payload

def read (dir : String) (kind : CacheKind) (files : Files) : Except FileFault String :=
  match files.readText (path dir kind) with
  | .ok (some text) => .ok text
  | _ => .error ⟨"read", path dir kind⟩

end Cache

namespace CacheWrite

def kind : CacheWrite → CacheKind
  | .replace kind => kind
  | .append kind => kind

/-- The content of the written file, of which `content` is the old one. -/
def contentAfter (w : CacheWrite) (payload : String) (content : List UInt8) : List UInt8 :=
  match w with
  | .replace _ => payload.utf8
  | .append _ => content ++ (payload ++ "\n").utf8

end CacheWrite

end Galley
