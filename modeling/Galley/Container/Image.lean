import Galley.Text.Blank
import Galley.Text.Split
/-!
# Image references

The full form of an image reference, so that short and long spellings of one image agree: a missing
tag is `latest`, a bare name is in the official library, and a first part that is no registry host
is on the official registry. Also the short form of an image's id and the credentials for a pull.
-/
namespace Galley.Image

/-- A first part that names a registry: it has a dot or a colon, or is the local host. -/
def isRegistryHost (part : List Char) : Bool :=
  part.contains '.' || part.contains ':' || part == "localhost".toList

/-- The text after the last `mark`, or all of it. -/
def afterLast (mark : Char) (cs : List Char) : List Char :=
  (cs.reverse.takeWhile (· ≠ mark)).reverse

/-- Splits a reference without digest into the name and the tag, which stands after the last colon
of the last part. -/
def nameAndTag (reference : List Char) : List Char × List Char :=
  let last := afterLast '/' reference
  if last.contains ':' then
    let tag := afterLast ':' last
    (reference.take (reference.length - tag.length - 1), tag)
  else (reference, "latest".toList)

def qualified (name : List Char) : List Char :=
  match Text.cutAt? '/' name with
  | none => "docker.io/library/".toList ++ name
  | some (first, _) => if isRegistryHost first then name else "docker.io/".toList ++ name

def normalizeTrimmed (image : List Char) : List Char :=
  match Text.cutAt? '@' image with
  | some (reference, digest) => qualified (nameAndTag reference).1 ++ '@' :: digest
  | none =>
    let (name, tag) := nameAndTag image
    qualified name ++ ':' :: tag

def normalize (image : String) : String :=
  String.ofList (normalizeTrimmed (Text.trim image.toList))

/-- The first eight characters of an id without the name of its digest. -/
def shortId (id : String) : String :=
  String.ofList (((Text.after? "sha256:".toList id.toList).getD id.toList).take 8)

structure Auth where
  username : String
  password : String
  deriving DecidableEq, Repr

/-- Reads `user:password`, with or without the name of the scheme. -/
def Auth.parse? (text : String) : Option Auth := do
  let rest := (text.after? "basic:").getD text
  let (username, password) ← rest.cutAt? ':'
  if username.isEmpty then none else some ⟨username, password⟩

end Galley.Image
