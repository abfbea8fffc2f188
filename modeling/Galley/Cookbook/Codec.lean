import Galley.Cookbook
import Galley.Json.Reader
import Galley.Recipe.Codec
/-!
# Cookbooks in JSON

The wikis are an object whose keys are page numbers in decimal. There is also what a text has to
hold for a cookbook.
-/
namespace Galley

open Json Json.Decoder Json.Fields

def Environment.decode : Decoder Environment :=
  .record "Environment" (Environment.mk <$> fieldD "public" (list string) []
    <*> fieldD "private" (list string) [])

def Environment.check : Check :=
  .record "Environment" [.fieldD "public" (Check.list Check.string),
    .fieldD "private" (Check.list Check.string)]

def Environment.encode (e : Environment) : Json :=
  .object [("public", .strings e.public), ("private", .strings e.private)]

def Page.decode : Decoder Page :=
  .record "Page" (Page.mk <$> field "page" u32 <*> fieldD "name" string ""
    <*> fieldD "recipes" (list Recipe.decode) [])

def Page.check : Check :=
  .record "Page" [.field "page" Check.u32, .fieldD "name" Check.string,
    .fieldD "recipes" (Check.list Recipe.check)]

def Page.encode (p : Page) : Json :=
  .object [("page", .nat p.page), ("name", .string p.name),
    ("recipes", .array (p.recipes.map Recipe.encode))]

namespace Cookbook

/-- A page number as a key: decimal digits without a needless zero. -/
def pageKey? (key : String) : Option Nat :=
  (key.count? Text.Numeral.maxU32).filter fun n => toString n = key

def decodeWikis : Decoder (List (Nat × String))
  | .object members =>
    members.foldlM (fun wikis (key, j) => do
      match pageKey? key with
      | none => throw (.unknownName key)
      | some page => return insertWiki page (← string j) wikis) []
  | j => refuse j "a map"

def decode : Decoder Cookbook :=
  .record "Cookbook" (Cookbook.mk <$> fieldD "environment" Environment.decode ⟨[], []⟩
    <*> fieldD "pages" (list Page.decode) [] <*> fieldD "wikis" decodeWikis [])

def check : Check :=
  .record "Cookbook" [.fieldD "environment" Environment.check,
    .fieldD "pages" (Check.list Page.check), .fieldD "wikis" (Check.table Check.u32 Check.string)]

def ofText? (s : String) : Option Cookbook :=
  (Json.ofNumberedText? s).bind fun j => (decode j).toOption

def encode (book : Cookbook) : Json :=
  .object [("environment", book.environment.encode), ("pages", .array (book.pages.map Page.encode)),
    ("wikis", .object (book.wikis.map fun (page, text) => (toString page, .string text)))]

end Cookbook

end Galley
