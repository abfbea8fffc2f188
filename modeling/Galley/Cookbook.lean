import Galley.Recipe
import Galley.Text.Base64
import Galley.Text.Blank
import Galley.Text.Utf8
/-!
# Cookbooks

Pages of recipes with the variables that all of them get, and one wiki text for each page that has
one, kept in Base64 and in the order of the page numbers.
-/
namespace Galley

structure Environment where
  «public» : List String
  «private» : List String
  deriving DecidableEq, Repr, Inhabited

structure Page where
  page : Nat
  name : String
  recipes : List Recipe
  deriving DecidableEq, Repr, Inhabited

structure Cookbook where
  environment : Environment
  pages : List Page
  wikis : List (Nat × String)
  deriving DecidableEq, Repr, Inhabited

namespace Cookbook

def empty : Cookbook := ⟨⟨[], []⟩, [], []⟩

/-- Puts a wiki into wikis in page order, in the place of an earlier one for the page. -/
def insertWiki (page : Nat) (text : String) : List (Nat × String) → List (Nat × String)
  | [] => [(page, text)]
  | (p, t) :: rest =>
    if page < p then (page, text) :: (p, t) :: rest
    else if page = p then (page, text) :: rest
    else (p, t) :: insertWiki page text rest

/-- The first recipe of this name on the pages of this number. -/
def findRecipe? (book : Cookbook) (page : Nat) (name : String) : Option Recipe :=
  ((book.pages.filter (·.page = page)).flatMap (·.recipes)).find? (·.name = name)

def storedWiki? (book : Cookbook) (page : Nat) : Option String :=
  (book.wikis.find? (·.1 = page)).map (·.2)

/-- The wiki of a page: its decoded text, or why it cannot be decoded. -/
def wiki? (book : Cookbook) (page : Nat) : Option (Except Text.Base64.Error String) :=
  (book.storedWiki? page).map fun stored =>
    (Text.Base64.decode stored.trimBlanks.utf8).map String.ofUtf8Lossy

end Cookbook

end Galley
