import Galley.Json.Printer
/-!
# Errors shown to users

An error with a code for machines, a message for people and free-form data about the case.
-/
namespace Galley

structure UserError where
  code : String
  message : String
  data : List (String × Json)
  deriving Repr

namespace UserError

/-- The images that are neither here nor to be had. -/
def missingImages (images : List String) : UserError where
  code := "MISSING_IMAGES"
  message := "Cannot execute job: Missing Docker images: " ++ ", ".intercalate images
  data := [("images", .strings images)]

@[simp] theorem code_missingImages (images : List String) :
    (missingImages images).code = "MISSING_IMAGES" := rfl

@[simp] theorem data_missingImages (images : List String) :
    (missingImages images).data = [("images", .array (images.map .string))] := rfl

def display (e : UserError) : String :=
  s!"{e.code}: {e.message}"

def encode (e : UserError) : Json :=
  .object [("error", .object [("code", .string e.code), ("data", .object e.data),
    ("message", .string e.message)])]

end UserError

end Galley
