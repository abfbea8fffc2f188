import Galley.Json.Check
import Galley.Json.Decode
import Galley.Recipe
/-!
# Recipes in JSON

The members of steps, form fields and recipes, in their order, with those that are left out when
empty, and what a text has to hold for them.
-/
namespace Galley

open Json Json.Decoder Json.Fields

def Step.decode : Decoder Step :=
  .record "Step" (Step.mk <$> field "step" u32 <*> field "name" string <*> field "image" string
    <*> fieldD "registry_auth" string "" <*> fieldD "entrypoint" (list string) []
    <*> fieldD "command" (list string) [] <*> fieldD "env" (list string) []
    <*> fieldD "environment" (list string) [] <*> field "do" string <*> fieldD "timeout" string "")

def Step.check : Check :=
  let texts := Check.list Check.string
  .record "Step" [.field "step" Check.u32, .field "name" Check.string, .field "image" Check.string,
    .fieldD "registry_auth" Check.string, .fieldD "entrypoint" texts, .fieldD "command" texts,
    .fieldD "env" texts, .fieldD "environment" texts, .field "do" Check.string,
    .fieldD "timeout" Check.string]

def Step.encode (s : Step) : Json :=
  .object ([("step", .nat s.step), ("name", .string s.name), ("image", .string s.image)] ++
    memberUnless s.registryAuth.isEmpty "registry_auth" (.string s.registryAuth) ++
    memberUnless s.entrypoint.isEmpty "entrypoint" (.strings s.entrypoint) ++
    memberUnless s.command.isEmpty "command" (.strings s.command) ++
    memberUnless s.env.isEmpty "env" (.strings s.env) ++
    memberUnless s.environment.isEmpty "environment" (.strings s.environment) ++
    [("do", .string s.trigger), ("timeout", .string s.timeout)])

def FormField.decode : Decoder FormField :=
  .record "FormField" (FormField.mk <$> fieldD "variable" string "" <*> fieldD "name" string ""
    <*> fieldD "description" string "" <*> fieldD "type" string "")

def FormField.check : Check :=
  .record "FormField" [.fieldD "variable" Check.string, .fieldD "name" Check.string,
    .fieldD "description" Check.string, .fieldD "type" Check.string]

def FormField.encode (f : FormField) : Json :=
  .object (memberUnless f.variableName.isEmpty "variable" (.string f.variableName) ++
    memberUnless f.name.isEmpty "name" (.string f.name) ++
    memberUnless f.description.isEmpty "description" (.string f.description) ++
    [("type", .string f.kind)])

/-- A recipe's name goes by two keys. -/
def Recipe.decode : Decoder Recipe :=
  .record "Recipe" (Recipe.mk <$> fieldWith ["recipe", "name"] string none
    <*> fieldD "description" string "" <*> fieldD "form" (list FormField.decode) []
    <*> fieldD "steps" (list Step.decode) [])

def Recipe.check : Check :=
  .record "Recipe" [⟨["recipe", "name"], Check.string, true⟩, .fieldD "description" Check.string,
    .fieldD "form" (Check.list FormField.check), .fieldD "steps" (Check.list Step.check)]

def Recipe.encode (r : Recipe) : Json :=
  .object ([("recipe", .string r.name)] ++
    memberUnless r.description.isEmpty "description" (.string r.description) ++
    memberUnless r.form.isEmpty "form" (.array (r.form.map FormField.encode)) ++
    [("steps", .array (r.steps.map Step.encode))])

end Galley
