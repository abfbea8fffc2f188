/-!
# Recipes

A recipe is a named sequence of steps, each of which runs one container image.
-/
namespace Galley

structure Step where
  step : Nat
  name : String
  image : String
  registryAuth : String
  entrypoint : List String
  command : List String
  env : List String
  environment : List String
  /-- When the step runs, as its author wrote it. -/
  trigger : String
  timeout : String
  deriving DecidableEq, Repr, Inhabited

/-- The variables of a step: the newer list when it is there, the older one otherwise. -/
def Step.vars (s : Step) : List String :=
  if s.environment.isEmpty then s.env else s.environment

/-- One field of the form that is filled in to run a recipe. -/
structure FormField where
  variableName : String
  name : String
  description : String
  kind : String
  deriving DecidableEq, Repr, Inhabited

/-- The variable that the field fills: the newer name when it is there, the older one otherwise. -/
def FormField.envName (f : FormField) : String :=
  if f.variableName.isEmpty then f.name else f.variableName

structure Recipe where
  name : String
  description : String
  form : List FormField
  steps : List Step
  deriving DecidableEq, Repr, Inhabited

end Galley
