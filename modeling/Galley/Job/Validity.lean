import Galley.Job
/-!
# Validity of jobs

What a job must have to be submitted or filed. Fields are looked at in a fixed order and the first
fault is reported.
-/
namespace Galley

structure ValidationError where
  field : String
  detail : String
  deriving DecidableEq, Repr

def ValidationError.message (e : ValidationError) : String :=
  s!"job validation error for {e.field}: {e.detail}"

def requireText (text field detail : String) : Except ValidationError Unit :=
  if text = "" then .error ⟨field, detail⟩ else .ok ()

namespace Job

def validate (job : Job) : Except ValidationError Unit := do
  requireText job.uuid "recipe_uuid" "recipe UUID is empty"
  requireText job.userId "recipe_user_id" "recipe user ID is empty"
  requireText job.pageId "recipe_page_id" "recipe page ID is empty"
  requireText job.scope "recipe_scope" "recipe scope is empty"
  match job.parsedScope with
  | .ok _ => .ok ()
  | .error _ => .error ⟨"recipe_scope",
      s!"recipe scope '{job.scope}' is not valid (must be 'individual' or 'shared')"⟩

end Job

namespace Step

def validate (s : Step) : Except ValidationError Unit := do
  requireText s.name "step_name" "step name is empty"
  requireText s.image "step_image" "step image is empty"
  match StepTrigger.parse s.trigger with
  | .error e => throw ⟨"step_do", s!"step {s.step}: " ++ e.message⟩
  | .ok _ =>
    if s.timeout = "" then return
    match parseTimeout s.timeout with
    | .error e => throw ⟨"step_timeout", s!"step {s.step}: " ++ e.message⟩
    | .ok _ => return

end Step

def StepJob.validate (s : StepJob) : Except ValidationError Unit := do
  requireText s.step.name "step_name" "step name is empty"
  requireText s.step.image "step_image" "step image is empty"
  s.job.validate

/-- A submission is valid when its job and all its steps are. -/
def Job.validateSubmission (job : Job) : Except ValidationError Unit := do
  job.validate
  job.recipe.steps.forM Step.validate

def Filed.validate (f : Filed) : Except ValidationError Unit := do
  requireText f.key "job_key_name" "job key name is empty"
  match f.task with
  | .recipe job => job.validate
  | .step job => job.validate

end Galley
