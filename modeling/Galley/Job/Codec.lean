import Galley.Job
import Galley.Recipe.Codec
/-!
# Jobs in JSON
-/
namespace Galley

open Json Json.Decoder Json.Fields

def Scope.decode : Decoder Scope :=
  name [("individual", .individual), ("shared", .shared)]

def Scope.encode (s : Scope) : Json := .string s.text

def Entity.decode : Decoder Entity :=
  name [("app", .app), ("cookbook", .cookbook)]

def Entity.encode (e : Entity) : Json := .string e.text

def QueueName.decode : Decoder QueueName :=
  name [("now", .now), ("in", .delayed), ("every", .recurring)]

def QueueName.encode (q : QueueName) : Json := .string q.text

def Job.decode : Decoder Job :=
  .record "JobRecipe" (Job.mk <$> field "job_type" Entity.decode <*> field "uuid" string
    <*> fieldD "cookbook_id" string "" <*> fieldD "app_id" string "" <*> field "user_id" string
    <*> fieldD "username" string "" <*> field "page_id" string <*> fieldD "step_id" string ""
    <*> field "scope" string <*> fieldD "env" (list string) []
    <*> fieldD "container_timeout_secs" u64 0 <*> field "recipe" Recipe.decode
    <*> fieldD "recipient_user_ids" (list i64) [])

def Job.encode (j : Job) : Json :=
  .object ([("job_type", j.entity.encode), ("uuid", .string j.uuid),
    ("cookbook_id", .string j.cookbookId), ("app_id", .string j.appId),
    ("user_id", .string j.userId), ("username", .string j.username),
    ("page_id", .string j.pageId), ("step_id", .string j.stepId), ("scope", .string j.scope),
    ("env", .strings j.env), ("container_timeout_secs", .nat j.containerTimeoutSecs),
    ("recipe", j.recipe.encode)] ++
    memberUnless j.recipients.isEmpty "recipient_user_ids" (.array (j.recipients.map .int)))

def StepJob.decode : Decoder StepJob :=
  .record "StepJob" (StepJob.mk <$> field "step" Step.decode <*> field "recipe_job" Job.decode)

def StepJob.encode (s : StepJob) : Json :=
  .object [("step", s.step.encode), ("recipe_job", s.job.encode)]

def Options.decode : Decoder Options :=
  .record "JobOptions" (Options.mk <$> field "MaxRetries" u32 <*> field "RetryInterval" u64
    <*> field "Replace" bool <*> field "Suspended" bool)

def Options.encode (o : Options) : Json :=
  .object [("MaxRetries", .nat o.maxRetries), ("RetryInterval", .nat o.retryInterval),
    ("Replace", .bool o.replace), ("Suspended", .bool o.suspended)]

def Task.encode : Task → Json
  | .recipe job => job.encode
  | .step job => job.encode

end Galley
