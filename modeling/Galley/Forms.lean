import Galley.Cookbook.Codec
import Galley.Job.Codec
import Galley.Message.Catalog
import Galley.Message.Progress
import Galley.Message.Rpc
/-!
# Forms

Every kind of value that is kept in files or sent in messages, by the name of its form. A value of a
form can be read and written anew, which leaves the form's own way to write it.
-/
namespace Galley.Form

/-- What reads a value and writes it anew. -/
abbrev Recoder := Json → Except Json.DecodeError Json

def through {α : Type} (decode : Json.Decoder α) (encode : α → Json) : Recoder :=
  fun j => (decode j).map encode

/-- The forms of jobs and cookbooks. -/
def kept : List (String × Recoder) := [
  ("step", through Step.decode Step.encode),
  ("recipe", through Recipe.decode Recipe.encode),
  ("form_field", through FormField.decode FormField.encode),
  ("job", through Job.decode Job.encode),
  ("step_job", through StepJob.decode StepJob.encode),
  ("options", through Options.decode Options.encode),
  ("environment", through Environment.decode Environment.encode),
  ("page", through Page.decode Page.encode),
  ("cookbook", through Cookbook.decode Cookbook.encode),
  ("scope", through Scope.decode Scope.encode),
  ("job_type", through Entity.decode Entity.encode),
  ("queue_name", through QueueName.decode QueueName.encode)]

/-- The parameters of requests. -/
def params : List (String × Recoder) := [
  ("tool_call", through Catalog.ToolCall.decode Catalog.ToolCall.encode),
  ("run_params", through Catalog.RunParams.decode Catalog.RunParams.encode),
  ("apps_params", through Catalog.AppsParams.decode Catalog.AppsParams.encode),
  ("read_params", through Catalog.ReadParams.decode Catalog.ReadParams.encode)]

/-- The forms of messages. -/
def sent : List (String × Recoder) := [
  ("hub_message", through Progress.decode Progress.encode),
  ("rpc_request", through Rpc.Request.decode Rpc.Request.encode),
  ("rpc_response", through Rpc.Response.decode Rpc.Response.encode),
  ("tool_descriptor", through Catalog.Tool.decode Catalog.Tool.encode),
  ("apps_result", through Catalog.AppsResult.decode Catalog.AppsResult.encode),
  ("page_info", through Catalog.PageInfo.decode Catalog.PageInfo.encode),
  ("resource_descriptor", through Catalog.Resource.decode Catalog.Resource.encode),
  ("resource_content", through Catalog.Content.decode Catalog.Content.encode)]

def ofName? (name : String) : Option Recoder :=
  ((kept ++ params ++ sent).find? (·.1 = name)).map (·.2)

end Galley.Form
