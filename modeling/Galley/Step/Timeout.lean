import Galley.Job
/-!
# How long a step may take
-/
namespace Galley

/-- How long a step may take when nothing is said about it. -/
def standardStepTimeout : Duration := .ofSeconds 600

/-- The step's own time, else the job's, else the standard one. -/
def Job.stepTimeout (job : Job) (step : Step) : Except TriggerError Duration :=
  if step.timeout ≠ "" then parseTimeout step.timeout
  else if 0 < job.containerTimeoutSecs then .ok (.ofSeconds job.containerTimeoutSecs)
  else .ok standardStepTimeout

end Galley
