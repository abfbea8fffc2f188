import Galley.Job
/-!
# Routes

Who receives the messages of a job: the submitting user of an individual job, every resolved
recipient of a shared one, and the clients of the app that it belongs to.
-/
namespace Galley

/-- One message on its way to a user's pages or to an app's clients. -/
inductive Delivery
  | user (id : Int) (text : String)
  | app (id : Int) (text : String)
  deriving DecidableEq, Repr

structure Route where
  users : List Int
  app : Option Int
  deriving DecidableEq, Repr

namespace Route

def ofJob (job : Job) : Route where
  users := match job.parsedScope with
    | .ok .individual => job.userId.integer?.toList
    | .ok .shared => job.recipients
    | .error _ => []
  app := if job.appId.isEmpty then none else job.appId.integer?

def isEmpty (r : Route) : Bool :=
  r.users.isEmpty && r.app.isNone

/-- The deliveries of one message, users first. -/
def deliveries (r : Route) (text : String) : List Delivery :=
  r.users.map (.user · text) ++ (r.app.map (Delivery.app · text)).toList

end Route

end Galley
