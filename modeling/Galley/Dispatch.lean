import Galley.Process
/-!
# Dispatch

How a due task is handed out. The first task of a queue is popped and only then looked at: one that
is not due yet goes back, and one that recurs is filed again for its next fire.
-/
namespace Galley.Dispatch

open Process

/-- Puts back a task that was popped too early. A key in the queue for runs at once stays marked. -/
def putBack (queue : QueueName) (f : Filed) : Process Unit := do
  if queue ≠ .now then perform (.unmark f.key)
  let _ ← perform (.refile queue f)
  return ()

/-- Files a task that recurs for its next fire. -/
def recur (queue : QueueName) (f : Filed) (now : Int) : Process Unit := do
  match f.trigger.nextFire f.nextRun now with
  | none => return ()
  | some time =>
    let _ ← perform (.refile queue { f with nextRun := time })
    return ()

/-- Hands out the first task of a queue if it is due. -/
def popDue (queue : QueueName) : Process (Option Filed) := do
  match ← perform (.pop queue) with
  | .error _ => return none
  | .ok f =>
    let now ← perform .now
    if now < f.nextRun then
      putBack queue f
      return none
    else
      recur queue f now
      return some f

end Galley.Dispatch
