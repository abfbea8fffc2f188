import Galley.AppServer
import Galley.Submission
/-!
# Answering requests of clients

A request to the server of an app is answered by a process, since it may submit a job.
-/
namespace Galley

open Process in
def AppServer.respond (s : AppServer) (locker : Locker) (appsPath : String) (user : ApiUser)
    (r : Rpc.Request) : Process Rpc.Response := do
  let apps ← perform (.readApps appsPath)
  match s.handle (apps.mapError (AppsError.message appsPath)) user r with
  | .now response => return response
  | .launch job finish =>
    let result ← job.submit locker
    return finish (result.mapError SubmitError.message)

end Galley
