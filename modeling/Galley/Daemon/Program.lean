import Galley.Daemon
import Galley.EnvFile
/-!
# The program

The daemon as a program: it takes its variables from the environment and from a file beside them,
resolves its configuration, opens its log, finds the container engine and starts. What goes wrong
before there is a log is told as a complaint; what goes wrong later is only in the log. A run that
asks for what no system can give breaks off without a word.
-/
namespace Galley.Program

/-- How a run ended, or how far it came before it was told to stop. -/
structure Outcome where
  code : Nat
  complaint : Option String
  /-- Where it listened, if it came so far. -/
  listened : Option Address

/-- The end of a run that breaks off. -/
def Outcome.broken : Outcome := ⟨101, none, none⟩

/-- The directories from the innermost to the root, for a path by its parts in reverse. -/
def upwards : List String → List String
  | [] => ["/"]
  | part :: above => ("/" ++ "/".intercalate (part :: above).reverse) :: upwards above

def isFile (files : Files) (path : String) : Bool :=
  match files.get path with
  | .ok (.file _) => true
  | _ => false

/-- The nearest file of variables in the working directory or above it. -/
def envFile? (files : Files) : Option String :=
  ((upwards (Path.parts files.here).reverse).map (Path.join · ".env")).find? (isFile files)

/-- The variables of a process with those of the file, if they can be set. -/
def withFile? (vars : EnvFile.Assignments) (files : Files) : Option EnvFile.Assignments :=
  match (envFile? files).map files.readText with
  | some (.ok (some text)) => EnvFile.load? vars text
  | _ => some vars

/-- What the name of an engine starts with that is asked over a socket. -/
def socketScheme : String := "unix://"

def standardSocket : String := "/var/run/docker.sock"

def localSocket (env : Variables) : String :=
  ((env "DOCKER_HOST").bind (·.after? socketScheme)).getD standardSocket

/-- Whether the engine can be asked that the configuration names, or else the local one. A socket
has to be there; any other place is not asked yet. -/
def findsEngine (env : Variables) (host : Option String) (files : Files) : Bool :=
  match host with
  | none => files.exist (localSocket env)
  | some host => (host.after? socketScheme).all files.exist

def openLog (c : Config) (day : String) (files : Files) : Bool × Files :=
  match files.makeDirs c.logDir with
  | (.error _, files) => (false, files)
  | (.ok _, files) =>
    match files.append (Path.join c.logDir ("lemcd.log." ++ day)) [] with
    | .error _ => (false, files)
    | .ok files => (true, files)

def complain (text : String) : Outcome :=
  ⟨1, some ("lemcd: " ++ text), none⟩

/-- What the program does once its log is open. -/
def serve (env : Variables) (c : Config) (m : Machine) : Outcome × Machine :=
  if !findsEngine env c.dockerHost m.files then (⟨1, none, none⟩, m)
  else match Daemon.start c m with
    | (.error .tooManyWorkers, m) => (.broken, m)
    | (.error _, m) => (⟨1, none, none⟩, m)
    | (.ok d, m) => (⟨0, none, some d.address⟩, d.stop m)

def run (vars : EnvFile.Assignments) (day : String) (m : Machine) : Outcome × Machine :=
  match (withFile? vars m.files).map EnvFile.find? with
  | none => (.broken, m)
  | some env =>
    match Config.load env m.files with
    | .error e => (complain e.message, m)
    | .ok c =>
      match openLog c day m.files with
      | (false, files) =>
        (complain ("failed to set up logging in " ++ c.logDir), { m with files })
      | (true, files) => serve env c { m with files }

end Galley.Program
