import Galley.Address
import Galley.Config.Toml
import Galley.Files
import Galley.Settings
import Galley.Text.Blank
import Galley.Text.Quoted
/-!
# Configuration

Where the daemon keeps its data, where it listens and how its engine works. The environment wins
over the settings file, and the file wins over what is standard. Only the environment says where the
data and the file are, since the file cannot name its own place.
-/
namespace Galley

structure Config where
  dataDir : String
  lockerDir : String
  queuesDir : String
  /-- The locker as the containers' host sees it. -/
  hostLocker : Option String
  dockerHost : Option String
  bind : Address
  settings : Settings
  appsFile : String
  deriving DecidableEq, Repr

inductive ConfigError
  | noDataDir
  | read (path : String)
  | parse (path : String)
  | invalid (key value : String)
  deriving DecidableEq, Repr

def ConfigError.message : ConfigError → String
  | .noDataDir => "no data directory: set LEMC_DATA"
  | .read path => "failed to read config " ++ path
  | .parse path => "invalid config " ++ path
  | .invalid key value => "invalid value for " ++ key ++ ": " ++ value.quoted

abbrev Variables := String → Option String

structure SettingsFile where
  locker : Option String := none
  queues : Option String := none
  hostLocker : Option String := none
  dockerHost : Option String := none
  bind : Option String := none
  workers : Option Nat := none
  pollMillis : Option Nat := none
  outdatedMillis : Option Nat := none
  drainMillis : Option Nat := none
  appsFile : Option String := none
  deriving DecidableEq, Repr

namespace SettingsFile

/-- Takes over an assignment. Every key has its own kind of value, and counts are not negative. -/
def assign? (f : SettingsFile) : String × Toml.Value → Option SettingsFile
  | ("locker", .text s) => some { f with locker := some s }
  | ("queues", .text s) => some { f with queues := some s }
  | ("host_locker_path", .text s) => some { f with hostLocker := some s }
  | ("docker_host", .text s) => some { f with dockerHost := some s }
  | ("bind", .text s) => some { f with bind := some s }
  | ("worker_limit", .whole (.ofNat n)) => some { f with workers := some n }
  | ("poll_ms", .whole (.ofNat n)) => some { f with pollMillis := some n }
  | ("outdated_ms", .whole (.ofNat n)) => some { f with outdatedMillis := some n }
  | ("drain_timeout_ms", .whole (.ofNat n)) => some { f with drainMillis := some n }
  | ("apps_file", .text s) => some { f with appsFile := some s }
  | _ => none

def ofText? (s : String) : Option SettingsFile := do
  (← Toml.ofText? s).foldlM assign? {}

def read (files : Files) (path : String) : Except ConfigError SettingsFile :=
  match files.readText path with
  | .ok (some text) =>
    match ofText? text with
    | some f => .ok f
    | none => .error (.parse path)
  | _ => .error (.read path)

end SettingsFile

namespace Config

def standardBind : String := "127.0.0.1:5362"

/-- The directory for the data of a user's programs. -/
def dataHome? (env : Variables) : Option String :=
  match (env "XDG_DATA_HOME").filter (·.startsWith "/") with
  | some dir => some dir
  | none => ((env "HOME").filter (· ≠ "")).map (Path.join · ".local/share")

/-- A count that a variable gives, or else the file, or else the standard. -/
def number (env : Variables) (key : String) (inFile : Option Nat) (standard : Nat) :
    Except ConfigError Nat :=
  match env key with
  | none => .ok (inFile.getD standard)
  | some text =>
    match text.trimBlanks.count? Text.Numeral.maxU64 with
    | some n => .ok n
    | none => .error (.invalid key text)

/-- The settings file: the one that is named, which must be there, or the data directory's own. -/
def settingsFile (env : Variables) (dataDir : String) (files : Files) :
    Except ConfigError SettingsFile :=
  match env "LEMC_CONFIG" with
  | some path => SettingsFile.read files path
  | none =>
    let path := Path.join dataDir "lemc.toml"
    if files.exist path then SettingsFile.read files path else .ok {}

def engineSettings (env : Variables) (f : SettingsFile) : Except ConfigError Settings := do
  let workers ← number env "LEMC_WORKER_LIMIT" f.workers 10
  let poll ← number env "LEMC_POLL_MS" f.pollMillis 250
  let outdated ← number env "LEMC_OUTDATED_MS" f.outdatedMillis 1000
  let drain ← number env "LEMC_DRAIN_TIMEOUT_MS" f.drainMillis 5000
  return ⟨workers, .ofMillis poll, .ofMillis outdated, .ofMillis drain⟩

/-- The configuration from the environment and the files. The first of several problems counts: the
file, the address, then the counts. -/
def resolve (env : Variables) (dataHome : Option String) (files : Files) :
    Except ConfigError Config := do
  let dataDir ← match env "LEMC_DATA", dataHome with
    | some dir, _ => pure dir
    | none, some home => pure (Path.join home "lemc")
    | none, none => throw .noDataDir
  let f ← settingsFile env dataDir files
  let either (key : String) (inFile : Option String) : Option String :=
    (env key).orElse fun _ => inFile
  let lockerDir := (either "LEMC_LOCKER" f.locker).getD (Path.join dataDir "locker")
  let bindText := (either "LEMC_BIND" f.bind).getD standardBind
  let bind ← match Address.ofText? bindText with
    | some a => pure a
    | none => throw (.invalid "LEMC_BIND" bindText)
  let settings ← engineSettings env f
  return {
    dataDir
    lockerDir
    queuesDir := (either "LEMC_QUEUES" f.queues).getD (Path.join lockerDir "queues")
    hostLocker := either "LEMC_HOST_LOCKER_PATH" f.hostLocker
    dockerHost := either "LEMC_DOCKER_HOST" f.dockerHost
    bind
    settings
    appsFile := (either "LEMC_APPS_FILE" f.appsFile).getD (Path.join dataDir "apps.json") }

/-- Variables of a process, where an empty one counts as none. -/
def nonempty (env : Variables) : Variables :=
  fun key => (env key).filter (· ≠ "")

def load (env : Variables) (files : Files) : Except ConfigError Config :=
  resolve (nonempty env) (dataHome? env) files

def lockPath (c : Config) : String :=
  Path.join c.dataDir "lemcd.lock"

def logDir (c : Config) : String :=
  Path.join c.dataDir "logs"

end Config

end Galley
