import Galley.Daemon.Program
import Galley.Report.Failure
/-!
# The command

Checks the configuration that a daemon would start with here, from the variables of the process, the
file of variables and the settings file. It is shown on the standard output; a complaint goes to the
standard error and ends the command with code 1.
-/
namespace Galley.Console

def variableNames : List String :=
  ["LEMC_DATA", "LEMC_CONFIG", "LEMC_LOCKER", "LEMC_QUEUES", "LEMC_BIND", "LEMC_HOST_LOCKER_PATH",
    "LEMC_DOCKER_HOST", "LEMC_WORKER_LIMIT", "LEMC_POLL_MS", "LEMC_OUTDATED_MS",
    "LEMC_DRAIN_TIMEOUT_MS", "LEMC_APPS_FILE", "XDG_DATA_HOME", "HOME"]

/-- Adds a file to those that were read, if it is there. -/
def readInto (files : Files) (path : String) : IO Files := do
  try
    let bytes ← IO.FS.readBinFile (Path.join files.here path)
    return files.put path bytes.toList
  catch _ => return files

def settingsPaths (vars : Variables) : List String :=
  let home := (Config.dataHome? vars).map (Path.join · "lemc")
  let dir := (Config.nonempty vars "LEMC_DATA").orElse fun _ => home
  (Config.nonempty vars "LEMC_CONFIG").toList ++ (dir.map (Path.join · "lemc.toml")).toList

end Galley.Console

open Galley Galley.Console in
def main : IO UInt32 := do
  let here := (← IO.currentDir).toString
  let given ← variableNames.filterMapM fun name => do
    return (← IO.getEnv name).map (name, ·)
  let start : Files := ⟨Node.empty, here⟩
  let candidates := (Program.upwards (Path.parts here).reverse).map (Path.join · ".env")
  let files ← candidates.foldlM readInto start
  let some vars := Program.withFile? given files | return 101
  let vars := EnvFile.find? vars
  let files ← (settingsPaths vars).foldlM readInto files
  match Config.load vars files with
  | .ok c =>
    IO.println (report c).pretty
    return 0
  | .error e =>
    IO.eprintln ("lemcd: " ++ e.message)
    return 1
