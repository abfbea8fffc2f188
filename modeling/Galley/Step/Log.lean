import Galley.Calendar
import Galley.Step.Cache
/-!
# Step logs

The log of a recipe has a line for each line that a container of its prints. Every line tells when
it was written, the image with its id, when the log was opened and the step. Lines are held back
until the log is flushed, or until there are too many of them: a part of a line that finds no room
any more sends all before it into the file.
-/
namespace Galley

structure StepLog where
  path : String
  /-- The second in which the log was opened. -/
  event : Int
  /-- What is not in the file yet. -/
  held : String
  deriving DecidableEq, Repr

/-- Whose output a line is. -/
structure LineSource where
  step : String
  imageHash : String
  imageName : String
  deriving DecidableEq, Repr

namespace StepLog

open FileWork

/-- Opens the log, making the file and its directory if need be. -/
def create (path : String) (now : Int) : FileWork StepLog :=
  let file := step "open" path (·.append path [])
  let opened := file.andThen fun files => (.ok ⟨path, Calendar.seconds now, ""⟩, files)
  match Path.parent? path with
  | none => opened
  | some dir => (makeDirs dir).andThen opened

def lineParts (log : StepLog) (now : Int) (source : LineSource) (message : String) : List String :=
  ["[", Calendar.text (Calendar.seconds now), "] [image:", source.imageHash, "] [name:",
    source.imageName, "] [event:", toString log.event, "] [step:", source.step, "] ", message, "\n"]

/-- How many bytes are held back at most. -/
def capacity : Nat := 8192

/-- Puts a text at the end of the file. It is lost when the file has gone. -/
def append (log : StepLog) (text : String) (files : Files) : Files :=
  if files.exist log.path then (files.append log.path text.utf8).toOption.getD files else files

/-- Brings what is held back into the file. -/
def flush (log : StepLog) (files : Files) : StepLog × Files :=
  ({ log with held := "" }, log.append log.held files)

/-- Writes a part of a line, which is held back if it is small enough. -/
def writePart (log : StepLog) (files : Files) (part : String) : StepLog × Files :=
  let (log, files) :=
    if capacity < log.held.utf8ByteSize + part.utf8ByteSize then log.flush files else (log, files)
  if capacity ≤ part.utf8ByteSize then (log, log.append part files)
  else ({ log with held := log.held ++ part }, files)

def write (log : StepLog) (now : Int) (source : LineSource) (message : String) (files : Files) :
    StepLog × Files :=
  (log.lineParts now source message).foldl (fun (log, files) part => log.writePart files part)
    (log, files)

end StepLog

end Galley
