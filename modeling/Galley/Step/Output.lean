import Galley.Message.Progress
import Galley.Text.Blank
import Galley.Step.Log
/-!
# Output of a step

What is done with each line that a step's container prints. Every line that is not blank goes into
the log. A command changes the cached files and is then sent on, so that those who watch see what
the files hold; it is dropped when the file cannot be written. A command that empties a part of the
page is sent on only when the last one was long enough ago. A failure ends the step, and an
announced variable is kept for the steps that follow.
-/
namespace Galley

inductive LineOutcome
  | continue
  | failed (message : String)
  deriving DecidableEq, Repr

structure Output where
  pageId : String
  uuid : String
  viewType : String
  cacheDir : String
  source : LineSource
  log : StepLog
  /-- When the last command that empties a part of the page was sent on, in milliseconds. -/
  lastClear : Option Nat
  /-- The announced variables in order. -/
  env : List String
  deriving DecidableEq, Repr

structure Handled where
  output : Output
  files : Files
  outcome : LineOutcome
  sent : Option Progress

namespace Output

/-- The least time between two sent commands that empty a part of the page, in milliseconds. -/
def clearSpacing : Nat := 10

def progress (o : Output) (command : Command) (payload : String) : Progress :=
  ⟨o.pageId, o.uuid, o.viewType, command.word, payload⟩

def clearAllowed (o : Output) (instant : Nat) : Bool :=
  match o.lastClear with
  | none => true
  | some last => clearSpacing ≤ instant - last

/-- A command whose effect is in the cached files: it is sent on unless it is one too many that
empty a part of the page. -/
def forward (o : Output) (files : Files) (instant : Nat) (command : Command) (payload : String) :
    Handled :=
  if command.isTrunc ∧ payload.trimBlanks = "" then
    if o.clearAllowed instant then
      ⟨{ o with lastClear := some instant }, files, .continue, some (o.progress command payload)⟩
    else ⟨o, files, .continue, none⟩
  else ⟨o, files, .continue, some (o.progress command payload)⟩

def obey (o : Output) (files : Files) (instant : Nat) (command : Command) (payload : String) :
    Handled :=
  match command, command.cacheWrite? with
  | .env, _ =>
    let pair := payload.trimBlanks
    ⟨if pair = "" then o else { o with env := o.env ++ [pair] }, files, .continue, none⟩
  | .err, _ => ⟨o, files, .failed payload.trimBlanks, some (o.progress command payload)⟩
  | _, none => o.forward files instant command payload
  | _, some w =>
    match Cache.write o.cacheDir w payload files with
    | (.error _, files) => ⟨o, files, .continue, none⟩
    | (.ok _, files) => o.forward files instant command payload

def handle (o : Output) (files : Files) (line : String) (now : Int) (instant : Nat) : Handled :=
  let line := line.trimBlanks
  if line = "" then ⟨o, files, .continue, none⟩
  else
    let (log, files) := o.log.write now o.source line files
    let o := { o with log }
    match Command.parse? line with
    | none => ⟨o, files, .continue, none⟩
    | some (command, payload) => o.obey files instant command payload

def flush (o : Output) (files : Files) : Output × Files :=
  let (log, files) := o.log.flush files
  ({ o with log }, files)

end Output

end Galley
