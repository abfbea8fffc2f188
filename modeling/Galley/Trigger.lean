import Galley.Trigger.Expression
/-!
# Triggers

When a filed job fires: once, or at a fixed interval. Times are nanoseconds since the epoch in
signed 64-bit integers, and every sum stops at the greatest one. The text of a trigger names its
kind and its duration, and for a job that fires once whether it has fired.
-/
namespace Galley

inductive Trigger
  | runOnce (delay : Duration) (expired : Bool)
  | simple (interval : Duration)
  deriving DecidableEq, Repr, Inhabited

namespace Trigger

open Text.Numeral

/-- A trigger that fires once after a delay and has not fired yet. -/
def once (delay : Duration) : Trigger :=
  .runOnce delay false

/-- The delay between the submission of a recipe and its run. -/
def nowDelay : Duration := .ofMillis 100

def duration : Trigger → Duration
  | .runOnce delay _ => delay
  | .simple interval => interval

/-- The time of the first fire of a job filed at `now`. -/
def firstFire (t : Trigger) (now : Int) : Int :=
  saturate (now + t.duration.signedNanos)

/-- The time between two fires, at least one nanosecond. -/
def stepNanos (interval : Duration) : Int :=
  max interval.signedNanos 1

/-- The next fire after a fire at `prev` of a job handed out at `now`. Whole intervals that have
passed are left out. -/
def nextFire (t : Trigger) (prev now : Int) : Option Int :=
  match t with
  | .runOnce _ _ => none
  | .simple interval =>
    let step := stepNanos interval
    let next := saturate (prev + step)
    if now < next then some next
    else
      let behind := (saturate (now - prev)).tdiv step + 1
      some (saturate (prev + saturate (behind * step)))

/-- Whether a job that fires once has fired. -/
def isExpired : Trigger → Bool
  | .runOnce _ expired => expired
  | .simple _ => false

def kind : Trigger → String
  | .runOnce _ _ => "RunOnceTrigger"
  | .simple _ => "SimpleTrigger"

/-- The sign between the parts of a trigger's text. -/
def separator : Char := '⇶'

def write : Trigger → List Char
  | .runOnce delay expired =>
    "RunOnceTrigger".toList ++ separator :: (delay.write ++
      separator :: (if expired then "expired" else "valid").toList)
  | .simple interval => "SimpleTrigger".toList ++ separator :: interval.write

def text (t : Trigger) : String :=
  String.ofList t.write

/-- Reads a trigger: its kind, its duration and at most one more part, which counts only when it
says that a job that fires once has expired. -/
def parse (s : String) : Except TriggerError Trigger :=
  let make (kind duration : List Char) (more : Option (List Char)) :=
    match Duration.parse (String.ofList duration) with
    | .error e => .error (.duration e)
    | .ok d =>
      if kind = "RunOnceTrigger".toList then .ok (.runOnce d (more = some "expired".toList))
      else if kind = "SimpleTrigger".toList then .ok (.simple d)
      else .error (.description s)
  match Text.pieces separator s.toList with
  | [kind, duration] => make kind duration none
  | [kind, duration, more] => make kind duration (some more)
  | _ => .error (.description s)

@[simp] theorem duration_once (d : Duration) : (once d).duration = d := rfl

@[simp] theorem nextFire_runOnce (d : Duration) (e : Bool) (prev now : Int) :
    (Trigger.runOnce d e).nextFire prev now = none := rfl

end Trigger

end Galley
