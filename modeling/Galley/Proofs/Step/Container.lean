import Galley.Proofs.Exclusion
import Galley.Proofs.Process.Trace
/-!
# The container of a step

What the run of a step asks of the container engine, whatever it is answered and whatever comes first
where it waits. Main statement: a step removes the container that it created once and last of all, stops it
once if the step is over before the container has ended, and otherwise never; it touches no other one.
-/
namespace Galley

open Process

/-! ### Events around a container -/

def Ending.isExit : Ending → Bool
  | .exited _ => true
  | _ => false

namespace Event

/-- The id of the container that an event created. -/
def created? : Event → Option String
  | ⟨.container (.create _), .ok id⟩ => some id
  | _ => none

/-- The id of the container that an event asked to stop. -/
def stopped? : Event → Option String
  | ⟨.container (.stop id), _⟩ => some id
  | _ => none

/-- The id of the container that an event asked to remove. -/
def removed? : Event → Option String
  | ⟨.container (.remove id), _⟩ => some id
  | _ => none

/-- Whether an event tells that a container has ended. -/
def exits : Event → Bool
  | ⟨.awaitOutput _ _, some ending⟩ => ending.isExit
  | ⟨.awaitEnd _ _, ending⟩ => ending.isExit
  | _ => false

/-- Whether an event creates, stops and removes no container. -/
structure Spares (e : Event) : Prop where
  created : e.created? = none
  stopped : e.stopped? = none
  removed : e.removed? = none

end Event

def createdIn (es : List Event) : List String := es.flatMap (·.created?.toList)

def stoppedIn (es : List Event) : List String := es.flatMap (·.stopped?.toList)

def removedIn (es : List Event) : List String := es.flatMap (·.removed?.toList)

section Ids

variable (e : Event) (es es' : List Event)

theorem createdIn_cons : createdIn (e :: es) = e.created?.toList ++ createdIn es := rfl

theorem stoppedIn_cons : stoppedIn (e :: es) = e.stopped?.toList ++ stoppedIn es := rfl

theorem removedIn_cons : removedIn (e :: es) = e.removed?.toList ++ removedIn es := rfl

theorem createdIn_append : createdIn (es ++ es') = createdIn es ++ createdIn es' :=
  List.flatMap_append

theorem stoppedIn_append : stoppedIn (es ++ es') = stoppedIn es ++ stoppedIn es' :=
  List.flatMap_append

theorem removedIn_append : removedIn (es ++ es') = removedIn es ++ removedIn es' :=
  List.flatMap_append

end Ids

/-- Whether a step is over before its container has ended: it took too long, was cancelled, or a line
reported a failure and no end was seen. -/
def StepRun.interrupted {β : Type} (exited : Bool) : Except StepError β → Bool
  | .error (.timedOut _ _) => true
  | .error (.cancelled _) => true
  | .error (.reported _ _) => !exited
  | _ => false

namespace StepRun

variable {β γ : Type} {id : String} {exited : Bool} {e : Event} {es es' : List Event}
  {r : Except StepError β}

theorem interrupted_map (f : β → γ) (r : Except StepError β) :
    interrupted exited (r.map f) = interrupted exited r := by
  rcases r with (_ | _ | _ | _ | _ | _ | _ | _) | _ <;> rfl

/-- Whether events leave a container to be removed by those that follow, and stop it if need be. It may
have been seen to end before. -/
structure Tends (id : String) (exited : Bool) (es : List Event) (r : Except StepError β) : Prop where
  created : createdIn es = []
  removed : removedIn es = []
  stopped : stoppedIn es = if interrupted (exited || es.any Event.exits) r then [id] else []

theorem Tends.nil (h : interrupted exited r = false) : Tends id exited [] r where
  created := rfl
  removed := rfl
  stopped := by simp [stoppedIn, h]

theorem Tends.cons (spares : e.Spares) (h : Tends id (exited || e.exits) es r) :
    Tends id exited (e :: es) r where
  created := by rw [createdIn_cons, spares.created, h.created]; rfl
  removed := by rw [removedIn_cons, spares.removed, h.removed]; rfl
  stopped := by
    rw [stoppedIn_cons, spares.stopped, h.stopped, List.any_cons, Bool.or_assoc]
    rfl

theorem Tends.stop (h : interrupted exited r = true) (a : Except ContainerError Unit) :
    Tends id exited [⟨.container (.stop id), a⟩] r where
  created := rfl
  removed := rfl
  stopped := by
    have on : (exited || [(⟨.container (.stop id), a⟩ : Event)].any Event.exits) = exited :=
      Bool.or_false exited
    rw [on, if_pos h]
    rfl

/-! ### Supervision -/

variable {s : Supervision} {o : Output} {v v' : Verdict}

/-- The lines that are left of a container that has ended stop nothing. -/
theorem drain_tends {exitCode : Int} {drainEnd : Nat} {closes : Bool} {lines : List String}
    (h : (drain s exitCode drainEnd closes o lines).Traces es v) : Tends s.id true es v.1 := by
  induction lines generalizing o es with
  | nil =>
    rw [drain] at h
    split at h
    all_goals
      obtain ⟨r, _, rfl, last⟩ := traces_act.mp h
      obtain ⟨rfl, rfl⟩ := traces_done.mp last
      exact .cons ⟨rfl, rfl, rfl⟩ (.nil rfl)
  | cons text rest ih =>
    obtain ⟨more, _, rfl, goesOn⟩ := traces_act.mp h
    apply Tends.cons ⟨rfl, rfl, rfl⟩
    cases more with
    | false =>
      obtain ⟨rfl, rfl⟩ := traces_done.mp goesOn
      exact .nil rfl
    | true =>
      obtain ⟨⟨o', outcome⟩, _, rfl, handled⟩ := traces_act.mp goesOn
      apply Tends.cons ⟨rfl, rfl, rfl⟩
      cases outcome with
      | failed message =>
        obtain ⟨rfl, rfl⟩ := traces_done.mp handled
        exact .nil rfl
      | «continue» => exact ih handled

/-- A container that is still running is stopped, and then the step is over. -/
theorem stop_tends (h : ((stop s).bind fun _ => .done v).Traces es v')
    (cut : interrupted exited v.1 = true) : Tends s.id exited es v'.1 := by
  obtain ⟨a, _, rfl, last⟩ := traces_act.mp h
  obtain ⟨rfl, rfl⟩ := traces_done.mp last
  exact .stop cut a

theorem finish_tends {closes : Bool} {left : List String} {ending : Ending}
    (h : (finish s closes o left ending).Traces es v) : Tends s.id ending.isExit es v.1 := by
  cases ending with
  | exited result =>
    cases result with
    | error e =>
      obtain ⟨rfl, rfl⟩ := traces_done.mp h
      exact .nil rfl
    | ok exitCode =>
      obtain ⟨drainEnd, _, rfl, drained⟩ := traces_act.mp h
      exact .cons ⟨rfl, rfl, rfl⟩ (drain_tends drained)
  | deadline => exact stop_tends h rfl
  | cancelled => exact stop_tends h rfl

theorem follow_tends {closes : Bool} {lines : List String}
    (h : (follow s closes o lines).Traces es v) : Tends s.id false es v.1 := by
  induction lines generalizing o es with
  | nil =>
    have ended {es : List Event} (h : (Process.act (.awaitEnd s.watch s.deadline)
        fun ending => finish s closes o [] ending).Traces es v) : Tends s.id false es v.1 := by
      obtain ⟨ending, _, rfl, finished⟩ := traces_act.mp h
      exact .cons ⟨rfl, rfl, rfl⟩ (finish_tends finished)
    rw [follow] at h
    split at h
    · obtain ⟨r, _, rfl, goesOn⟩ := traces_act.mp h
      apply Tends.cons ⟨rfl, rfl, rfl⟩
      cases r with
      | some ending => exact finish_tends goesOn
      | none => exact ended goesOn
    · exact ended h
  | cons text rest ih =>
    obtain ⟨r, _, rfl, goesOn⟩ := traces_act.mp h
    apply Tends.cons ⟨rfl, rfl, rfl⟩
    cases r with
    | some ending => exact finish_tends goesOn
    | none =>
      obtain ⟨⟨o', outcome⟩, _, rfl, handled⟩ := traces_act.mp goesOn
      apply Tends.cons ⟨rfl, rfl, rfl⟩
      cases outcome with
      | failed message => exact stop_tends handled rfl
      | «continue» => exact ih handled

theorem supervise_tends {step : Nat} {route : Route} {timeout : Duration}
    (h : (supervise step route id timeout o).Traces es v) : Tends id false es v.1 := by
  obtain ⟨r, _, rfl, begun⟩ := traces_act.mp h
  apply Tends.cons ⟨rfl, rfl, rfl⟩
  cases r with
  | error e =>
    obtain ⟨rfl, rfl⟩ := traces_done.mp begun
    exact .nil rfl
  | ok stream =>
    obtain ⟨deadline, _, rfl, timed⟩ := traces_act.mp begun
    obtain ⟨watch, _, rfl, followed⟩ := traces_act.mp timed
    exact .cons ⟨rfl, rfl, rfl⟩ (.cons ⟨rfl, rfl, rfl⟩ (follow_tends followed))

/-! ### The whole run -/

/-- Whether events leave no container behind: none is created and the run fails, or the one that is gets
removed once, by the last event, and stopped once if the step is over before its end. -/
def Releases (es : List Event) (r : Except StepError β) : Prop :=
  (createdIn es = [] ∧ stoppedIn es = [] ∧ removedIn es = [] ∧ ∃ e, r = .error e) ∨
    ∃ id front a, es = front ++ [⟨.container (.remove id), a⟩] ∧ createdIn es = [id] ∧
      removedIn front = [] ∧ stoppedIn es = if interrupted (es.any Event.exits) r then [id] else []

theorem Releases.error (e : StepError) : Releases [] (.error e : Except StepError β) :=
  .inl ⟨rfl, rfl, rfl, e, rfl⟩

theorem Releases.cons (spares : e.Spares) (goes : e.exits = false) (h : Releases es r) :
    Releases (e :: es) r := by
  rcases h with ⟨none, still, kept, failed⟩ | ⟨id, front, a, rfl, one, kept, still⟩
  · left
    refine ⟨?_, ?_, ?_, failed⟩
    · rw [createdIn_cons, spares.created, none]; rfl
    · rw [stoppedIn_cons, spares.stopped, still]; rfl
    · rw [removedIn_cons, spares.removed, kept]; rfl
  · right
    refine ⟨id, e :: front, a, rfl, ?_, ?_, ?_⟩
    · rw [createdIn_cons, spares.created, one]; rfl
    · rw [removedIn_cons, spares.removed, kept]; rfl
    · rw [stoppedIn_cons, spares.stopped, still, List.any_cons, goes]; rfl

theorem Releases.append {front : List Event} (idle : ∀ e ∈ front, e.Spares ∧ e.exits = false)
    (h : Releases es r) : Releases (front ++ es) r := by
  induction front with
  | nil => exact h
  | cons e rest ih =>
    obtain ⟨⟨spares, goes⟩, others⟩ := List.forall_mem_cons.mp idle
    exact .cons spares goes (ih others)

/-- Whatever an action is answered with, it has nothing to do with the life of a container. -/
def Idle (a : Action) : Prop := ∀ r : a.Answer, (⟨a, r⟩ : Event).Spares ∧ (⟨a, r⟩ : Event).exits = false

theorem idle_of_traces {p : Process β} {b : β} (h : p.Only Idle) (trace : p.Traces es b) :
    ∀ e ∈ es, e.Spares ∧ e.exits = false :=
  fun e he => h.of_traces trace e he e.answer

/-- A part of a run that has nothing to do with the life of a container, with what comes behind it. -/
theorem releases_andThen {p : Process (Except StepError β)} {f : β → Process (Except StepError γ)}
    {r : Except StepError γ} (idle : p.Only Idle)
    (hf : ∀ b es r, (f b).Traces es r → Releases es r)
    (h : (p.andThen (fun e => e) f).Traces es r) : Releases es r := by
  rcases traces_andThen.mp h with ⟨e, trace, rfl⟩ | ⟨front, b, back, rfl, trace, behind⟩
  · have fails : Releases (es ++ []) (.error e : Except StepError γ) :=
      .append (idle_of_traces idle trace) (.error e)
    rwa [List.append_nil] at fails
  · exact (hf b back r behind).append (idle_of_traces idle trace)

theorem ensureImage_idle (image registryAuth : String) :
    (ensureImage image registryAuth).Only Idle := by
  refine ⟨fun _ => ⟨⟨rfl, rfl, rfl⟩, rfl⟩, fun r => ?_⟩
  match r with
  | .error e => trivial
  | .ok true => trivial
  | .ok false =>
    refine ⟨fun _ => ⟨⟨rfl, rfl, rfl⟩, rfl⟩, fun r => ?_⟩
    cases r <;> trivial

theorem openOutput_idle (job : Job) (step : Step) (layout : Layout) (image imageHash : String) :
    (openOutput job step layout image imageHash).Only Idle := by
  refine ⟨fun _ => ⟨⟨rfl, rfl, rfl⟩, rfl⟩, fun r => ?_⟩
  cases r with
  | error e => trivial
  | ok _ =>
    refine ⟨fun _ => ⟨⟨rfl, rfl, rfl⟩, rfl⟩, fun r => ?_⟩
    cases r <;> trivial

variable {job : Job} {step : Step} {layout : Layout} {image : String} {timeout : Duration}
  {r : Except StepError StepOutcome}

theorem runContainer_releases (h : (runContainer job step layout image timeout o).Traces es r) :
    Releases es r := by
  obtain ⟨a, _, rfl, begun⟩ := traces_act.mp h
  cases a with
  | error e =>
    obtain ⟨rfl, rfl⟩ := traces_done.mp begun
    exact (Releases.error _).cons ⟨rfl, rfl, rfl⟩ rfl
  | ok id =>
    obtain ⟨during, ⟨result, o⟩, _, rfl, supervised, behind⟩ :=
      (traces_bind (p := supervise step.step (Route.ofJob job) id timeout o)).mp begun
    obtain ⟨o', _, rfl, flushed⟩ := traces_act.mp behind
    obtain ⟨gone, _, rfl, last⟩ := traces_act.mp flushed
    obtain ⟨rfl, rfl⟩ := traces_done.mp last
    have tends := supervise_tends supervised
    have ended : (during ++ [(⟨.flush o, o'⟩ : Event), ⟨.container (.remove id), gone⟩]).any
        Event.exits = during.any Event.exits := by
      rw [List.any_append]
      exact Bool.or_false _
    refine .inr ⟨id, ⟨.container (.create (spec job step layout image timeout)), .ok id⟩ ::
      (during ++ [⟨.flush o, o'⟩]), gone, by simp, ?_, ?_, ?_⟩
    · rw [createdIn_cons, createdIn_append, tends.created]
      rfl
    · rw [removedIn_cons, removedIn_append, tends.removed]
      rfl
    · rw [interrupted_map, stoppedIn_cons, stoppedIn_append, tends.stopped, List.any_cons, ended]
      exact List.append_nil _

theorem launch_releases (h : (launch job step layout timeout).Traces es r) : Releases es r := by
  refine releases_andThen (ensureImage_idle _ _) (fun _ es r h => ?_) h
  obtain ⟨a, _, rfl, found⟩ := traces_act.mp h
  apply Releases.cons ⟨rfl, rfl, rfl⟩ rfl
  cases a with
  | error e =>
    obtain ⟨rfl, rfl⟩ := traces_done.mp found
    exact .error _
  | ok imageId =>
    exact releases_andThen (openOutput_idle _ _ _ _ _) (fun _ _ _ => runContainer_releases) found

end StepRun

open StepRun in
/-- However the engine answers and whatever comes first where the run of a step waits, the container that
it created is removed once, by the last event of all, and no other one. It is stopped once when the step is
over before the container has ended, and otherwise never. A run that creates none stops and removes none. -/
theorem runStep_releases {locker : Locker} {job : Job} {step : Step} {es : List Event}
    {r : Except StepError StepOutcome} (h : (job.runStep locker step).Traces es r) :
    Releases es r := by
  rcases job.runStep_cases locker step with ⟨e, eq⟩ | ⟨layout, timeout, -, eq⟩
  · rw [eq] at h
    obtain ⟨rfl, rfl⟩ := traces_done.mp h
    exact .error e
  · rw [eq] at h
    obtain ⟨a, _, rfl, made⟩ := traces_act.mp h
    apply Releases.cons ⟨rfl, rfl, rfl⟩ rfl
    cases a with
    | error e =>
      obtain ⟨rfl, rfl⟩ := traces_done.mp made
      exact .error _
    | ok _ =>
      obtain ⟨n, _, rfl, launched⟩ := traces_act.mp made
      exact .cons ⟨rfl, rfl, rfl⟩ rfl (launch_releases launched)

/-! ### A container that reports a failure -/

namespace Frying

def locker : Locker := ⟨"/", none⟩

def layout : Layout := ⟨"/", "/", "u-1", "1", .individual, "ann-42"⟩

def step : Step where
  step := 1
  name := "fry"
  image := "alpine"
  registryAuth := ""
  entrypoint := []
  command := []
  env := []
  environment := []
  trigger := "now"
  timeout := ""

def output : Output :=
  ⟨"1", "u-1", "individual", layout.cacheDir, ⟨"1", "deadbeef", "alpine"⟩, ⟨"run.log", 0, ""⟩, none, []⟩

/-- A line reports a failure while the container is running, and the engine fails to stop it. -/
def burnt : List Event :=
  [⟨.makeDirs layout, .ok ()⟩, ⟨.container (.removeLabeled (layout.labels pancakes step)), .ok 0⟩,
    ⟨.container (.imageExists "alpine"), .ok true⟩,
    ⟨.container (.imageId "alpine"), .ok "sha256:deadbeef"⟩, ⟨.openCache layout.cacheDir, .ok ()⟩,
    ⟨.openLog (layout.logFile "pancakes"), .ok output.log⟩,
    ⟨.container (.create (StepRun.spec pancakes step layout "alpine" standardStepTimeout)),
      .ok "c-1"⟩,
    ⟨.container (.logs "c-1"), .ok ⟨["lemc.err; burnt"], true⟩⟩, ⟨.timer standardStepTimeout, (0 : Nat)⟩,
    ⟨.container (.wait "c-1"), (⟨"c-1", 9⟩ : Watch)⟩, ⟨.awaitOutput ⟨"c-1", 9⟩ 0, none⟩,
    ⟨.line output (Route.ofJob pancakes) "lemc.err; burnt", (output, LineOutcome.failed "burnt")⟩,
    ⟨.container (.stop "c-1"), .error (.api "stop")⟩, ⟨.flush output, output⟩,
    ⟨.container (.remove "c-1"), .ok ()⟩]

theorem burnt_traces : (pancakes.runStep locker step).Traces burnt (.error (.reported 1 "burnt")) := by
  have timed : pancakes.stepTimeout step = .ok standardStepTimeout := rfl
  have laid : locker.layout pancakes = .ok layout := by decide
  unfold Job.runStep
  rw [timed, laid]
  have reported : (StepRun.runContainer pancakes step layout "alpine" standardStepTimeout output).Traces
      (burnt.drop 6) (.error (.reported 1 "burnt")) := by
    refine .act _ (.act _ (.act _ (.act _ (.act _ (.act _ (.act _ (.act _ (.act _ (.done _)))))))))
  exact .act _ (.act _ (.act _ (.act _ (.act _ (.act _ reported)))))

end Frying

open Frying in
theorem runStep_releases_burnt :
    (pancakes.runStep locker step).Traces burnt (.error (.reported 1 "burnt")) ∧
    StepRun.Releases burnt (.error (.reported 1 "burnt") : Except StepError StepOutcome) :=
  ⟨burnt_traces, runStep_releases burnt_traces⟩

end Galley
