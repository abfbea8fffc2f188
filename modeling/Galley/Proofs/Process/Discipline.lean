import Galley.Dispatch
import Galley.Submission
import Galley.Execution
/-!
# Disciplines of processes

What a process may do can depend on what it did before. A discipline says which actions are allowed,
which answers are promised, and how what the process holds changes by an action; a process follows it
when it keeps to it on every branch of its tree. Actions that touch neither marks nor queues are
quiet. Main statements: processes put one behind another follow a discipline together, and the run
of a step is quiet throughout.
-/
namespace Galley

/-- Whether an action touches neither marks nor queues. -/
def Action.IsQuiet : Action → Prop
  | .tryAcquire _ => False
  | .unmark _ => False
  | .pop _ => False
  | .push _ _ => False
  | .refile _ _ => False
  | .evict _ _ => False
  | _ => True

structure Discipline (σ : Type) where
  allows : σ → Action → Prop
  promises : (a : Action) → a.Answer → Prop
  after : σ → (a : Action) → a.Answer → σ

namespace Process

variable {α β ε ε' σ : Type}

/-- Whether a process that holds `s` keeps to the discipline and ends with `post`. -/
def Follows (d : Discipline σ) (post : σ → α → Prop) (s : σ) : Process α → Prop
  | .done a => post s a
  | .act a next => d.allows s a ∧ ∀ r, d.promises a r → (next r).Follows d post (d.after s a r)

theorem Follows.mono {d : Discipline σ} {post post' : σ → α → Prop} {s : σ} {p : Process α}
    (h : p.Follows d post s) (weaker : ∀ s a, post s a → post' s a) : p.Follows d post' s := by
  induction p generalizing s with
  | done a => exact weaker s a h
  | act a next ih => exact ⟨h.1, fun r hr => ih r (h.2 r hr)⟩

theorem Follows.bind {d : Discipline σ} {mid : σ → α → Prop} {post : σ → β → Prop} {s : σ}
    {p : Process α} {f : α → Process β} (h : p.Follows d mid s)
    (hf : ∀ s a, mid s a → (f a).Follows d post s) : (p.bind f).Follows d post s := by
  induction p generalizing s with
  | done a => exact hf s a h
  | act a next ih => exact ⟨h.1, fun r hr => ih r (h.2 r hr)⟩

/-- A process that may fail, and what is done with its result. -/
theorem Follows.andThen {d : Discipline σ} {mid : σ → Except ε α → Prop}
    {post : σ → Except ε' β → Prop} {s : σ} {p : Process (Except ε α)} {wrap : ε → ε'}
    {f : α → Process (Except ε' β)} (h : p.Follows d mid s)
    (failed : ∀ s e, mid s (.error e) → post s (.error (wrap e)))
    (hf : ∀ s a, mid s (.ok a) → (f a).Follows d post s) :
    (p.andThen wrap f).Follows d post s :=
  h.bind fun s r hr =>
    match r with
    | .error e => failed s e hr
    | .ok a => hf s a hr

/-! ### Quiet processes -/

def Quiet : Process α → Prop
  | .done _ => True
  | .act a next => a.IsQuiet ∧ ∀ r, (next r).Quiet

theorem Quiet.bind {p : Process α} {f : α → Process β} (h : p.Quiet) (hf : ∀ a, (f a).Quiet) :
    (p.bind f).Quiet := by
  induction p with
  | done a => exact hf a
  | act a next ih => exact ⟨h.1, fun r => ih r (h.2 r)⟩

/-- Under a discipline that has nothing against quiet actions, a quiet process holds in the end what
it held before. -/
theorem Quiet.follows {d : Discipline σ} {p : Process α} (h : p.Quiet)
    (free : ∀ s (a : Action), a.IsQuiet → d.allows s a ∧ ∀ r, d.after s a r = s) (s : σ) :
    p.Follows d (fun s' _ => s' = s) s := by
  induction p with
  | done a => rfl
  | act a next ih =>
    refine ⟨(free s a h.1).1, fun r _ => ?_⟩
    rw [(free s a h.1).2]
    exact ih r (h.2 r)

/-! ### Processes with some actions only -/

/-- Whether a process does nothing but actions of a kind. -/
def Only (P : Action → Prop) : Process α → Prop
  | .done _ => True
  | .act a next => P a ∧ ∀ r, (next r).Only P

section Only

variable {P Q : Action → Prop} {p : Process α}

theorem Quiet.only (h : p.Quiet) (quiet : ∀ a, a.IsQuiet → P a) : p.Only P := by
  induction p with
  | done a => trivial
  | act a next ih => exact ⟨quiet a h.1, fun r => ih r (h.2 r)⟩

theorem Only.quiet (h : p.Only P) (quiet : ∀ a, P a → a.IsQuiet) : p.Quiet := by
  induction p with
  | done a => trivial
  | act a next ih => exact ⟨quiet a h.1, fun r => ih r (h.2 r)⟩

theorem Only.mono (h : p.Only P) (weaker : ∀ a, P a → Q a) : p.Only Q := by
  induction p with
  | done a => trivial
  | act a next ih => exact ⟨weaker a h.1, fun r => ih r (h.2 r)⟩

theorem Only.bind {f : α → Process β} (h : p.Only P) (hf : ∀ a, (f a).Only P) :
    (p.bind f).Only P := by
  induction p with
  | done a => exact hf a
  | act a next ih => exact ⟨h.1, fun r => ih r (h.2 r)⟩

theorem Only.andThen {p : Process (Except ε α)} {wrap : ε → ε'}
    {f : α → Process (Except ε' β)} (h : p.Only P) (hf : ∀ a, (f a).Only P) :
    (p.andThen wrap f).Only P :=
  h.bind fun r =>
    match r with
    | .error _ => trivial
    | .ok a => hf a

/-- Under a discipline that has nothing against its actions, such a process holds in the end what it
held before. -/
theorem Only.follows {d : Discipline σ} (h : p.Only P) {s : σ}
    (free : ∀ a : Action, P a → d.allows s a ∧ ∀ r, d.after s a r = s) :
    p.Follows d (fun s' _ => s' = s) s := by
  induction p with
  | done a => rfl
  | act a next ih =>
    refine ⟨(free a h.1).1, fun r _ => ?_⟩
    rw [(free a h.1).2]
    exact ih r (h.2 r)

end Only

/-! ### Results -/

/-- Whether a process ends with a result of a kind on every branch of its tree. -/
def Ends (P : α → Prop) : Process α → Prop
  | .done a => P a
  | .act _ next => ∀ r, (next r).Ends P

theorem Ends.bind {P : α → Prop} {Q : β → Prop} {p : Process α} {f : α → Process β} (h : p.Ends P)
    (hf : ∀ a, P a → (f a).Ends Q) : (p.bind f).Ends Q := by
  induction p with
  | done a => exact hf a h
  | act a next ih => exact fun r => ih r (h r)

end Process

open Process

/-! ### The checks of a submission -/

namespace Submission

theorem ping_quiet : ping.Quiet :=
  ⟨trivial, fun r =>
    match r with
    | some (.ok _) => trivial
    | some (.error _) => trivial
    | none => ⟨trivial, fun _ => ⟨trivial, fun _ => trivial⟩⟩⟩

theorem isPresent_quiet (image : String) : (isPresent image).Quiet :=
  ⟨trivial, fun r =>
    match r with
    | .ok _ => trivial
    | .error _ => trivial⟩

theorem pullMissing_quiet (missing : List String) (steps : List Step) :
    (pullMissing missing steps).Quiet := by
  induction steps generalizing missing with
  | nil => trivial
  | cons step rest ih =>
    rw [pullMissing]
    split
    · exact ih missing
    · refine (isPresent_quiet _).bind fun present => ?_
      split
      · exact ih missing
      · refine ⟨trivial, fun r => ?_⟩
        cases r with
        | ok _ => exact ih missing
        | error e => exact ih _

theorem stillMissing_quiet (missing : List String) (steps : List Step) :
    (stillMissing missing steps).Quiet := by
  induction steps generalizing missing with
  | nil => trivial
  | cons step rest ih =>
    rw [stillMissing]
    split
    · exact ih missing
    · refine (isPresent_quiet _).bind fun present => ?_
      split
      · exact ih missing
      · exact ih _

theorem checkImages_quiet (job : Job) : (checkImages job).Quiet := by
  refine (pullMissing_quiet _ _).bind fun unpulled => ?_
  dsimp only
  split
  · refine (stillMissing_quiet _ _).bind fun missing => ?_
    split <;> trivial
  · change Quiet (ite _ _ _)
    split <;> trivial

theorem removeContainers_quiet (layout : Layout) (job : Job) (steps : List Step) :
    (removeContainers layout job steps).Quiet := by
  induction steps with
  | nil => trivial
  | cons step rest ih => exact ⟨trivial, fun _ => ih⟩

end Submission

/-! ### The run of a step -/

/-- Whether an action is one that runs a container: a quiet one that removes no containers of others and
tells nobody anything but what the container printed. -/
def Action.RunsContainer : Action → Prop
  | .container (.removeLabeled _) => False
  | .send _ => False
  | a => a.IsQuiet

theorem Action.RunsContainer.isQuiet {a : Action} (h : a.RunsContainer) : a.IsQuiet := by
  cases a <;> trivial

namespace StepRun

theorem drain_runs (s : Supervision) (exitCode : Int) (drainEnd : Nat) (closes : Bool) (o : Output)
    (lines : List String) : (drain s exitCode drainEnd closes o lines).Only Action.RunsContainer := by
  induction lines generalizing o with
  | nil =>
    rw [drain]
    split <;> exact ⟨trivial, fun _ => trivial⟩
  | cons text rest ih =>
    refine ⟨trivial, fun more => ?_⟩
    cases more with
    | false => trivial
    | true =>
      refine ⟨trivial, fun r => ?_⟩
      obtain ⟨o, outcome⟩ := r
      cases outcome with
      | failed message => trivial
      | «continue» => exact ih o

theorem stop_runs (s : Supervision) : (stop s).Only Action.RunsContainer := ⟨trivial, fun _ => trivial⟩

theorem finish_runs (s : Supervision) (closes : Bool) (o : Output) (left : List String)
    (ending : Ending) : (finish s closes o left ending).Only Action.RunsContainer := by
  cases ending with
  | exited result =>
    cases result with
    | error e => trivial
    | ok exitCode => exact ⟨trivial, fun drainEnd => drain_runs s exitCode drainEnd closes o left⟩
  | deadline => exact (stop_runs s).bind fun _ => trivial
  | cancelled => exact (stop_runs s).bind fun _ => trivial

theorem follow_runs (s : Supervision) (closes : Bool) (o : Output) (lines : List String) :
    (follow s closes o lines).Only Action.RunsContainer := by
  induction lines generalizing o with
  | nil =>
    rw [follow]
    split
    · refine ⟨trivial, fun r => ?_⟩
      cases r with
      | some ending => exact finish_runs s closes o [] ending
      | none => exact ⟨trivial, fun ending => finish_runs s closes o [] ending⟩
    · exact ⟨trivial, fun ending => finish_runs s closes o [] ending⟩
  | cons text rest ih =>
    refine ⟨trivial, fun r => ?_⟩
    cases r with
    | some ending => exact finish_runs s closes o (text :: rest) ending
    | none =>
      refine ⟨trivial, fun r => ?_⟩
      obtain ⟨o, outcome⟩ := r
      cases outcome with
      | failed message => exact (stop_runs s).bind fun _ => trivial
      | «continue» => exact ih o

theorem supervise_runs (step : Nat) (route : Route) (id : String) (timeout : Duration)
    (o : Output) : (supervise step route id timeout o).Only Action.RunsContainer := by
  refine ⟨trivial, fun r => ?_⟩
  cases r with
  | error e => trivial
  | ok stream =>
    exact ⟨trivial, fun deadline => ⟨trivial, fun watch => follow_runs _ _ _ _⟩⟩

theorem ensureImage_runs (image registryAuth : String) :
    (ensureImage image registryAuth).Only Action.RunsContainer := by
  refine ⟨trivial, fun r => ?_⟩
  match r with
  | .error e => trivial
  | .ok true => trivial
  | .ok false =>
    refine ⟨trivial, fun r => ?_⟩
    cases r <;> trivial

theorem openOutput_runs (job : Job) (step : Step) (layout : Layout) (image imageHash : String) :
    (openOutput job step layout image imageHash).Only Action.RunsContainer := by
  refine ⟨trivial, fun r => ?_⟩
  cases r with
  | error e => trivial
  | ok _ =>
    refine ⟨trivial, fun r => ?_⟩
    cases r <;> trivial

theorem runContainer_runs (job : Job) (step : Step) (layout : Layout) (image : String)
    (timeout : Duration) (o : Output) :
    (runContainer job step layout image timeout o).Only Action.RunsContainer := by
  refine ⟨trivial, fun r => ?_⟩
  cases r with
  | error e => trivial
  | ok id =>
    exact (supervise_runs _ _ _ _ _).bind fun _ => ⟨trivial, fun _ => ⟨trivial, fun _ => trivial⟩⟩

/-- The run of a step behind the removal of what an earlier run left. -/
def launch (job : Job) (step : Step) (layout : Layout) (timeout : Duration) :
    Process (Except StepError StepOutcome) :=
  let image := step.image.trimBlanks
  (ensureImage image step.registryAuth).andThen id fun _ =>
    .act (.container (.imageId image)) fun r =>
      match r with
      | .error e => .done (.error (.container e))
      | .ok imageId => (openOutput job step layout image (Image.shortId imageId)).andThen id
          (runContainer job step layout image timeout)

theorem launch_runs (job : Job) (step : Step) (layout : Layout) (timeout : Duration) :
    (launch job step layout timeout).Only Action.RunsContainer := by
  refine (ensureImage_runs _ _).andThen fun _ => ⟨trivial, fun r => ?_⟩
  cases r with
  | error e => trivial
  | ok id => exact (openOutput_runs _ _ _ _ _).andThen fun _ => runContainer_runs _ _ _ _ _ _

end StepRun

/-- The run of a step fails at once, or makes its directories and removes what an earlier run left. -/
theorem Job.runStep_cases (locker : Locker) (job : Job) (step : Step) :
    (∃ e, job.runStep locker step = .done (.error e)) ∨
      ∃ layout timeout, locker.layout job = .ok layout ∧
        job.runStep locker step = .act (.makeDirs layout) fun r =>
          match r with
          | .error e => .done (.error (.locker e))
          | .ok _ => .act (.container (.removeLabeled (layout.labels job step))) fun _ =>
            StepRun.launch job step layout timeout := by
  unfold Job.runStep
  split
  · exact .inl ⟨_, rfl⟩
  split
  · exact .inl ⟨_, rfl⟩
  · next timeout _ _ layout hl => exact .inr ⟨layout, timeout, hl, rfl⟩

/-- The run of a step touches neither marks nor queues. -/
theorem Job.runStep_quiet (locker : Locker) (job : Job) (step : Step) :
    (job.runStep locker step).Quiet := by
  rcases job.runStep_cases locker step with ⟨e, he⟩ | ⟨layout, timeout, -, hr⟩
  · rw [he]
    trivial
  · rw [hr]
    refine ⟨trivial, fun r => ?_⟩
    cases r with
    | error e => trivial
    | ok _ => exact ⟨trivial, fun _ => (StepRun.launch_runs _ _ _ _).quiet fun _ h => h.isQuiet⟩

theorem Job.runStep_sends_nothing (locker : Locker) (job : Job) (step : Step) :
    (job.runStep locker step).Only fun a => ∀ delivery, a ≠ .send delivery := by
  rcases job.runStep_cases locker step with ⟨e, he⟩ | ⟨layout, timeout, -, hr⟩
  · rw [he]
    trivial
  · rw [hr]
    refine ⟨nofun, fun r => ?_⟩
    cases r with
    | error e => trivial
    | ok _ =>
      refine ⟨nofun, fun _ => (StepRun.launch_runs _ _ _ _).mono ?_⟩
      rintro _ runs _ rfl
      exact runs

/-! ### What executions and looks do besides -/

section Only

variable {P : Action → Prop}

theorem Execution.tellApp_only (tells : ∀ message, P (.send message)) (job : Job) (text : String) :
    (tellApp job text).Only P := by
  unfold tellApp
  split
  · trivial
  · exact ⟨tells _, fun _ => trivial⟩

theorem Execution.tellApp_quiet (job : Job) (text : String) : (tellApp job text).Quiet :=
  (tellApp_only (fun _ => trivial) job text).quiet fun _ h => h

theorem Execution.fileStep_only (reads : P .now) (files : ∀ q f, P (.push q f)) (job : Job)
    (step : Step) (q : QueueName) (trigger : Trigger) : (fileStep job step q trigger).Only P := by
  unfold fileStep
  split
  · trivial
  · refine ⟨reads, fun now => ⟨files q _, fun r => ?_⟩⟩
    cases r <;> trivial

theorem Dispatch.putBack_only (unmarks : ∀ key, P (.unmark key)) (files : ∀ q f, P (.refile q f))
    (q : QueueName) (f : Filed) : (putBack q f).Only P := by
  have refile : (perform (.refile q f)).Only P := ⟨files q f, fun _ => trivial⟩
  unfold putBack
  split
  · exact ⟨unmarks f.key, fun _ => refile.bind fun _ => trivial⟩
  · exact refile.bind fun _ => trivial

theorem Dispatch.recur_only (files : ∀ q f, P (.refile q f)) (q : QueueName) (f : Filed)
    (now : Int) : (recur q f now).Only P := by
  unfold recur
  split
  · trivial
  · exact ⟨files q _, fun _ => trivial⟩

end Only

end Galley
