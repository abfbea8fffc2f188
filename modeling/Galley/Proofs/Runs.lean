import Galley.Proofs.Interleaving
/-!
# What executions run

The execution of a recipe runs the steps that run at once, and that of a filed step runs this step
unless the recipe is running. Each run begins with the removal of what an earlier one left, which
names the step. Main statement: the past of an execution that is over records these runs and no other.
-/
namespace Galley

open Process

/-! ### Where tasks come from -/

/-- Whether a step runs once, but not at once. -/
def Step.isDelayed (s : Step) : Bool :=
  match StepTrigger.parse s.trigger.trimBlanks with
  | .ok (.once _) => true
  | _ => false

namespace Job

def delayedSteps (job : Job) : List Galley.Step := job.recipe.steps.filter Step.isDelayed

/-- Whether a job is one in front of one of its steps. -/
def IsStage (job job' : Job) : Prop := ∃ stepId env, job' = { job with stepId, env }

theorem isStage_self (job : Job) : job.IsStage job := ⟨job.stepId, job.env, rfl⟩

variable {job job' : Job}

theorem IsStage.atStep (h : job.IsStage job') (step : Galley.Step) :
    job.IsStage (Execution.atStep job' step) := by
  obtain ⟨stepId, env, rfl⟩ := h
  exact ⟨toString step.step, env, rfl⟩

theorem IsStage.withEnv (h : job.IsStage job') (env : List String) :
    job.IsStage { job' with env } := by
  obtain ⟨stepId, _, rfl⟩ := h
  exact ⟨stepId, env, rfl⟩

theorem IsStage.key (h : job.IsStage job') (q : QueueName) : job'.key q = job.key q := by
  obtain ⟨_, _, rfl⟩ := h
  rfl

theorem IsStage.layout (h : job.IsStage job') (locker : Locker) :
    locker.layout job' = locker.layout job := by
  obtain ⟨_, _, rfl⟩ := h
  rfl

theorem IsStage.labels (h : job.IsStage job') (layout : Layout) (step : Galley.Step) :
    layout.labels job' step = layout.labels job step := by
  obtain ⟨_, _, rfl⟩ := h
  rfl

theorem IsStage.validateSubmission (h : job.IsStage job') :
    job'.validateSubmission = job.validateSubmission := by
  obtain ⟨_, _, rfl⟩ := h
  rfl

end Job

namespace Task

/-- The executions that a task owes to steps that run once later. -/
def delayedSteps : Task → List Galley.Step
  | .recipe job => job.delayedSteps
  | .step s => [s.step].filter Step.isDelayed

/-- Whether a task of a queue comes of a submission of a job. -/
inductive StemsFrom (job : Job) : QueueName → Task → Prop
  | recipe : StemsFrom job .now (.recipe job)
  | delayed {job' : Job} {step : Galley.Step} (stage : job.IsStage job')
      (mem : step ∈ job.recipe.steps) (once : step.isDelayed = true) :
      StemsFrom job .delayed (.step ⟨step, job'⟩)
  | recurring {job' : Job} {step : Galley.Step} (stage : job.IsStage job')
      (mem : step ∈ job.recipe.steps) (again : step.isDelayed = false) :
      StemsFrom job .recurring (.step ⟨step, job'⟩)

variable {job : Job} {task : Task}

theorem StemsFrom.isStage {q : QueueName} (h : task.StemsFrom job q) : job.IsStage task.job := by
  cases h with
  | recipe => exact job.isStage_self
  | delayed stage _ _ => exact stage
  | recurring stage _ _ => exact stage

theorem StemsFrom.delayedSteps_eq_nil (h : task.StemsFrom job .recurring) :
    task.delayedSteps = [] := by
  cases h with
  | recurring _ _ again => simp [delayedSteps, again]

end Task

/-! ### What an execution runs -/

/-- The labels under which the run of a step removes what an earlier run left. -/
def Event.run? : Event → Option Labels
  | ⟨.container (.removeLabeled labels), _⟩ => some labels
  | _ => none

/-- The runs of steps that an execution has begun, the last first. -/
def runsIn (past : List Event) : List Labels := past.filterMap Event.run?

/-- Finding that a key is taken. -/
def refusal (key : String) : Event := ⟨.tryAcquire key, false⟩

/-- A call may do anything that is recorded. -/
def record : Discipline (List Event) where
  allows _ _ := True
  promises _ _ := True
  after past a r := ⟨a, r⟩ :: past

theorem follows_record {α : Type} (p : Process α) (past : List Event) :
    p.Follows record (fun _ _ => True) past := by
  induction p generalizing past with
  | done a => trivial
  | act a next ih => exact ⟨trivial, fun r _ => ih r _⟩

theorem Course.Step.records {α : Type} {post : List Event → α → Prop} {s s' : Shared}
    {p p' : Course α} (h : p.Step s s' p') (hp : p.process.Follows record post p.past) :
    p'.process.Follows record post p'.past := by
  cases h with
  | act _ => exact hp.2 _ trivial
  | removed _ => exact hp
  | swept _ => exact hp.2 _ trivial

/-- Whether one past came of another by some runs and no refusal. -/
structure Adds (key : String) (labels : List Labels) (past past' : List Event) : Prop where
  runs : runsIn past' = labels ++ runsIn past
  refused : refusal key ∈ past' ↔ refusal key ∈ past

/-- Whether an action neither begins the run of a step nor can be refused. -/
def Action.IsPlain : Action → Prop
  | .container (.removeLabeled _) => False
  | .tryAcquire _ => False
  | _ => True

theorem Action.RunsContainer.isPlain {a : Action} (h : a.RunsContainer) : a.IsPlain := by
  cases a with
  | container call => cases call <;> trivial
  | _ => trivial

section Record

variable {α : Type} {key : String} {labels labels' : List Labels} {past past' past'' : List Event}

theorem Adds.refl (key : String) (past : List Event) : Adds key [] past past := ⟨rfl, .rfl⟩

theorem Adds.trans (h : Adds key labels past past') (h' : Adds key labels' past' past'') :
    Adds key (labels' ++ labels) past past'' :=
  ⟨by rw [h'.runs, h.runs, List.append_assoc], h'.refused.trans h.refused⟩

theorem refusal_mem_cons {a : Action} (h : ∀ k, a ≠ .tryAcquire k) (r : a.Answer) :
    refusal key ∈ ⟨a, r⟩ :: past ↔ refusal key ∈ past := by
  refine ⟨fun mem => (List.mem_cons.mp mem).resolve_left fun same => ?_, List.mem_cons_of_mem _⟩
  exact h key (congrArg Event.action same).symm

theorem Action.IsPlain.adds {a : Action} (h : a.IsPlain) (r : a.Answer) :
    Adds key [] past (⟨a, r⟩ :: past) := by
  refine ⟨?_, refusal_mem_cons (fun k same => ?_) r⟩
  · refine List.filterMap_cons_none ?_
    cases a with
    | container call => cases call <;> first | rfl | exact absurd h id
    | tryAcquire k => exact absurd h id
    | _ => rfl
  · rw [same] at h
    exact h

theorem adds_run (labels : Labels) (r : Except ContainerError Nat) :
    Adds key [labels] past (⟨.container (.removeLabeled labels), r⟩ :: past) :=
  ⟨rfl, refusal_mem_cons (a := .container (.removeLabeled labels)) (fun _ => Action.noConfusion) r⟩

theorem adds_unmark (key k : String) (past : List Event) :
    Adds key [] past (⟨.unmark k, ()⟩ :: past) :=
  Action.IsPlain.adds (a := .unmark k) trivial ()

/-- What does plain actions only adds nothing. -/
theorem Process.Only.records {p : Process α} (h : p.Only Action.IsPlain) (key : String)
    (past : List Event) : p.Follows record (fun past' _ => Adds key [] past past') past := by
  induction p generalizing past with
  | done a => exact .refl key past
  | act a next ih =>
    exact ⟨trivial, fun r _ => (ih r (h.2 r) _).mono fun _ _ added => (h.1.adds r).trans added⟩

end Record

/-! ### Executions -/

section Execution

variable {locker : Locker} {job job' : Job} {layout : Layout} {key : String}

/-- The run of a step is recorded under its labels, unless it fails. -/
theorem Job.IsStage.runStep_records (stage : job.IsStage job') (hl : locker.layout job = .ok layout)
    (step : Galley.Step) (key : String) (past : List Event) :
    (job'.runStep locker step).Follows record (fun past' r => (∃ e, r = .error e) ∨
      Adds key [layout.labels job step] past past') past := by
  rcases job'.runStep_cases locker step with ⟨e, he⟩ | ⟨layout', timeout, hl', hr⟩
  · rw [he]
    exact .inl ⟨e, rfl⟩
  · rw [stage.layout, hl] at hl'
    obtain rfl := Except.ok.inj hl'
    rw [hr]
    refine ⟨trivial, fun made _ => ?_⟩
    cases made with
    | error e => exact .inl ⟨_, rfl⟩
    | ok _ =>
      refine ⟨trivial, fun removed _ => ?_⟩
      have launched := (StepRun.launch_runs job' step layout timeout).mono fun _ h => h.isPlain
      refine (launched.records key _).mono fun past' _ added => .inr ?_
      have begun := (adds_run (layout.labels job' step) removed).trans added
      rw [stage.labels] at begun
      exact (Action.IsPlain.adds (a := .makeDirs layout) trivial (.ok ())).trans begun

/-- Whether runs are of steps of a job that do not run once later. -/
def OfOthers (job : Job) (layout : Layout) (runs : List Labels) : Prop :=
  ∀ labels ∈ runs, ∃ s ∈ job.recipe.steps, s.isDelayed = false ∧ labels = layout.labels job s

theorem ofOthers_nil (job : Job) (layout : Layout) : OfOthers job layout [] :=
  fun _ h => absurd h List.not_mem_nil

theorem OfOthers.append {runs runs' : List Labels} (h : OfOthers job layout runs)
    (h' : OfOthers job layout runs') : OfOthers job layout (runs ++ runs') :=
  fun labels mem => (List.mem_append.mp mem).elim (h labels) (h' labels)

theorem ofOthers_singleton {step : Galley.Step} (mem : step ∈ job.recipe.steps)
    (kind : step.isDelayed = false) : OfOthers job layout [layout.labels job step] := by
  intro labels own
  exact ⟨step, mem, kind, List.mem_singleton.mp own⟩

/-- What the execution of a recipe does to the record. -/
def AddsOthers (job : Job) (layout : Layout) (key : String) (past past' : List Event)
    (r : Except ExecutionError Unit) : Prop :=
  (∃ e, r = .error (.step e)) ∨ ∃ runs, Adds key runs past past' ∧ OfOthers job layout runs

theorem Adds.others {past past' : List Event} (h : Adds key [] past past')
    (r : Except ExecutionError Unit) : AddsOthers job layout key past past' r :=
  .inr ⟨[], h, ofOthers_nil job layout⟩

/-- What was added before counts as well. -/
theorem AddsOthers.after {past past' past'' : List Event} {runs : List Labels}
    {r : Except ExecutionError Unit} (h : AddsOthers job layout key past' past'' r)
    (first : Adds key runs past past') (others : OfOthers job layout runs) :
    AddsOthers job layout key past past'' r :=
  h.imp_right fun ⟨runs', added, others'⟩ =>
    ⟨runs' ++ runs, first.trans added, others'.append others⟩

namespace Execution

theorem tellApp_plain (job : Job) (text : String) : (tellApp job text).Only Action.IsPlain :=
  tellApp_only (fun _ => trivial) job text

theorem fileStep_plain (job : Job) (step : Galley.Step) (q : QueueName) (trigger : Trigger) :
    (fileStep job step q trigger).Only Action.IsPlain :=
  fileStep_only trivial (fun _ _ => trivial) job step q trigger

theorem runSteps_records (stage : job.IsStage job') (hl : locker.layout job = .ok layout)
    (key : String) {steps : List Galley.Step} (own : ∀ s ∈ steps, s ∈ job.recipe.steps)
    (past : List Event) :
    (runSteps locker job' steps).Follows record (AddsOthers job layout key past) past := by
  induction steps generalizing job' past with
  | nil => exact (Adds.refl key past).others _
  | cons s rest ih =>
    have rest' : ∀ s ∈ rest, s ∈ job.recipe.steps := fun s h => own s (List.mem_cons_of_mem _ h)
    have filed (q : QueueName) (trigger : Trigger) :
        ((fileStep (atStep job' s) s q trigger).andThen id fun _ =>
          runSteps locker (atStep job' s) rest).Follows record (AddsOthers job layout key past)
          past := by
      refine ((fileStep_plain _ s q trigger).records key past).andThen
        (fun past' e added => added.others _) fun past' _ added => ?_
      exact (ih (stage.atStep s) rest' past').mono fun _ _ h =>
        h.after added (ofOthers_nil job layout)
    rw [runSteps]
    split
    · exact (Adds.refl key past).others _
    · next parsed =>
      have kind : s.isDelayed = false := by rw [Step.isDelayed, parsed]
      refine ((stage.atStep s).runStep_records hl s key past).andThen
        (fun past' e _ => .inl ⟨e, rfl⟩) fun past' outcome added => ?_
      have ran := added.resolve_left fun ⟨_, h⟩ => nomatch h
      exact (ih ((stage.atStep s).withEnv _) rest' past').mono fun _ _ h =>
        h.after ran (ofOthers_singleton (own s List.mem_cons_self) kind)
    · exact filed .delayed _
    · exact filed .recurring _

theorem runRecipe_records (hl : locker.layout job = .ok layout) (key : String) (past : List Event) :
    (runRecipe locker job).Follows record (AddsOthers job layout key past) past := by
  refine ((tellApp_plain job _).records key past).bind fun past₁ _ begun => ?_
  have steps := runSteps_records job.isStage_self hl key (fun _ h => h) past₁
  refine steps.andThen (fun _ _ h => h.after begun (ofOthers_nil job layout)) fun past₂ _ h => ?_
  obtain ⟨runs, added, others⟩ := h.resolve_left fun ⟨_, h⟩ => nomatch h
  refine ((tellApp_plain job _).records key past₂).bind fun past₃ _ ended => .inr ?_
  exact ⟨runs, by simpa using begun.trans (added.trans ended), others⟩

/-- What is recorded of the execution of a filed step: its run, or the refusal. -/
def RunsOrRefused (job : Job) (layout : Layout) (key : String) (step : Galley.Step)
    (past : List Event) (r : Except ExecutionError Unit) : Prop :=
  (r = .ok () ∧ runsIn past = [layout.labels job step] ∧ refusal key ∉ past) ∨
    (r = .error .nowRunning ∧ runsIn past = [] ∧ refusal key ∈ past)

/-- Whether nothing was run and nothing refused. -/
structure Unrun (key : String) (past : List Event) : Prop where
  runs : runsIn past = []
  accepted : refusal key ∉ past

theorem Unrun.add {past past' : List Event} {runs : List Labels} (h : Unrun key past)
    (added : Adds key runs past past') : runsIn past' = runs ∧ refusal key ∉ past' :=
  ⟨by rw [added.runs, h.runs, List.append_nil], fun mem => h.accepted (added.refused.mp mem)⟩

theorem runFiledStep_records {s : StepJob} (stage : job.IsStage s.job)
    (hl : locker.layout job = .ok layout) (hkey : job.key .now = .ok key) {past : List Event}
    (unrun : Unrun key past) : (runFiledStep locker s).Follows record
      (fun past' r => (∃ e, r = .error (.step e)) ∨ RunsOrRefused job layout key s.step past' r)
      past := by
  unfold runFiledStep
  rw [stage.key, hkey]
  refine ⟨trivial, fun taken _ => ?_⟩
  cases taken with
  | false =>
    have none : runsIn (⟨.tryAcquire key, false⟩ :: past) = [] := unrun.runs
    exact .inr (.inr ⟨rfl, none, List.mem_cons_self⟩)
  | true =>
    have taken : Adds key [] past (⟨.tryAcquire key, true⟩ :: past) := by
      refine ⟨rfl, fun mem => (List.mem_cons.mp mem).resolve_left fun same => ?_,
        List.mem_cons_of_mem _⟩
      exact nomatch eq_of_heq (Event.mk.inj same).2
    refine ((stage.atStep s.step).runStep_records hl s.step key _).bind fun past' r h => ?_
    refine ⟨trivial, fun _ _ => ?_⟩
    rcases h with ⟨e, rfl⟩ | ran
    · exact .inl ⟨e, rfl⟩
    · have unmarked := adds_unmark key key past'
      obtain ⟨runs, refused⟩ := unrun.add ((taken.trans ran).trans unmarked)
      cases r with
      | error e => exact .inl ⟨e, rfl⟩
      | ok outcome => exact .inr (.inl ⟨rfl, runs, refused⟩)

/-- What is recorded of an execution that is over. -/
def Records (job : Job) (layout : Layout) (key : String) (f : Filed) (past : List Event)
    (r : Except ExecutionError Unit) : Prop :=
  (∃ e, r = .error (.step e)) ∨ match f.task with
    | .recipe _ => OfOthers job layout (runsIn past)
    | .step s => RunsOrRefused job layout key s.step past r

end Execution

/-- The execution of a recipe runs no step that runs once later, and that of a filed step runs it
once or is refused, unless a step fails. -/
theorem Filed.execute_records {f : Filed} {q : QueueName} (stems : f.task.StemsFrom job q)
    (hl : locker.layout job = .ok layout) (hkey : job.key .now = .ok key) {past : List Event}
    (unrun : Execution.Unrun key past) :
    (f.execute locker).Follows record (Execution.Records job layout key f) past := by
  have stage := stems.isStage
  unfold Filed.execute Execution.Records
  cases ht : f.task with
  | recipe job' =>
    obtain rfl : job' = job := by
      rw [ht] at stems
      cases stems
      rfl
    refine (Execution.runRecipe_records hl key past).bind fun past' r h => ⟨trivial, fun _ _ => ?_⟩
    refine h.imp_right fun ⟨runs, added, others⟩ => ?_
    have unmarked := adds_unmark key f.key past'
    change OfOthers job' layout (runsIn (⟨.unmark f.key, ()⟩ :: past'))
    rw [(unrun.add (added.trans unmarked)).1]
    exact others
  | step s =>
    rw [ht] at stage
    refine (Execution.runFiledStep_records stage hl hkey unrun).bind fun past' r h => ?_
    refine ⟨trivial, fun _ _ => h.imp_right ?_⟩
    have unmarked := adds_unmark key f.key past'
    rintro (⟨rfl, runs, accepted⟩ | ⟨rfl, runs, refused⟩)
    · exact .inl ⟨rfl, unmarked.runs.trans runs, fun mem => accepted (unmarked.refused.mp mem)⟩
    · exact .inr ⟨rfl, unmarked.runs.trans runs, unmarked.refused.mpr refused⟩

end Execution

/-! ### Looks -/

namespace Dispatch

theorem popDue_plain (q : QueueName) : (popDue q).Only Action.IsPlain := by
  refine ⟨trivial, fun r => ?_⟩
  cases r with
  | error e => trivial
  | ok f =>
    refine ⟨trivial, fun now => ?_⟩
    change Process.Only _ (ite _ _ _)
    split
    · exact (putBack_only (fun _ => trivial) (fun _ _ => trivial) q f).bind fun _ => trivial
    · exact (recur_only (fun _ _ => trivial) q f now).bind fun _ => trivial

/-- A look runs nothing. -/
theorem popDue_records (q : QueueName) (key : String) :
    (popDue q).Follows record (fun past _ => Execution.Unrun key past) [] := by
  refine ((popDue_plain q).records key []).mono fun past _ added => ?_
  exact ⟨added.runs, fun mem => absurd (added.refused.mp mem) List.not_mem_nil⟩

end Dispatch

end Galley
