import Galley.Proofs.Carriage
import Galley.Proofs.Runs
import Galley.Proofs.Solitude
import Galley.Proofs.Trigger.Expression
/-!
# Jobs that can be executed

What was checked when a job was submitted is what its execution relies on. A misfit is an error that a
check could have found: a trigger or a time that cannot be read, a job without a key or a place, a task
that its queue refuses. Main statement: the execution of an accepted job fails with no misfit, and
neither does that of any step that it files, once that has been read back from its queue.
-/
namespace Galley

open Process

/-! ### Misfits -/

def StepError.IsMisfit : StepError → Prop
  | .scope _ | .timeout _ => True
  | .locker _ | .files _ | .container _ | .reported _ _ | .timedOut _ _ | .cancelled _ => False

def QueueError.IsMisfit : QueueError → Prop
  | .record _ | .validation _ | .wrongKind _ => True
  | .notFound | .io _ => False

def ExecutionError.IsMisfit : ExecutionError → Prop
  | .key _ | .trigger _ => True
  | .queue e => e.IsMisfit
  | .step e => e.IsMisfit
  | .nowRunning => False

/-- Whether a result is no error of a kind. -/
def Avoids {ε α : Type} (bad : ε → Prop) (r : Except ε α) : Prop := ∀ e, r = .error e → ¬ bad e

theorem Avoids.ok {ε α : Type} (bad : ε → Prop) (a : α) : Avoids bad (.ok a) := fun _ h => nomatch h

theorem Avoids.error {ε α : Type} {bad : ε → Prop} {e : ε} (h : ¬ bad e) :
    Avoids bad (.error e : Except ε α) := fun _ same => Except.error.inj same ▸ h

/-- A process that may fail, and what is done with its result. -/
theorem Process.Ends.andThen {ε α β : Type} {bad : ε → Prop} {p : Process (Except ε α)}
    {f : α → Process (Except ε β)} (h : p.Ends (Avoids bad)) (hf : ∀ a, (f a).Ends (Avoids bad)) :
    (p.andThen id f).Ends (Avoids bad) :=
  h.bind fun r hr =>
    match r with
    | .error e => Avoids.error (hr e rfl)
    | .ok a => hf a

/-! ### The run of a step -/

namespace StepRun

def Fine (v : Verdict) : Prop := Avoids StepError.IsMisfit v.1

theorem drain_ends (s : Supervision) (exitCode : Int) (drainEnd : Nat) (closes : Bool) (o : Output)
    (lines : List String) : (drain s exitCode drainEnd closes o lines).Ends Fine := by
  induction lines generalizing o with
  | nil =>
    rw [drain]
    split <;> exact fun _ => Avoids.ok _ exitCode
  | cons text rest ih =>
    intro more
    cases more with
    | false => exact Avoids.ok _ exitCode
    | true =>
      rintro ⟨o, outcome⟩
      cases outcome with
      | failed message => exact Avoids.error id
      | «continue» => exact ih o

theorem finish_ends (s : Supervision) (closes : Bool) (o : Output) (left : List String)
    (ending : Ending) : (finish s closes o left ending).Ends Fine := by
  cases ending with
  | exited result =>
    cases result with
    | error e => exact Avoids.error id
    | ok exitCode => exact fun drainEnd => drain_ends s exitCode drainEnd closes o left
  | deadline => exact fun _ => Avoids.error id
  | cancelled => exact fun _ => Avoids.error id

theorem follow_ends (s : Supervision) (closes : Bool) (o : Output) (lines : List String) :
    (follow s closes o lines).Ends Fine := by
  induction lines generalizing o with
  | nil =>
    rw [follow]
    split
    · intro r
      cases r with
      | some ending => exact finish_ends s closes o [] ending
      | none => exact fun ending => finish_ends s closes o [] ending
    · exact fun ending => finish_ends s closes o [] ending
  | cons text rest ih =>
    intro r
    cases r with
    | some ending => exact finish_ends s closes o (text :: rest) ending
    | none =>
      rintro ⟨o, outcome⟩
      cases outcome with
      | failed message => exact fun _ => Avoids.error id
      | «continue» => exact ih o

theorem supervise_ends (step : Nat) (route : Route) (name : String) (timeout : Duration)
    (o : Output) : (supervise step route name timeout o).Ends Fine := by
  intro r
  cases r with
  | error e => exact Avoids.error id
  | ok stream => exact fun deadline watch => follow_ends _ _ _ _

theorem ensureImage_ends (image registryAuth : String) :
    (ensureImage image registryAuth).Ends (Avoids StepError.IsMisfit) := by
  intro r
  match r with
  | .error e => exact Avoids.error id
  | .ok true => exact Avoids.ok _ ()
  | .ok false =>
    intro r
    cases r with
    | error e => exact Avoids.error id
    | ok _ => exact Avoids.ok _ ()

theorem openOutput_ends (job : Job) (step : Step) (layout : Layout) (image imageHash : String) :
    (openOutput job step layout image imageHash).Ends (Avoids StepError.IsMisfit) := by
  intro r
  cases r with
  | error e => exact Avoids.error id
  | ok _ =>
    intro r
    cases r with
    | error e => exact Avoids.error id
    | ok log => exact Avoids.ok _ _

theorem runContainer_ends (job : Job) (step : Step) (layout : Layout) (image : String)
    (timeout : Duration) (o : Output) :
    (runContainer job step layout image timeout o).Ends (Avoids StepError.IsMisfit) := by
  intro r
  cases r with
  | error e => exact Avoids.error id
  | ok id =>
    refine (supervise_ends _ _ _ _ _).bind ?_
    rintro ⟨result, o⟩ fine o' _
    cases result with
    | error e => exact Avoids.error (fine e rfl)
    | ok exitCode => exact Avoids.ok _ _

theorem launch_ends (job : Job) (step : Step) (layout : Layout) (timeout : Duration) :
    (launch job step layout timeout).Ends (Avoids StepError.IsMisfit) := by
  refine (ensureImage_ends _ _).andThen fun _ r => ?_
  cases r with
  | error e => exact Avoids.error id
  | ok id => exact (openOutput_ends _ _ _ _ _).andThen fun _ => runContainer_ends _ _ _ _ _ _

end StepRun

/-- The run of a step whose time can be read and whose job has a place fails with no misfit. -/
theorem Job.runStep_ends {locker : Locker} {job : Job} {step : Step} {timeout : Duration}
    (ht : job.stepTimeout step = .ok timeout) {layout : Layout}
    (hl : locker.layout job = .ok layout) :
    (job.runStep locker step).Ends (Avoids StepError.IsMisfit) := by
  unfold Job.runStep
  rw [ht, hl]
  intro r
  cases r with
  | error e => exact Avoids.error id
  | ok _ => exact fun _ => StepRun.launch_ends _ _ _ _

/-- The time that a valid step may take can be read. -/
theorem Job.exists_stepTimeout (job : Job) {step : Step} (h : step.validate = .ok ()) :
    ∃ timeout, job.stepTimeout step = .ok timeout := by
  unfold Job.stepTimeout
  split
  · next given =>
    unfold Step.validate at h
    obtain ⟨⟨⟩, -, h⟩ := bind_eq_ok.mp h
    obtain ⟨⟨⟩, -, h⟩ := bind_eq_ok.mp h
    split at h
    · exact nomatch h
    · rw [if_neg given] at h
      split at h
      · exact nomatch h
      · next d hd => exact ⟨d, hd⟩
  · split <;> exact ⟨_, rfl⟩

/-! ### Steps that were filed -/

/-- Whether the execution of a task, whenever it takes place, fails with no misfit. -/
def Filed.Executable (locker : Locker) (f : Filed) : Prop :=
  ∀ (s s' : Shared) (past past' : List Event) (n : Nat) (r : Except ExecutionError Unit),
    Course.Run s ⟨f.execute locker, past, 0⟩ s' ⟨.done r, past', n⟩ →
      Avoids ExecutionError.IsMisfit r

/-- Whether a task is a step of a job that its queue does not refuse and that can be executed. -/
structure Filed.Ready (locker : Locker) (job : Job) (q : QueueName) (f : Filed) : Prop where
  step : ∃ step ∈ job.recipe.steps, ∃ job', job.IsStage job' ∧ f.task = .step ⟨step, job'⟩
  valid : f.validate = .ok ()
  fits : f.fits q = true
  executable : f.Executable locker

theorem Filed.validate_of_check {q : QueueName} {f : Filed} (h : Queue.check q f = .ok ()) :
    f.validate = .ok () := by
  unfold Queue.check at h
  split at h
  · exact nomatch h
  · next valid => exact valid

/-- What an accepted job relies on when it is executed. -/
structure Job.Accepted (job : Job) : Prop where
  range : job.InRange
  valid : job.validateSubmission = .ok ()
  key : ∃ key, job.key .now = .ok key

namespace Job.Accepted

variable {job job' : Job} {step : Step}

theorem stage (h : job.Accepted) (stage : job.IsStage job') : job'.Accepted := by
  obtain ⟨stepId, env, rfl⟩ := stage
  exact ⟨h.range.withEnv stepId env, h.valid, h.key⟩

theorem validStep (h : job.Accepted) (hs : step ∈ job.recipe.steps) : step.validate = .ok () :=
  (Job.validateSubmission_iff.mp h.valid).2 step hs

theorem exists_key (h : job.Accepted) (q : QueueName) : ∃ key, job.key q = .ok key := by
  obtain ⟨key, hkey⟩ := h.key
  exact Job.exists_key hkey q

theorem runStep_ends (h : job.Accepted) (hs : step ∈ job.recipe.steps) (locker : Locker) :
    (job.runStep locker step).Ends (Avoids StepError.IsMisfit) := by
  obtain ⟨timeout, ht⟩ := job.exists_stepTimeout (h.validStep hs)
  obtain ⟨key, hkey⟩ := h.key
  obtain ⟨layout, hl⟩ := Submission.exists_layout locker hkey
  exact Job.runStep_ends ht hl

theorem executable (h : job.Accepted) (hs : step ∈ job.recipe.steps) {f : Filed}
    (task : f.task = .step ⟨step, job⟩) (locker : Locker) : f.Executable locker := by
  intro s s' past past' n r run
  obtain ⟨key, hkey⟩ := h.key
  refine run.ensured (fun _ _ r => Avoids ExecutionError.IsMisfit r) (Ends.ensures ?_ s past)
  rw [Execution.execute_eq locker task hkey]
  intro taken
  cases taken with
  | false => exact fun _ => Avoids.error id
  | true =>
    refine ((h.stage (job.isStage_self.atStep step)).runStep_ends hs locker).bind fun r hr _ _ => ?_
    cases r with
    | error e => exact Avoids.error (hr e rfl)
    | ok outcome => exact Avoids.ok _ ()

/-- A step of the job that its queue does not refuse is ready, however it was stored. -/
theorem ready (h : job.Accepted) (stage : job.IsStage job') (hs : step ∈ job.recipe.steps)
    {f : Filed} (task : f.task = .step ⟨step, job'⟩) {q : QueueName}
    (check : Queue.check q f = .ok ()) (locker : Locker) : f.Ready locker job q := by
  have there : step ∈ job'.recipe.steps := by
    obtain ⟨_, _, rfl⟩ := stage
    exact hs
  exact ⟨⟨step, hs, job', stage, task⟩, Filed.validate_of_check check, Queue.fits_of_check check,
    (h.stage stage).executable there task locker⟩

end Job.Accepted

/-! ### What an execution leaves in the queues -/

/-- Whether one state came of another by filing steps of a job that are ready. -/
structure Shared.Supplied (locker : Locker) (job : Job) (s s' : Shared) : Prop where
  named : s'.Named
  tasks : ∀ q, ∃ new, (s'.tasks q).Perm (new ++ s.tasks q) ∧ ∀ f ∈ new, f.Ready locker job q

namespace Shared.Supplied

variable {locker : Locker} {job job' : Job} {step : Step} {s s' s'' : Shared}

theorem refl (named : s.Named) : s.Supplied locker job s :=
  ⟨named, fun _ => ⟨[], .refl _, fun _ h => nomatch h⟩⟩

theorem trans (h : s.Supplied locker job s') (h' : s'.Supplied locker job s'') :
    s.Supplied locker job s'' where
  named := h'.named
  tasks q := by
    obtain ⟨first, perm, ready⟩ := h.tasks q
    obtain ⟨second, perm', ready'⟩ := h'.tasks q
    refine ⟨second ++ first, ?_, List.forall_mem_append.mpr ⟨ready', ready⟩⟩
    rw [List.append_assoc]
    exact perm'.trans (perm.append_left second)

theorem of_filing (h : job.Accepted) (stage : job.IsStage job') (hs : step ∈ job.recipe.steps)
    {q : QueueName} {f : Filed} (task : f.task = .step ⟨step, job'⟩)
    (check : Queue.check q f = .ok ()) (filing : Shared.Filing q f s s') :
    s.Supplied locker job s' where
  named := filing.named
  tasks q' := by
    by_cases hq : q' = q
    · subst hq
      obtain ⟨t, before, behind, -, -, whole, new⟩ := filing.tasks
      refine ⟨[(s.shelves q').stored { f with nextRun := t }], ?_, fun g hg => ?_⟩
      · rw [new, whole]
        exact List.perm_middle
      · obtain rfl := List.mem_singleton.mp hg
        have same (shelf : Shelf) : (shelf.stored { f with nextRun := t }).task = f.task ∧
            (shelf.stored { f with nextRun := t }).key = f.key := by
          cases shelf <;> exact ⟨rfl, rfl⟩
        have ⟨sameTask, sameKey⟩ := same (s.shelves q')
        exact h.ready stage hs (sameTask.trans task)
          ((Queue.check_congr sameTask sameKey).trans check) locker
    · refine ⟨[], ?_, fun _ h => nomatch h⟩
      rw [List.nil_append, Shared.tasks, filing.others q' hq]
      rfl

end Shared.Supplied

namespace Execution

variable {locker : Locker} {job job' : Job} {step : Step} {s : Shared} {q : QueueName}

/-- What the parts of an execution ensure. -/
def Supplies (locker : Locker) (job : Job) (s s' : Shared) (_ : List Event)
    (r : Except ExecutionError Unit) : Prop :=
  Avoids ExecutionError.IsMisfit r ∧ s.Supplied locker job s'

/-- A step is filed under the job's key for the queue, unless a directory is in the way. -/
theorem fileStep_files (h : job.Accepted) (stage : job.IsStage job') (hs : step ∈ job.recipe.steps)
    (hq : q ≠ .now) {trigger : Trigger}
    (once : q ≠ .recurring → ∃ delay expired, trigger = .runOnce delay expired) (named : s.Named)
    (past : List Event) :
    (fileStep job' step q trigger).Ensures (fun s' past' r =>
      r = .error (.queue (.io .isDirectory)) ∧ s' = s ∨
        ∃ key now t, r = .ok () ∧ job'.key q = .ok key ∧
          Queue.check q (stepTask job' step key trigger now) = .ok () ∧
          Shared.FilingAt q (stepTask job' step key trigger now) t s s' ∧
          past' = ⟨.push q (stepTask job' step key trigger now), .ok t⟩ :: ⟨.now, now⟩ :: past)
      s past := by
  have accepted := h.stage stage
  obtain ⟨key, hkey⟩ := accepted.exists_key q
  have there : step ∈ job'.recipe.steps := by
    obtain ⟨_, _, rfl⟩ := stage
    exact hs
  unfold fileStep
  rw [hkey]
  intro now s₁ does
  obtain rfl := does_quiet (a := .now) trivial does
  intro r s₂ does
  have proper := stepTask_proper accepted.range accepted.valid there hq hkey once now
  rcases does.push_at named ⟨proper.inRange, proper.check⟩ with ⟨rfl, rfl⟩ | ⟨t, rfl, filing⟩
  · exact .inl ⟨rfl, rfl⟩
  · exact .inr ⟨key, now, t, rfl, rfl, proper.check, filing, rfl⟩

theorem fileStep_ensures (h : job.Accepted) (stage : job.IsStage job')
    (hs : step ∈ job.recipe.steps) (hq : q ≠ .now) {trigger : Trigger}
    (once : q ≠ .recurring → ∃ delay expired, trigger = .runOnce delay expired) (named : s.Named)
    (past : List Event) :
    (fileStep job' step q trigger).Ensures (Supplies locker job s) s past := by
  refine (fileStep_files h stage hs hq once named past).mono ?_
  rintro _ _ _ (⟨rfl, rfl⟩ | ⟨key, now, t, rfl, -, check, filing, -⟩)
  · exact ⟨Avoids.error id, .refl named⟩
  · exact ⟨Avoids.ok _ (), .of_filing h stage hs rfl check filing.filing⟩

/-- The steps of an accepted job are run or filed with no misfit, each in front of the others. -/
theorem runSteps_ensures (h : job.Accepted) (steps : List Step)
    (mem : ∀ step ∈ steps, step ∈ job.recipe.steps) (stage : job.IsStage job') (named : s.Named)
    (past : List Event) :
    (runSteps locker job' steps).Ensures (Supplies locker job s) s past := by
  induction steps generalizing job' s past with
  | nil => exact ⟨Avoids.ok _ (), .refl named⟩
  | cons step rest ih =>
    obtain ⟨hs, others⟩ := List.forall_mem_cons.mp mem
    have here := stage.atStep step
    obtain ⟨t, parsed⟩ := Step.parse_of_validate (h.validStep hs)
    rw [runSteps, StepTrigger.trimBlanks_of_parse parsed, parsed]
    -- what is filed here stays beside what the other steps file
    have later {s₁ : Shared} (supplied : s.Supplied locker job s₁) (past : List Event)
        {job₁ : Job} (stage₁ : job.IsStage job₁) :
        (runSteps locker job₁ rest).Ensures (Supplies locker job s) s₁ past := by
      refine (ih others stage₁ supplied.named past).mono ?_
      rintro _ _ _ ⟨avoids, more⟩
      exact ⟨avoids, supplied.trans more⟩
    cases t with
    | now =>
      have there : step ∈ (atStep job' step).recipe.steps := by
        obtain ⟨_, _, rfl⟩ := stage
        exact hs
      have ends := (h.stage here).runStep_ends there locker
      refine (((Job.runStep_quiet locker _ step).ensures s past).and (ends.ensures s past)).andThen
        ?_ ?_
      · rintro _ _ e ⟨rfl, avoids⟩
        exact ⟨Avoids.error (avoids e rfl), .refl named⟩
      · rintro _ past₁ outcome ⟨rfl, -⟩
        exact later (.refl named) past₁ (here.withEnv _)
    | once delay =>
      refine (fileStep_ensures h here hs (by decide) (fun _ => ⟨_, _, rfl⟩) named past).andThen
        (fun _ _ e failed => ⟨Avoids.error (failed.1 e rfl), failed.2⟩) ?_
      exact fun _ past₁ _ filed => later filed.2 past₁ here
    | every interval =>
      refine (fileStep_ensures h here hs (by decide) (fun other => absurd rfl other) named past).andThen
        (fun _ _ e failed => ⟨Avoids.error (failed.1 e rfl), failed.2⟩) ?_
      exact fun _ past₁ _ filed => later filed.2 past₁ here

theorem runRecipe_ensures (h : job.Accepted) (named : s.Named) (past : List Event) :
    (runRecipe locker job).Ensures (Supplies locker job s) s past := by
  refine ((tellApp_quiet job _).ensures s past).bind ?_
  rintro _ past₁ - rfl
  refine (runSteps_ensures h _ (fun _ => id) job.isStage_self named past₁).andThen
    (fun _ _ e failed => ⟨Avoids.error (failed.1 e rfl), failed.2⟩) ?_
  intro s₂ past₂ _ supplied
  refine ((tellApp_quiet job _).ensures s₂ past₂).bind ?_
  rintro _ past₃ - rfl
  exact ⟨Avoids.ok _ (), supplied.2⟩

end Execution

/-- The execution of an accepted job fails with no misfit, whatever the queues hold and whatever its
steps come to. All that it leaves in the queues are steps that the queues accept and whose execution
fails with no misfit either. -/
theorem accepted_executable {locker : Locker} {job : Job} {key : String} (range : job.InRange)
    (valid : job.validateSubmission = .ok ()) (hkey : job.key .now = .ok key) {f : Filed}
    (task : f.task = .recipe job) {s s' : Shared} (named : s.Named) {past past' : List Event}
    {n : Nat} {r : Except ExecutionError Unit}
    (run : Course.Run s ⟨f.execute locker, past, 0⟩ s' ⟨.done r, past', n⟩) :
    Avoids ExecutionError.IsMisfit r ∧
      ∀ q, ∃ filed, (s'.tasks q).Perm (filed ++ s.tasks q) ∧ ∀ g ∈ filed, g.Ready locker job q := by
  have accepted : job.Accepted := ⟨range, valid, key, hkey⟩
  refine run.ensured (fun s' _ r => Avoids ExecutionError.IsMisfit r ∧
    ∀ q, ∃ filed, (s'.tasks q).Perm (filed ++ s.tasks q) ∧ ∀ g ∈ filed, g.Ready locker job q) ?_
  unfold Filed.execute
  rw [task]
  refine (Execution.runRecipe_ensures accepted named past).bind ?_
  rintro s₁ past₁ r ⟨avoids, supplied⟩ ⟨⟩ s₂ does
  cases does with
  | once answers =>
    cases answers with
    | quiet _ _ quiet => exact quiet.elim
    | unmark => exact ⟨avoids, supplied.tasks⟩

open Feast in
theorem accepted_executable_feast :
    Job.feast.InRange ∧ Job.feast.validateSubmission = .ok () ∧ Job.feast.key .now = .ok nowKey ∧
      (larder [nowKey] [] []).Named ∧
      Course.Run (larder [nowKey] [] [])
        ⟨filed.execute locker, [⟨.now, filed.nextRun⟩, ⟨.pop .now, .ok filed⟩], 0⟩
        (larder [] [] [simmer, bake]) ⟨.done (.ok ()), cooked, 0⟩ ∧
      Avoids ExecutionError.IsMisfit (.ok () : Except ExecutionError Unit) ∧
      ∀ q, ∃ new, ((larder [] [] [simmer, bake]).tasks q).Perm
          (new ++ (larder [nowKey] [] []).tasks q) ∧
        ∀ g ∈ new, g.Ready locker Job.feast q := by
  have named : (larder [nowKey] [] []).Named := by
    intro q
    cases q <;> trivial
  exact ⟨Job.feast_inRange, Job.feast_valid, feast_nowKey, named, run_filed,
    accepted_executable Job.feast_inRange Job.feast_valid feast_nowKey rfl named run_filed⟩

end Galley
