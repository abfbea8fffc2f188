import Galley.Proofs.Carriage
import Galley.Proofs.Runs
import Galley.Proofs.Trigger.Expression
/-!
# Steps that run once later

A recipe that is submitted alone owes each of its steps that run once later one execution. The debt
goes from the submission to the filed recipe, from there to its execution and to the filed steps, and
stays in the end with the executions of these steps. Main statement: when nothing is under way any
more, each such step has had one execution, and that has run the step once unless it found its recipe
running.
-/
namespace Galley

open Process

/-! ### What is owed -/

/-- How often a task owes a step its execution. -/
def Filed.dues (f : Filed) (step : Galley.Step) : Nat := f.task.delayedSteps.count step

/-! ### The service of a step -/

/-- What a call owes a step after an action. -/
def Action.owed (step : Galley.Step) (owed : Nat) : (a : Action) → a.Answer → Nat
  | .pop _, .ok f => owed + f.dues step
  | .push _ f, .ok _ => owed - f.dues step
  | .refile _ f, .ok _ => owed - f.dues step
  | _, _ => owed

/-- What a call owes a step after a past that it began with a debt. -/
def owedAfter (step : Galley.Step) (start : Nat) : List Event → Nat
  | [] => start
  | e :: past => e.action.owed step (owedAfter step start past) e.answer

theorem Action.owed_of_isQuiet (step : Galley.Step) (owed : Nat) {a : Action} (h : a.IsQuiet)
    (r : a.Answer) : a.owed step owed r = owed := by
  cases a <;> first | rfl | exact absurd h id

/-- What a call for a job may do by what it owes a step. It files nothing that owes more than itself,
and evicts only while nobody else owes anything. A free call never owes anything. It is promised that
queues hand out proper tasks of the job and take them. -/
def service (job : Job) (step : Galley.Step) (free : Prop) : Discipline Nat where
  allows owed a := (free → owed = 0) ∧ match a with
    | .push q f => f.task.StemsFrom job q ∧ f.dues step ≤ owed
    | .refile q f => f.task.StemsFrom job q ∧ f.dues step ≤ owed
    | .evict _ _ => owed = job.delayedSteps.count step
    | _ => True
  promises
    | .pop q, .ok f => f.task.StemsFrom job q ∧ f.Proper q
    | .push _ _, r => ∃ t, r = .ok t
    | .refile _ _, r => ∃ t, r = .ok t
    | _, _ => True
  after owed a r := a.owed step owed r

theorem service_quiet (job : Job) (step : Galley.Step) (owed : Nat) (a : Action) (h : a.IsQuiet) :
    (service job step False).allows owed a ∧
      ∀ r, (service job step False).after owed a r = owed :=
  ⟨⟨False.elim, by cases a <;> trivial⟩, Action.owed_of_isQuiet step owed h⟩

/-- A quiet process owes in the end what it owed before. -/
theorem Process.Quiet.service {α : Type} {p : Process α} (h : p.Quiet) (job : Job)
    (step : Galley.Step) (owed : Nat) :
    p.Follows (Galley.service job step False) (fun owed' _ => owed' = owed) owed :=
  h.follows (service_quiet job step) owed

namespace Dispatch

variable {job : Job} {step : Galley.Step} {q : QueueName} {f : Filed}

/-- What a look owes a step when it is over. -/
def Owes (job : Job) (step : Galley.Step) (q : QueueName) (owed : Nat) : Option Filed → Prop
  | none => owed = 0
  | some f => f.task.StemsFrom job q ∧ owed = f.dues step

theorem dues_of_recurring (hf : f.task.StemsFrom job q) (free : q = .recurring) :
    f.dues step = 0 := by
  subst free
  rw [Filed.dues, hf.delayedSteps_eq_nil, List.count_nil]

theorem putBack_serves (hf : f.task.StemsFrom job q) :
    (putBack q f).Follows (service job step (q = .recurring)) (fun owed _ => owed = 0)
      (f.dues step) := by
  have refile : (Process.act (.refile q f) fun _ => .done ()).Follows
      (service job step (q = .recurring)) (fun owed _ => owed = 0) (f.dues step) := by
    refine ⟨⟨dues_of_recurring hf, hf, Nat.le_refl _⟩, ?_⟩
    rintro r ⟨t, rfl⟩
    exact Nat.sub_self _
  unfold putBack
  split
  · exact ⟨⟨dues_of_recurring hf, trivial⟩, fun _ _ => refile⟩
  · exact refile

/-- A task that is filed for its next fire owes nothing. -/
theorem recur_serves (hf : f.task.StemsFrom job q) (proper : f.Proper q) (now : Int) :
    (recur q f now).Follows (service job step (q = .recurring)) (fun owed _ => owed = f.dues step)
      (f.dues step) := by
  unfold recur
  split
  · rfl
  · next time fires =>
    have again : q = .recurring := by
      by_contra other
      obtain ⟨delay, expired, once⟩ := proper.once other
      rw [once] at fires
      exact nomatch fires
    have none : f.dues step = 0 := dues_of_recurring hf again
    refine ⟨⟨fun _ => none, hf, Nat.le_refl _⟩, ?_⟩
    rintro r ⟨t, rfl⟩
    change f.dues step - f.dues step = f.dues step
    omega

/-- A look owes in the end what the task owes that it hands out. -/
theorem popDue_serves (job : Job) (step : Galley.Step) (q : QueueName) :
    (popDue q).Follows (service job step (q = .recurring)) (Owes job step q) 0 := by
  refine ⟨⟨fun _ => rfl, trivial⟩, fun r promised => ?_⟩
  cases r with
  | error e => rfl
  | ok f =>
    obtain ⟨stems, proper⟩ := promised
    have dues : (Action.pop q).owed step 0 (.ok f) = f.dues step := Nat.zero_add _
    have begun : (Process.act .now fun now =>
        if now < f.nextRun then (putBack q f).bind fun _ => .done none
        else (recur q f now).bind fun _ => .done (some f)).Follows
          (service job step (q = .recurring)) (Owes job step q) (f.dues step) := by
      refine ⟨⟨dues_of_recurring stems, trivial⟩, fun now _ => ?_⟩
      change Process.Follows _ _ (f.dues step) (ite _ _ _)
      split
      · exact (putBack_serves stems).bind fun owed _ h => h
      · exact (recur_serves stems proper now).bind fun owed _ h => ⟨stems, h⟩
    rw [← dues] at begun
    exact begun

end Dispatch

namespace Submission

variable {job : Job} {step : Galley.Step}

theorem evictAll_serves (queues : List QueueName) :
    (evictAll job queues).Follows (service job step False)
      (fun owed _ => owed = job.delayedSteps.count step) (job.delayedSteps.count step) := by
  induction queues with
  | nil => rfl
  | cons q rest ih =>
    rw [evictAll]
    split
    · rfl
    · refine ⟨⟨False.elim, rfl⟩, fun r _ => ?_⟩
      cases r with
      | error e => rfl
      | ok n => exact ih

theorem replacePrevious_serves (locker : Locker) :
    (replacePrevious locker job).Follows (service job step False)
      (fun owed _ => owed = job.delayedSteps.count step) (job.delayedSteps.count step) := by
  refine (evictAll_serves _).andThen (fun _ _ h => h) fun owed _ h => ?_
  subst h
  split
  · rfl
  · exact ((removeContainers_quiet _ job _).service job step _).bind fun _ _ h => h

/-- What a submission owes a step when it is over. -/
def Owes (job : Job) (owed : Nat) (r : Except SubmitError String) : Prop :=
  ∀ key, r = .ok key → owed = 0 ∧ job.key .now = .ok key

theorem owes_error (job : Job) (owed : Nat) (e : SubmitError) : Owes job owed (.error e) :=
  fun _ h => nomatch h

theorem filing_serves (locker : Locker) {key : String} (hkey : job.key .now = .ok key) :
    (filing locker job key).Follows (service job step False) (Owes job)
      (job.delayedSteps.count step) := by
  have file : (file job key).Follows (service job step False)
      (fun owed r => ∀ t, r = .ok t → owed = 0) (job.delayedSteps.count step) := by
    refine ⟨⟨False.elim, trivial⟩, fun now _ => ⟨⟨False.elim, .recipe, Nat.le_refl _⟩, ?_⟩⟩
    rintro r ⟨t, rfl⟩
    exact fun _ _ => Nat.sub_self _
  have whole : ((replacePrevious locker job).andThen id fun _ => Submission.file job key).Follows
      (service job step False) (fun owed r => ∀ t, r = .ok t → owed = 0)
      (job.delayedSteps.count step) := by
    refine (replacePrevious_serves locker).andThen (fun _ _ _ _ h => nomatch h) fun owed _ h => ?_
    subst h
    exact file
  refine whole.bind fun owed r h => ?_
  cases r with
  | error e => exact ⟨⟨False.elim, trivial⟩, fun _ _ => owes_error _ _ _⟩
  | ok t =>
    intro key' same
    obtain rfl := Except.ok.inj same
    exact ⟨h t rfl, hkey⟩

end Submission

/-- A submission that is accepted has handed on what it owed. -/
theorem Job.submit_serves (locker : Locker) (job : Job) (step : Galley.Step) :
    (job.submit locker).Follows (service job step False) (Submission.Owes job)
      (job.delayedSteps.count step) := by
  unfold Job.submit
  split
  · exact Submission.owes_error _ _ _
  · split
    · exact Submission.owes_error _ _ _
    · next key hkey =>
      refine (Submission.ping_quiet.service job step _).andThen
        (fun _ _ _ => Submission.owes_error _ _ _) fun owed _ h => ?_
      subst h
      refine ((Submission.checkImages_quiet job).service job step _).andThen
        (fun _ _ _ => Submission.owes_error _ _ _) fun owed _ h => ?_
      subst h
      refine ⟨⟨False.elim, trivial⟩, fun taken _ => ?_⟩
      cases taken with
      | false => exact Submission.owes_error _ _ _
      | true => exact Submission.filing_serves locker hkey

namespace Execution

variable {job job' : Job} {step step' : Galley.Step}

/-- A filed step takes over what is owed to it. -/
theorem fileStep_serves {q : QueueName} {trigger : Trigger} (stage : job.IsStage job')
    {key : String} (hkey : job.key q = .ok key) (stems : (Task.step ⟨step', job'⟩).StemsFrom job q) {owed : Nat}
    (enough : ([step'].filter Step.isDelayed).count step ≤ owed) :
    (fileStep job' step' q trigger).Follows (service job step False)
      (fun owed' r => r = .ok () ∧ owed' = owed - ([step'].filter Step.isDelayed).count step)
      owed := by
  unfold fileStep
  rw [stage.key, hkey]
  refine ⟨⟨False.elim, trivial⟩, fun now _ => ⟨⟨False.elim, stems, enough⟩, ?_⟩⟩
  rintro r ⟨t, rfl⟩
  exact ⟨rfl, rfl⟩

/-- The steps of a recipe that run once later are filed, unless a step fails before. -/
theorem runSteps_serves (locker : Locker) (stage : job.IsStage job')
    (valid : job.validateSubmission = .ok ()) (keys : ∀ q, ∃ key, job.key q = .ok key)
    {steps : List Galley.Step} (own : ∀ s ∈ steps, s ∈ job.recipe.steps) :
    (runSteps locker job' steps).Follows (service job step False)
      (fun owed r => (∃ e, r = .error (.step e)) ∨ r = .ok () ∧ owed = 0)
      ((steps.filter Step.isDelayed).count step) := by
  induction steps generalizing job' with
  | nil => exact .inr ⟨rfl, rfl⟩
  | cons s rest ih =>
    have mem := own s List.mem_cons_self
    have rest' : ∀ s ∈ rest, s ∈ job.recipe.steps := fun s h => own s (List.mem_cons_of_mem _ h)
    have whole : ((s :: rest).filter Step.isDelayed).count step =
        ([s].filter Step.isDelayed).count step + (rest.filter Step.isDelayed).count step := by
      rw [← List.count_append, ← List.filter_append, List.singleton_append]
    obtain ⟨laterKey, hlater⟩ := keys .delayed
    obtain ⟨againKey, hagain⟩ := keys .recurring
    rw [runSteps]
    split
    · next e parsed =>
      obtain ⟨t, ht⟩ := Step.parse_of_validate ((Job.validateSubmission_iff.mp valid).2 s mem)
      rw [StepTrigger.trimBlanks_of_parse ht, ht] at parsed
      cases parsed
    · next parsed =>
      have kind : s.isDelayed = false := by rw [Step.isDelayed, parsed]
      rw [List.filter_cons_of_neg (by simp [kind])]
      refine ((Job.runStep_quiet locker _ s).service job step _).andThen
        (fun _ e _ => .inl ⟨e, rfl⟩) fun owed outcome h => ?_
      subst h
      exact ih ((stage.atStep s).withEnv _) rest'
    · next delay parsed =>
      have kind : s.isDelayed = true := by rw [Step.isDelayed, parsed]
      refine (fileStep_serves (stage.atStep s) hlater (.delayed (stage.atStep s) mem kind)
        (by omega)).andThen (fun _ _ h => by cases h.1) fun owed _ h => ?_
      have left : owed = (rest.filter Step.isDelayed).count step := by
        have := h.2
        omega
      subst left
      exact ih (stage.atStep s) rest'
    · next interval parsed =>
      have kind : s.isDelayed = false := by rw [Step.isDelayed, parsed]
      refine (fileStep_serves (stage.atStep s) hagain (.recurring (stage.atStep s) mem kind)
        (by omega)).andThen (fun _ _ h => by cases h.1) fun owed _ h => ?_
      have left : owed = (rest.filter Step.isDelayed).count step := by
        have := h.2
        omega
      subst left
      exact ih (stage.atStep s) rest'

theorem runRecipe_serves (locker : Locker) (valid : job.validateSubmission = .ok ())
    (keys : ∀ q, ∃ key, job.key q = .ok key) :
    (runRecipe locker job).Follows (service job step False)
      (fun owed r => (∃ e, r = .error (.step e)) ∨ r = .ok () ∧ owed = 0)
      (job.delayedSteps.count step) := by
  refine ((tellApp_quiet _ _).service job step _).bind fun owed _ h => ?_
  subst h
  refine (runSteps_serves locker job.isStage_self valid keys fun _ h => h).andThen
    (fun _ e h => h.imp_right fun h => nomatch h.1) fun owed _ h => ?_
  obtain none : owed = 0 := h.elim (fun ⟨_, h⟩ => nomatch h) And.right
  subst none
  exact ((tellApp_quiet _ _).service job step 0).bind fun _ _ h => .inr ⟨rfl, h⟩

/-- The execution of a filed step owes to the end what it owed before. -/
theorem runFiledStep_serves (locker : Locker) (s : StepJob) (owed : Nat) :
    (runFiledStep locker s).Follows (service job step False) (fun owed' _ => owed' = owed) owed := by
  unfold runFiledStep
  split
  · rfl
  · refine ⟨⟨False.elim, trivial⟩, fun taken _ => ?_⟩
    cases taken with
    | false => rfl
    | true =>
      refine ((Job.runStep_quiet locker _ _).service job step owed).bind fun owed' r h => ?_
      subst h
      exact ⟨⟨False.elim, trivial⟩, fun _ _ => rfl⟩

/-- What an execution owes a step when it is over. -/
def Owes (step : Galley.Step) (f : Filed) (owed : Nat) (r : Except ExecutionError Unit) : Prop :=
  match f.task with
  | .recipe _ => (∃ e, r = .error (.step e)) ∨ owed = 0
  | .step _ => owed = f.dues step

end Execution

/-- An execution of a recipe hands on what it owes, unless a step fails, and that of a filed step
keeps it. -/
theorem Filed.execute_serves (locker : Locker) {job : Job} (step : Galley.Step) {q : QueueName}
    {f : Filed} (proper : f.Proper q) (stems : f.task.StemsFrom job q) :
    (f.execute locker).Follows (service job step False) (Execution.Owes step f) (f.dues step) := by
  have valid := stems.isStage.validateSubmission.symm.trans proper.submitted
  have hkey := (stems.isStage.key q).symm.trans proper.key
  unfold Filed.execute Filed.dues Execution.Owes
  cases ht : f.task with
  | recipe job' =>
    obtain rfl : job' = job := by
      rw [ht] at stems
      cases stems
      rfl
    refine (Execution.runRecipe_serves locker valid (Job.exists_key hkey)).bind fun owed r h => ?_
    exact ⟨⟨False.elim, trivial⟩, fun _ _ => h.imp_right And.right⟩
  | step s =>
    refine (Execution.runFiledStep_serves locker s _).bind fun owed r h => ?_
    refine ⟨⟨False.elim, trivial⟩, fun _ _ => h.trans ?_⟩
    rw [Filed.dues, ht]

/-! ### What is owed in the queues -/

namespace Shared

/-- Whether all filed tasks come of a submission of a job. -/
def StemsFrom (s : Shared) (job : Job) : Prop := ∀ q, ∀ f ∈ s.tasks q, f.task.StemsFrom job q

/-- What the tasks of all queues owe a step. -/
def dues (s : Shared) (step : Galley.Step) : Nat :=
  ((s.tasks .now ++ s.tasks .delayed ++ s.tasks .recurring).flatMap (·.task.delayedSteps)).count step

variable {s s' : Shared}

theorem Without.dues {q : QueueName} {f : Filed} (h : s.Without s' q f) (step : Galley.Step) :
    s.dues step = s'.dues step + f.dues step := by
  have here := (h.perm.flatMap_right (·.task.delayedSteps)).count_eq step
  rw [List.flatMap_cons, List.count_append] at here
  have there (q' : QueueName) (hq : q' ≠ q) : s.tasks q' = s'.tasks q' := by
    rw [tasks, tasks, h.others q' hq]
  unfold Shared.dues Filed.dues
  simp only [List.flatMap_append, List.count_append]
  cases q with
  | now =>
    rw [there .delayed (by decide), there .recurring (by decide)]
    omega
  | delayed =>
    rw [there .now (by decide), there .recurring (by decide)]
    omega
  | recurring =>
    rw [there .now (by decide), there .delayed (by decide)]
    omega

theorem StemsFrom.without {job : Job} {q : QueueName} {f : Filed} (h : s.StemsFrom job)
    (without : s.Without s' q f) : s'.StemsFrom job :=
  fun q' g hg => h q' g (without.mem hg)

theorem StemsFrom.filed {job : Job} {q : QueueName} {f : Filed} (h : s.StemsFrom job)
    (hf : f.task.StemsFrom job q) (without : s'.Without s q f) : s'.StemsFrom job := by
  intro q' g hg
  by_cases hq : q' = q
  · subst hq
    rcases List.mem_cons.mp (without.perm.mem_iff.mp hg) with rfl | hg
    · exact hf
    · exact h q' g hg
  · rw [tasks, ← without.others q' hq] at hg
    exact h q' g hg

end Shared

/-! ### Steps of one call -/

section Course

variable {α : Type} {job : Job} {step : Galley.Step} {free : Prop} {post : Nat → α → Prop}
  {s s' : Shared}

/-- Filing a task moves what it owes to the queues. -/
theorem owed_push (hs : s.Sound) (stems : s.StemsFrom job) {q : QueueName} {f : Filed}
    (proper : f.Proper q) (room : (s.shelves q).HasRoom f) (own : f.task.StemsFrom job q) {owed : Nat}
    (enough : f.dues step ≤ owed) : (s.push q f).2.StemsFrom job ∧
      (Action.push q f).owed step owed (s.push q f).1 + (s.push q f).2.dues step =
        owed + s.dues step := by
  obtain ⟨t, g, s', hp, task, -, -, -, without⟩ := hs.pushed proper room
  have moved := without.dues step
  have same : g.dues step = f.dues step := by rw [Filed.dues, task, Filed.dues]
  rw [hp]
  refine ⟨stems.filed (task ▸ own) without, ?_⟩
  change owed - f.dues step + s'.dues step = _
  omega

/-- Every answer keeps its promise and leaves what is owed as it was in all. -/
theorem Shared.Answers.serves {a : Action} {r : a.Answer} (h : s.Answers a r s') (hs : s.Sound)
    (stems : s.StemsFrom job) {held : List String} (ledgered : ledger.allows held a) {owed : Nat}
    (allowed : (service job step free).allows owed a) :
    s'.StemsFrom job ∧ (service job step free).promises a r ∧
      a.owed step owed r + s'.dues step = owed + s.dues step := by
  have sound := (h.sound hs ledgered).2
  cases h with
  | tryAcquire key => exact ⟨stems, trivial, rfl⟩
  | unmark key => exact ⟨stems, trivial, rfl⟩
  | pop q =>
    rcases hs.pop q with ⟨-, hp⟩ | ⟨f, s', hp, hs', -, without⟩
    · rw [hp]
      exact ⟨stems, trivial, rfl⟩
    · rw [hp] at sound ⊢
      have moved := without.dues step
      have own := stems q f (without.perm.mem_iff.mpr List.mem_cons_self)
      refine ⟨stems.without without, ⟨own, sound⟩, ?_⟩
      change owed + f.dues step + s'.dues step = _
      omega
  | push q f room =>
    obtain ⟨stems', moved⟩ := owed_push hs stems ledgered.1 room allowed.2.1 allowed.2.2
    exact ⟨stems', sound, moved⟩
  | refile q f room =>
    obtain ⟨stems', moved⟩ := owed_push hs stems ledgered.1 room allowed.2.1 allowed.2.2
    refine ⟨stems', sound, Eq.trans ?_ moved⟩
    cases (s.push q f).1 <;> rfl
  | quiet a r quiet =>
    refine ⟨stems, ?_, ?_⟩
    · cases a <;> trivial
    · rw [Action.owed_of_isQuiet step owed quiet]

/-- Every step of a call leaves what is owed as it was in all, given that no step is owed more
executions than the recipe has places for it. -/
theorem Course.Step.serves {p p' : Course α} (h : p.Step s s' p') (hs : s.Sound)
    (stems : s.StemsFrom job) {final : List String → α → Prop} (ledgered : p.Sound final)
    {start : Nat}
    (follows : p.process.Follows (service job step free) post (owedAfter step start p.past))
    (within : owedAfter step start p.past + s.dues step ≤ job.delayedSteps.count step) :
    s'.StemsFrom job ∧
      p'.process.Follows (service job step free) post (owedAfter step start p'.past) ∧
      owedAfter step start p'.past + s'.dues step = owedAfter step start p.past + s.dues step := by
  cases h with
  | act h =>
    obtain ⟨stems', promised, moved⟩ := h.serves hs stems ledgered.1 follows.1
    exact ⟨stems', follows.2 _ promised, moved⟩
  | @removed _ q key f next past n h =>
    rcases hs.remove q key with ⟨-, hr⟩ | ⟨f, s', hr, -, -, -, without⟩
    · rw [h] at hr
      exact nomatch hr
    · rw [h] at hr
      obtain ⟨-, rfl⟩ := Prod.mk.inj hr
      -- the evicting submission owes everything, so that the removed task owes nothing
      have all : owedAfter step start past = job.delayedSteps.count step := follows.1.2
      have moved := without.dues step
      refine ⟨stems.without without, follows, ?_⟩
      dsimp only at within ⊢
      omega
  | @swept _ q key next past n h =>
    rcases hs.remove q key with ⟨-, hr⟩ | ⟨f, s', hr, -⟩
    · rw [h] at hr
      obtain ⟨-, rfl⟩ := Prod.mk.inj hr
      exact ⟨stems, follows.2 _ trivial, rfl⟩
    · rw [h] at hr
      exact nomatch hr

end Course

/-! ### Calls for one job -/

namespace Call

def StemsFrom (job : Job) : Call → Prop
  | .submit job' => job' = job
  | .dispatch _ => True
  | .execute q f => f.task.StemsFrom job q

/-- Whether a call is a look that never owes anything. -/
def IsFree : Call → Prop
  | .dispatch q => q = .recurring
  | _ => False

/-- What a call owes a step when it begins. -/
def start (step : Galley.Step) : Call → Nat
  | .submit job => job.delayedSteps.count step
  | _ => 0

/-- What a call owes a step when it is over. -/
def Owes (job : Job) (step : Galley.Step) : (call : Call) → Nat → call.Result → Prop
  | .submit _ => Submission.Owes job
  | .dispatch q => Dispatch.Owes job step q
  | .execute _ f => Execution.Owes step f

/-- What is recorded of a call that is over. -/
def Records (job : Job) (layout : Layout) (key : String) :
    (call : Call) → List Event → call.Result → Prop
  | .submit _ => fun _ _ => True
  | .dispatch _ => fun past _ => Execution.Unrun key past
  | .execute _ f => Execution.Records job layout key f

end Call

namespace Thread

/-- What a call owes a step by now. -/
def owed (step : Galley.Step) (t : Thread) : Nat := owedAfter step (t.call.start step) t.course.past

/-- A call for a job that serves all its steps. -/
structure Serves (locker : Locker) (job : Job) (t : Thread) : Prop where
  stems : t.call.StemsFrom job
  follows (step : Galley.Step) :
    t.course.process.Follows (service job step t.call.IsFree) (t.call.Owes job step) (t.owed step)
  records (layout : Layout) (key : String) : locker.layout job = .ok layout →
    job.key .now = .ok key →
      t.course.process.Follows record (t.call.Records job layout key) t.course.past

variable {locker : Locker} {job : Job}

theorem begin_submit_serves (locker : Locker) (job : Job) :
    (Thread.begin locker (.submit job)).Serves locker job where
  stems := rfl
  follows step := job.submit_serves locker step
  records _ _ _ _ := follows_record _ _

theorem begin_dispatch_serves (locker : Locker) (job : Job) (q : QueueName) :
    (Thread.begin locker (.dispatch q)).Serves locker job where
  stems := trivial
  follows step := Dispatch.popDue_serves job step q
  records _ key _ _ := Dispatch.popDue_records q key

/-- What a look hands out is executed with what it owes. -/
theorem Serves.handOver {q : QueueName} {f : Filed} {past : List Event} {n : Nat}
    (h : Thread.Serves locker job ⟨.dispatch q, .done (some f), past, n⟩) (proper : f.Proper q) :
    Thread.Serves locker job ⟨.execute q f, f.execute locker, past, 0⟩ where
  stems := (h.follows default).1
  follows step := by
    obtain ⟨stems, dues⟩ : f.task.StemsFrom job q ∧ owedAfter step 0 past = f.dues step :=
      h.follows step
    have follows := f.execute_serves locker step proper stems
    rw [← dues] at follows
    exact follows
  records layout key hl hkey :=
    f.execute_records (h.follows default).1 hl hkey (h.records layout key hl hkey)

end Thread

/-! ### Runs of the whole -/

/-- What all calls owe a step. -/
def owedBy : List Thread → Galley.Step → Nat
  | [], _ => 0
  | t :: threads, step => t.owed step + owedBy threads step

theorem owedBy_split (before behind : List Thread) (t : Thread) (step : Galley.Step) :
    owedBy (before ++ t :: behind) step = owedBy (before ++ behind) step + t.owed step := by
  induction before with
  | nil => exact Nat.add_comm _ _
  | cons b before ih =>
    simp only [List.cons_append, owedBy, ih]
    omega

namespace System

/-- All that is owed to the steps of a job is with calls for it and in the queues. -/
structure Serves (locker : Locker) (job : Job) (sys : System) : Prop where
  submitted : .submit job ∈ sys.threads.map Thread.call
  stems : sys.shared.StemsFrom job
  threads : ∀ t ∈ sys.threads, t.Serves locker job
  all : ∀ step, owedBy sys.threads step + sys.shared.dues step = job.delayedSteps.count step

variable {locker : Locker} {job : Job} {sys sys' : System}

theorem Step.serves (h : Step locker (fun call => call.isSubmission = false) sys sys')
    (hs : sys.Sound) (serves : sys.Serves locker job) : sys'.Serves locker job := by
  obtain ⟨submitted, stems, threads, all⟩ := serves
  cases h with
  | submit start => exact nomatch start
  | @dispatch s _ q _ =>
    refine ⟨?_, stems, List.forall_mem_append.mpr ⟨threads, ?_⟩, fun step => ?_⟩
    · rw [List.map_append]
      exact List.mem_append_left _ submitted
    · exact List.forall_mem_singleton.mpr (Thread.begin_dispatch_serves locker job q)
    · have here := all step
      dsimp only at here ⊢
      rw [owedBy_split, List.append_nil]
      exact here
  | @run s s' before behind call p p' step =>
    have here : Thread.Serves locker job ⟨call, p⟩ :=
      threads _ (List.mem_append_right _ List.mem_cons_self)
    have ledgered : p.Sound call.final := hs.thread
    have within (st : Galley.Step) : owedAfter st (call.start st) p.past + s.dues st ≤
        job.delayedSteps.count st := by
      have whole := all st
      dsimp only at whole
      rw [owedBy_split, Thread.owed] at whole
      dsimp only at whole
      omega
    have moved (st : Galley.Step) :=
      step.serves hs.shared stems ledgered (here.follows st) (within st)
    refine ⟨?_, (moved default).1, forall_mem_replaced threads ?_, fun st => ?_⟩
    · rwa [List.map_append, List.map_cons] at submitted ⊢
    · exact ⟨here.stems, fun st => (moved st).2.1,
        fun layout key hl hkey => step.records (here.records layout key hl hkey)⟩
    · have whole := all st
      have kept := (moved st).2.2
      dsimp only at whole ⊢
      rw [owedBy_split, Thread.owed] at whole ⊢
      dsimp only at whole kept ⊢
      omega
  | @handOver s before behind q f past n _ =>
    have here : Thread.Serves locker job ⟨.dispatch q, .done (some f), past, n⟩ :=
      threads _ (List.mem_append_right _ List.mem_cons_self)
    obtain ⟨proper, -⟩ : f.Proper q ∧ heldAfter past = f.stake q := hs.thread
    refine ⟨?_, stems, forall_mem_replaced threads (here.handOver proper), fun step => ?_⟩
    · rw [List.map_append, List.map_cons, List.mem_append, List.mem_cons] at submitted ⊢
      exact submitted.imp_right fun h => .inr (h.resolve_left (fun h => nomatch h))
    have whole := all step
    dsimp only at whole ⊢
    rw [owedBy_split] at whole ⊢
    exact whole

theorem begin_serves (locker : Locker) (job : Job) {s : Shared} (empty : ∀ q, s.tasks q = []) :
    Serves locker job ⟨s, [.begin locker (.submit job)]⟩ where
  submitted := List.mem_singleton_self _
  stems q f hf := absurd (empty q ▸ hf) List.not_mem_nil
  threads := List.forall_mem_singleton.mpr (Thread.begin_submit_serves locker job)
  all step := by
    have none : s.dues step = 0 := by
      rw [Shared.dues, empty .now, empty .delayed, empty .recurring]
      rfl
    dsimp only
    rw [none]
    rfl

/-- The run lemma: what serves the steps of a job goes on to serve them while nothing else is
submitted. -/
theorem Reaches.serves (h : Reaches locker (fun call => call.isSubmission = false) sys sys')
    (hs : sys.Sound) (serves : sys.Serves locker job) : sys'.Serves locker job := by
  have typed (call : Call) (other : call.isSubmission = false) : call.InRange := by
    cases call with
    | submit job => exact nomatch other
    | _ => trivial
  induction h with
  | refl => exact serves
  | tail reached step ih => exact step.serves (Reaches.sound typed reached hs) ih

/-- A submission to empty queues without marks leads only to what serves the steps of its job. -/
theorem Reaches.serves_submission {shelves : QueueName → Shelf} (empty : ∀ q, (shelves q).isEmpty)
    (range : job.InRange) (h : Reaches locker (fun call => call.isSubmission = false)
      ⟨⟨.empty, shelves⟩, [.begin locker (.submit job)]⟩ sys) : sys.Serves locker job := by
  have begun : Sound ⟨⟨.empty, shelves⟩, []⟩ :=
    ⟨fun q => (empty q).sound, fun _ h => absurd h List.not_mem_nil⟩
  exact h.serves (begun.append (Job.submit_follows locker range))
    (begin_serves locker job fun q => (empty q).tasks_eq_nil)

end System

/-! ### When nothing is under way -/

/-- The step that runs once later which a call executes. -/
def Thread.delayedStep? (t : Thread) : Option Galley.Step :=
  match t.call with
  | .execute .delayed f =>
    match f.task with
    | .recipe _ => none
    | .step s => some s.step
  | _ => none

/-- Whether what was submitted was accepted, nothing that runs once is filed or under way, and no run
of a step failed. A look at a queue may be about to pop. -/
structure System.IsSettled (sys : System) : Prop where
  accepted (job : Job) (c : Course (Call.submit job).Result) :
    ⟨.submit job, c⟩ ∈ sys.threads → ∃ key, c.process = .done (.ok key)
  looks (q : QueueName) (c : Course (Call.dispatch q).Result) : q ≠ .recurring →
    ⟨.dispatch q, c⟩ ∈ sys.threads → c.process = .done none ∨ c.past = []
  executions (q : QueueName) (f : Filed) (c : Course (Call.execute q f).Result) :
    ⟨.execute q f, c⟩ ∈ sys.threads → ∃ r, c.process = .done r ∧ ∀ e, r ≠ .error (.step e)
  now : sys.shared.tasks .now = []
  delayed : sys.shared.tasks .delayed = []

section Settled

variable {locker : Locker} {job : Job} {sys : System}

/-- In the end a step is owed only its executions. -/
theorem Thread.owed_eq (settled : sys.IsSettled) {t : Thread} (mem : t ∈ sys.threads)
    (serves : t.Serves locker job) (step : Galley.Step) :
    t.owed step = t.delayedStep?.toList.count step := by
  obtain ⟨call, c⟩ := t
  have stems := serves.stems
  have follows := serves.follows step
  dsimp only at follows
  cases call with
  | submit job' =>
    obtain ⟨key, accepted⟩ := settled.accepted job' c mem
    rw [accepted] at follows
    exact (follows key rfl).1
  | dispatch q =>
    change Thread.owed step _ = 0
    by_cases free : q = .recurring
    · -- such a look may still be under way, but it is never allowed to owe anything
      cases hp : c.process with
      | act a next =>
        rw [hp] at follows
        exact follows.1.1 free
      | done r =>
        rw [hp] at follows
        cases r with
        | none => exact follows
        | some f =>
          obtain ⟨own, dues⟩ : f.task.StemsFrom job q ∧ _ = f.dues step := follows
          exact dues.trans (Dispatch.dues_of_recurring own free)
    · rcases settled.looks q c free mem with done | begun
      · rw [done] at follows
        exact follows
      · rw [Thread.owed]
        dsimp only
        rw [begun]
        rfl
  | execute q f =>
    obtain ⟨r, done, succeeded⟩ := settled.executions q f c mem
    rw [done] at follows
    obtain ⟨task, key, group, options, trigger, nextRun⟩ := f
    change task.StemsFrom job q at stems
    cases stems with
    | recipe => exact (follows : _ ∨ _).resolve_left fun ⟨e, failed⟩ => succeeded e failed
    | delayed _ _ once =>
      refine (follows : _ = _).trans ?_
      simp [Filed.dues, Task.delayedSteps, Thread.delayedStep?, once]
    | recurring _ _ again =>
      refine (follows : _ = _).trans ?_
      simp [Filed.dues, Task.delayedSteps, Thread.delayedStep?, again]

theorem owedBy_eq {threads : List Thread} {step : Galley.Step}
    (each : ∀ t ∈ threads, t.owed step = t.delayedStep?.toList.count step) :
    owedBy threads step = (threads.filterMap Thread.delayedStep?).count step := by
  induction threads with
  | nil => rfl
  | cons t threads ih =>
    rw [List.forall_mem_cons] at each
    have whole : owedBy (t :: threads) step = t.owed step + owedBy threads step := rfl
    rw [whole, each.1, ih each.2, List.filterMap_cons]
    cases t.delayedStep? with
    | none => exact Nat.zero_add _
    | some s => exact List.count_append.symm

/-- In the end nothing is owed in the queues. -/
theorem dues_eq_zero (settled : sys.IsSettled) (stems : sys.shared.StemsFrom job)
    (step : Galley.Step) : sys.shared.dues step = 0 := by
  rw [Shared.dues, settled.now, settled.delayed, List.nil_append, List.nil_append]
  refine List.count_eq_zero.mpr fun hstep => ?_
  obtain ⟨f, hf, own⟩ := List.mem_flatMap.mp hstep
  exact List.count_eq_zero.mp (Dispatch.dues_of_recurring (stems .recurring f hf) rfl) own

/-- A submission that was accepted has a layout and a key. -/
theorem System.Serves.exists_layout_key (serves : sys.Serves locker job) (settled : sys.IsSettled) :
    ∃ layout key, locker.layout job = .ok layout ∧ job.key .now = .ok key := by
  obtain ⟨⟨call, c⟩, mem, rfl : call = .submit job⟩ := List.mem_map.mp serves.submitted
  obtain ⟨key, accepted⟩ := settled.accepted job c mem
  have follows := (serves.threads _ mem).follows default
  dsimp only at follows
  rw [accepted] at follows
  have hkey : job.key .now = .ok key := (follows key rfl).2
  obtain ⟨layout, hl⟩ := Submission.exists_layout locker hkey
  exact ⟨layout, key, hl, hkey⟩

/-- What is recorded of an execution in the end. -/
theorem System.Serves.records (serves : sys.Serves locker job) (settled : sys.IsSettled)
    {layout : Layout} {key : String} (hl : locker.layout job = .ok layout)
    (hkey : job.key .now = .ok key) {q : QueueName} {f : Filed}
    {c : Course (Call.execute q f).Result} (mem : ⟨.execute q f, c⟩ ∈ sys.threads) :
    f.task.StemsFrom job q ∧ ∃ r, c.process = .done r ∧ match f.task with
      | .recipe _ => OfOthers job layout (runsIn c.past)
      | .step s => Execution.RunsOrRefused job layout key s.step c.past r := by
  obtain ⟨r, done, succeeded⟩ := settled.executions q f c mem
  have thread := serves.threads _ mem
  have records := thread.records layout key hl hkey
  dsimp only at records
  rw [done] at records
  have recorded : Execution.Records job layout key f c.past r := records
  exact ⟨thread.stems, r, done, recorded.resolve_left fun ⟨e, failed⟩ => succeeded e failed⟩

end Settled

/-- A recipe that is submitted alone to empty queues: when it was accepted, the queues for runs at once
and for runs once later are empty, no execution is under way and no run of a step has failed, each of
its steps that run once later has had one execution, which has run the step once unless the key of
the recipe was taken, and no other execution has run such a step. -/
theorem delayed_steps_executed_once {locker : Locker} {shelves : QueueName → Shelf}
    (empty : ∀ q, (shelves q).isEmpty) {job : Job} (range : job.InRange) {sys : System}
    (reached : System.Reaches locker (fun call => call.isSubmission = false)
      ⟨⟨.empty, shelves⟩, [.begin locker (.submit job)]⟩ sys)
    (settled : sys.IsSettled) :
    ∃ layout key, locker.layout job = .ok layout ∧ job.key .now = .ok key ∧
      (sys.threads.filterMap Thread.delayedStep?).Perm job.delayedSteps ∧
      (∀ (f : Filed) (c : Course (Call.execute .delayed f).Result),
        ⟨.execute .delayed f, c⟩ ∈ sys.threads → ∃ s, f.task = .step s ∧
          ((c.process = .done (.ok ()) ∧ runsIn c.past = [layout.labels job s.step] ∧
              refusal key ∉ c.past) ∨
            (c.process = .done (.error .nowRunning) ∧ runsIn c.past = [] ∧
              refusal key ∈ c.past))) ∧
      ∀ (q : QueueName) (f : Filed) (c : Course (Call.execute q f).Result), q ≠ .delayed →
        ⟨.execute q f, c⟩ ∈ sys.threads → ∀ labels ∈ runsIn c.past,
          ∃ s ∈ job.recipe.steps, s.isDelayed = false ∧ labels = layout.labels job s := by
  have serves := reached.serves_submission empty range
  obtain ⟨layout, key, hl, hkey⟩ := serves.exists_layout_key settled
  refine ⟨layout, key, hl, hkey, ?executed, ?delayed, ?others⟩
  case executed =>
    refine List.perm_iff_count.mpr fun step => ?_
    have each (t : Thread) (mem : t ∈ sys.threads) :=
      t.owed_eq settled mem (serves.threads t mem) step
    have whole := serves.all step
    rw [dues_eq_zero settled serves.stems, Nat.add_zero, owedBy_eq each] at whole
    exact whole
  case delayed =>
    intro f c mem
    obtain ⟨stems, r, done, recorded⟩ := serves.records settled hl hkey mem
    obtain ⟨task, _, _, _, _, _⟩ := f
    change task.StemsFrom job .delayed at stems
    cases stems with
    | delayed _ _ _ =>
      refine ⟨_, rfl, ?_⟩
      rcases (recorded : Execution.RunsOrRefused _ _ _ _ _ _) with ⟨rfl, ran⟩ | ⟨rfl, refused⟩
      · exact .inl ⟨done, ran⟩
      · exact .inr ⟨done, refused⟩
  case others =>
    intro q f c other mem labels ran
    obtain ⟨stems, r, -, recorded⟩ := serves.records settled hl hkey mem
    obtain ⟨task, _, _, _, _, _⟩ := f
    change task.StemsFrom job q at stems
    cases stems with
    | recipe => exact (recorded : OfOthers _ _ _) labels ran
    | delayed _ _ _ => exact absurd rfl other
    | @recurring _ step _ own again =>
      rcases (recorded : Execution.RunsOrRefused _ _ _ _ _ _) with ⟨-, runs, -⟩ | ⟨-, runs, -⟩
      · rw [runs] at ran
        exact ⟨step, own, again, List.mem_singleton.mp ran⟩
      · rw [runs] at ran
        exact absurd ran List.not_mem_nil

namespace Feast

open Job

theorem pop_bake_beside : (larder [laterKey, nowKey] [] [bake]).pop .delayed =
    (.ok bake, larder [laterKey, nowKey] [] []) :=
  Prod.ext rfl (larder_eq (by decide) rfl rfl rfl)

def simmerJob : StepJob := ⟨simmering, Execution.atStep feast simmering⟩

/-- The execution of the second step, which has found its recipe running. -/
def refused : Thread :=
  ⟨.execute .delayed bake, .done (.error .nowRunning),
    [⟨.unmark laterKey, ()⟩, ⟨.tryAcquire nowKey, false⟩, ⟨.now, bake.nextRun⟩,
      ⟨.pop .delayed, .ok bake⟩], 0⟩

/-- The first step has run, and the second was refused meanwhile. -/
def concluded (past past' : List Event) : System where
  shared := larder [] [] []
  threads := [⟨.submit feast, .done (.ok nowKey), past, 0⟩,
    ⟨.execute .now filed, .done (.ok ()), cooked, 0⟩,
    ⟨.execute .delayed simmer, .done (.ok ()), past', 0⟩, refused]

theorem reaches_concluded {starts : Call → Prop} (looks : ∀ q, starts (.dispatch q))
    (runs : ∀ q f, starts (.execute q f)) : ∃ past past', System.Reaches locker starts
      ⟨larder [] [] [], [.begin locker (.submit feast)]⟩ (concluded past past') := by
  obtain ⟨past, begun⟩ := reaches_served looks runs
  let first : List Thread := [⟨.submit feast, .done (.ok nowKey), past, 0⟩,
    ⟨.execute .now filed, .done (.ok ()), cooked, 0⟩]
  let guards : Thread := ⟨.execute .delayed simmer,
    Execution.guarded locker simmer simmerJob nowKey,
    ⟨.tryAcquire nowKey, true⟩ :: simmers.course.past, 0⟩
  have taken : Course.Run (larder [laterKey] [] [bake]) simmers.course
      (larder [laterKey, nowKey] [] [bake]) guards.course :=
    Execution.run_taken (s := larder [laterKey] [] [bake]) (f := simmer) (x := simmerJob) rfl
      feast_nowKey rfl simmers.course.past 0
  have second : System.Reaches locker starts (served past)
      ⟨larder [laterKey, nowKey] [] [bake], first ++ [guards]⟩ :=
    System.reaches_of_run simmers.call first [] taken
  have third : System.Reaches locker starts ⟨larder [laterKey, nowKey] [] [bake], first ++ [guards]⟩
      ⟨larder [laterKey, nowKey] [] [], first ++ [guards] ++ [.popped .delayed bake]⟩ :=
    System.reaches_popped (looks .delayed) pop_bake_beside _
  have fourth := System.reaches_due locker (larder [laterKey, nowKey] [] []) rfl (runs .delayed bake)
    (first ++ [guards]) []
  have found : Course.Run (larder [laterKey, nowKey] [] [])
      ⟨bake.execute locker, [⟨.now, bake.nextRun⟩, ⟨.pop .delayed, .ok bake⟩], 0⟩
      (larder [nowKey] [] []) refused.course :=
    Execution.run_refused rfl feast_nowKey rfl _ 0
  have fifth : System.Reaches locker starts _
      ⟨larder [nowKey] [] [], first ++ [guards] ++ [refused]⟩ :=
    System.reaches_of_run (.execute .delayed bake) (first ++ [guards]) [] found
  obtain ⟨past', finished⟩ := Execution.exists_finished locker simmer nowKey
    (x := simmerJob) rfl rfl (larder [nowKey] [] []) guards.course.past 0
  have sixth : System.Reaches locker starts ⟨larder [nowKey] [] [], first ++ guards :: [refused]⟩
      (concluded past past') :=
    System.reaches_of_run (.execute .delayed simmer) first [refused] finished
  exact ⟨past, past', ((((begun.trans second).trans third).trans fourth).trans fifth).trans sixth⟩

theorem concluded_isSettled (past past' : List Event) : (concluded past past').IsSettled where
  accepted job c mem := by
    simp only [concluded, refused, List.mem_cons, List.not_mem_nil, or_false] at mem
    rcases mem with h | h | h | h <;> cases h
    exact ⟨nowKey, rfl⟩
  looks q c _ mem := by
    simp only [concluded, refused, List.mem_cons, List.not_mem_nil, or_false] at mem
    rcases mem with h | h | h | h <;> cases h
  executions q f c mem := by
    simp only [concluded, refused, List.mem_cons, List.not_mem_nil, or_false] at mem
    rcases mem with h | h | h | h <;> cases h
    · exact ⟨_, rfl, fun _ h => nomatch h⟩
    · exact ⟨_, rfl, fun _ h => nomatch h⟩
    · exact ⟨_, rfl, fun _ h => nomatch h⟩
  now := rfl
  delayed := rfl

theorem fresh_reaches_concluded : ∃ past past', System.Reaches locker
    (fun call => call.isSubmission = false)
    ⟨⟨.empty, fun _ => .memory .empty⟩, [.begin locker (.submit feast)]⟩ (concluded past past') := by
  rw [fresh_eq]
  exact reaches_concluded (fun _ => rfl) fun _ _ => rfl

end Feast

section Feast

open Feast Job

/-- Both steps have had their executions. -/
theorem delayed_steps_executed_once_feast : ∃ sys, System.Reaches locker
      (fun call => call.isSubmission = false)
      ⟨⟨.empty, fun _ => .memory .empty⟩, [.begin locker (.submit feast)]⟩ sys ∧ sys.IsSettled ∧
    (sys.threads.filterMap Thread.delayedStep?).Perm feast.delayedSteps := by
  obtain ⟨past, past', reached⟩ := fresh_reaches_concluded
  have settled := concluded_isSettled past past'
  have empty (q : QueueName) : ((fun _ => .memory .empty : QueueName → Shelf) q).isEmpty := rfl
  obtain ⟨_, _, -, -, executed, -⟩ :=
    delayed_steps_executed_once empty feast_inRange reached settled
  exact ⟨_, reached, settled, executed⟩

/-- Two steps are enough for one that is due while the other runs never to be run. -/
theorem exists_delayed_step_never_run : ∃ sys layout, System.Reaches locker
      (fun call => call.isSubmission = false)
      ⟨⟨.empty, fun _ => .memory .empty⟩, [.begin locker (.submit feast)]⟩ sys ∧ sys.IsSettled ∧
    locker.layout feast = .ok layout ∧ baking ∈ feast.delayedSteps ∧
    ∀ (q : QueueName) (f : Filed) (c : Course (Call.execute q f).Result),
      ⟨.execute q f, c⟩ ∈ sys.threads → layout.labels feast baking ∉ runsIn c.past := by
  obtain ⟨past, past', reached⟩ := fresh_reaches_concluded
  have settled := concluded_isSettled past past'
  have empty (q : QueueName) : ((fun _ => .memory .empty : QueueName → Shelf) q).isEmpty := rfl
  have serves := reached.serves_submission empty feast_inRange
  obtain ⟨layout, key, hl, hkey⟩ := serves.exists_layout_key settled
  have other : layout.labels feast baking ≠ layout.labels feast simmering := by
    intro same
    have numbers : some ("STEP_ID", "2") = some ("STEP_ID", "1") :=
      congrArg (fun labels => labels[3]?) same
    exact absurd numbers (by decide)
  refine ⟨_, layout, reached, settled, hl, by decide, fun q f c mem => ?_⟩
  obtain ⟨-, r, -, recorded⟩ := serves.records settled hl hkey mem
  simp only [concluded, refused, List.mem_cons, List.not_mem_nil, or_false] at mem
  rcases mem with h | h | h | h <;> cases h
  · exact List.not_mem_nil
  · rcases (recorded : Execution.RunsOrRefused _ _ _ _ _ _) with ⟨-, runs, -⟩ | ⟨-, runs, -⟩
    · rw [runs]
      exact fun ran => other (List.mem_singleton.mp ran)
    · rw [runs]
      exact List.not_mem_nil
  · exact List.not_mem_nil

end Feast

end Galley
