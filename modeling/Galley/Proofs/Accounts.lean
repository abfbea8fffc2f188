import Galley.Proofs.Executability
import Galley.Proofs.Process.Trace
import Mathlib.Data.List.Forall2
/-!
# Accounts of recipes

What the execution of a recipe has done when it is over, step by step. Each step that it came to was run
or was filed as a task of its own, with what the runs before it had announced, until a run failed. Main
statement: for a job that was accepted there is such an account, and the execution has done nothing else.
A queue in a directory cuts the triggers of its tasks to the times that its records can tell.
-/
namespace Galley

open Process

/-! ### Deeds -/

/-- What was done about a step: it ran with a job and came to something, or it was filed as a task, at
the time that was found for it. -/
inductive Deed
  | run (job : Job) (step : Step) (result : Except StepError StepOutcome)
  | file (q : QueueName) (task : Filed) (now time : Int)

namespace Deed

/-- The variables that a run announced. -/
def announced : Deed → List String
  | run _ _ (.ok outcome) => outcome.env
  | _ => []

def fails : Deed → Bool
  | run _ _ (.error _) => true
  | _ => false

/-- What was filed in a queue. -/
def filed? (q : QueueName) : Deed → Option Filed
  | run _ _ _ => none
  | file q' task _ time => if q' = q then some { task with nextRun := time } else none

/-- Whether the events are those of a deed. -/
def Shows (locker : Locker) : Deed → List Event → Prop
  | run job step result, es => (job.runStep locker step).Traces es result
  | file q task now time, es => es = [⟨.now, now⟩, ⟨.push q task, .ok time⟩]

/-- A task that a step asks for: the step with the job in front of it, first to be run when the trigger's
time has passed, as far as 64 bits hold that time. -/
def asked (job : Job) (step : Step) (key : String) (trigger : Trigger) (wait : Duration) (now : Int) :
    Filed where
  task := .step ⟨step, job⟩
  key := key
  group := job.group
  options := { maxRetries := 0, retryInterval := 0, replace := false, suspended := false }
  trigger := trigger
  nextRun := Text.Numeral.saturate (now + min (wait.nanos : Int) Text.Numeral.maxI64)

/-- Whether a deed is what a step asks for when a job is in front of it: a run, or a task under the job's
key for the queue, at its first time or later. -/
inductive Meets (job : Job) (step : Step) : Deed → Prop
  | now (parsed : StepTrigger.parse step.trigger = .ok .now) (result : Except StepError StepOutcome) :
      Meets job step (.run job step result)
  | once {delay : Duration} {key : String} {now time : Int}
      (parsed : StepTrigger.parse step.trigger = .ok (.once delay)) (hkey : job.key .delayed = .ok key)
      (late : (asked job step key (.runOnce delay false) delay now).nextRun ≤ time) :
      Meets job step (.file .delayed (asked job step key (.runOnce delay false) delay now) now time)
  | every {interval : Duration} {key : String} {now time : Int}
      (parsed : StepTrigger.parse step.trigger = .ok (.every interval))
      (hkey : job.key .recurring = .ok key)
      (late : (asked job step key (.simple interval) interval now).nextRun ≤ time) :
      Meets job step (.file .recurring (asked job step key (.simple interval) interval now) now time)

section Filed

variable {job : Job} {step : Step} {wait : Duration} {key : String} {now time : Int}

theorem Meets.of_once (parsed : StepTrigger.parse step.trigger = .ok (.once wait))
    (hkey : job.key .delayed = .ok key) (late : (Trigger.once wait).firstFire now ≤ time) :
    (file .delayed (Execution.stepTask job step key (.once wait) now) now time).Meets job step := by
  rw [Execution.stepTask_eq]
  exact .once parsed hkey late

theorem Meets.of_every (parsed : StepTrigger.parse step.trigger = .ok (.every wait))
    (hkey : job.key .recurring = .ok key) (late : (Trigger.simple wait).firstFire now ≤ time) :
    (file .recurring (Execution.stepTask job step key (.simple wait) now) now time).Meets job step := by
  rw [Execution.stepTask_eq]
  exact .every parsed hkey late

end Filed

end Deed

/-- A job in front of a step when some deeds were done before. -/
def Job.inFront (job : Job) (deeds : List Deed) (step : Step) : Job :=
  { job with stepId := toString step.step, env := job.env ++ deeds.flatMap Deed.announced }

/-- What the clients of a job's app are told, if it has one. -/
def Job.tidings (job : Job) (text : String) : List Event :=
  ((Route.ofJob job).app.map fun app => (⟨.send (.app app text), ()⟩ : Event)).toList

/-- What they are told in the end, when the steps were gone through up to one place. -/
def Job.ending (job : Job) (stop : Nat) : List Event :=
  if stop = job.recipe.steps.length then job.tidings Catalog.jobFinished else []

theorem Execution.tellApp_tells (job : Job) (text : String) (s : Shared) (past : List Event) :
    (tellApp job text).Ensures
      (fun s' past' _ => s' = s ∧ past' = (job.tidings text).reverse ++ past) s past := by
  unfold tellApp Job.tidings
  cases (Route.ofJob job).app with
  | none => exact ⟨rfl, rfl⟩
  | some app =>
    intro r s' does
    obtain rfl := does_quiet (a := .send _) trivial does
    exact ⟨rfl, rfl⟩

theorem Deed.Shows.sends_nothing {locker : Locker} {deed : Deed} {es : List Event}
    (h : deed.Shows locker es) : ∀ e ∈ es, ∀ delivery, e.action ≠ .send delivery := by
  cases deed with
  | run job step result => exact (job.runStep_sends_nothing locker step).of_traces h
  | file q task now time =>
    obtain rfl := h
    simp

/-! ### Accounts -/

/-- What was done about the first of some steps, up to the first run that failed, which `stop` is the
place of, or to the end, with the events of each deed. -/
structure Account (locker : Locker) (job : Job) (steps : List Step) (r : Except ExecutionError Unit)
    (deeds : List Deed) (events : List (List Event)) (stop : Nat) : Prop where
  bound : stop ≤ steps.length
  length : deeds.length = min (stop + 1) steps.length
  meets : ∀ i (deed : Deed) step, deeds[i]? = some deed → steps[i]? = some step →
    deed.Meets (job.inFront (deeds.take i) step) step
  fails : ∀ i (deed : Deed), deeds[i]? = some deed → (deed.fails = true ↔ i = stop)
  shows : List.Forall₂ (Deed.Shows locker) deeds events
  /-- The execution fails with the error of the run that failed. -/
  result : stop = steps.length ∧ r = .ok () ∨ ∃ job' step e,
    deeds[stop]? = some (.run job' step (.error e)) ∧ r = .error (.step e)

namespace Account

variable {locker : Locker} {job job' : Job} {step : Step} {rest : List Step}
  {r : Except ExecutionError Unit} {deed : Deed} {deeds : List Deed} {es : List Event}
  {events : List (List Event)} {stop : Nat}

theorem nil (locker : Locker) (job : Job) : Account locker job [] (.ok ()) [] [] 0 where
  bound := Nat.le_refl 0
  length := rfl
  meets _ _ _ h := nomatch h
  fails _ _ h := nomatch h
  shows := .nil
  result := .inl ⟨rfl, rfl⟩

/-- A run that fails is the last deed. -/
theorem failed {e : StepError} (parsed : StepTrigger.parse step.trigger = .ok .now)
    (shows : (Deed.run (job.inFront [] step) step (.error e)).Shows locker es) :
    Account locker job (step :: rest) (.error (.step e)) [.run (job.inFront [] step) step (.error e)]
      [es] 0 where
  bound := Nat.zero_le _
  length := by simp
  meets i deed step' h h' := by
    cases i with
    | zero =>
      obtain rfl := Option.some.inj h
      obtain rfl := Option.some.inj h'
      exact .now parsed _
    | succ i => exact nomatch h
  fails i deed h := by
    cases i with
    | zero =>
      obtain rfl := Option.some.inj h
      exact iff_of_true rfl rfl
    | succ i => exact nomatch h
  shows := .cons shows .nil
  result := .inr ⟨_, _, e, rfl, rfl⟩

/-- A deed that does not fail stands before those of the other steps, which the job comes to with what
was announced. -/
theorem cons (meets : deed.Meets (job.inFront [] step) step) (fine : deed.fails = false)
    (shows : deed.Shows locker es)
    (next : ∀ deeds step, job'.inFront deeds step = job.inFront (deed :: deeds) step)
    (h : Account locker job' rest r deeds events stop) :
    Account locker job (step :: rest) r (deed :: deeds) (es :: events) (stop + 1) where
  bound := Nat.succ_le_succ h.bound
  length := by
    rw [List.length_cons, List.length_cons, h.length]
    omega
  meets i deed' step' hd hs := by
    cases i with
    | zero =>
      obtain rfl := Option.some.inj hd
      obtain rfl := Option.some.inj hs
      exact meets
    | succ i =>
      have later := h.meets i deed' step' hd hs
      rwa [next] at later
  fails i deed' hd := by
    cases i with
    | zero =>
      obtain rfl := Option.some.inj hd
      simp [fine]
    | succ i => rw [h.fails i deed' hd, Nat.add_right_cancel_iff]
  shows := .cons shows h.shows
  result := by
    rcases h.result with ⟨rfl, done⟩ | ⟨job₁, step', e, there, failed⟩
    · exact .inl ⟨rfl, done⟩
    · exact .inr ⟨job₁, step', e, there, failed⟩

theorem result_iff (h : Account locker job rest r deeds events stop) :
    r = .ok () ↔ stop = rest.length := by
  rcases h.result with ⟨whole, done⟩ | ⟨_, _, e, there, failed⟩
  · exact iff_of_true done whole
  · refine iff_of_false (failed ▸ nofun) fun whole => ?_
    obtain ⟨short, -⟩ := List.getElem?_eq_some_iff.mp there
    have length := h.length
    omega

theorem sends_nothing (h : Account locker job rest r deeds events stop) :
    ∀ e ∈ events.flatten, ∀ delivery, e.action ≠ .send delivery := by
  intro e he
  obtain ⟨es, hes, he⟩ := List.mem_flatten.mp he
  obtain ⟨i, hi, rfl⟩ := List.getElem_of_mem hes
  exact ((List.forall₂_iff_get.mp h.shows).2 i (by rw [h.shows.length_eq]; exact hi) hi).sends_nothing e he

/-- That a job has finished is told exactly when its steps were gone through to the end. -/
theorem finished_iff (h : Account locker job job.recipe.steps r deeds events stop) {app : Int}
    (numeric : (Route.ofJob job).app = some app) (key : String) :
    ⟨.send (.app app Catalog.jobFinished), ()⟩ ∈ job.tidings Catalog.jobStarted ++ events.flatten ++
      job.ending stop ++ [⟨.unmark key, ()⟩] ↔ stop = job.recipe.steps.length := by
  have other : Catalog.jobFinished ≠ Catalog.jobStarted := by decide
  have silent : (⟨.send (.app app Catalog.jobFinished), ()⟩ : Event) ∉ events.flatten :=
    fun there => h.sends_nothing _ there _ rfl
  simp [Job.tidings, Job.ending, numeric, silent, other]

end Account

/-! ### What deeds leave in the queues -/

/-- Whether one state came of another by filing what some deeds filed. -/
structure Shared.Gains (deeds : List Deed) (s s' : Shared) : Prop where
  named : s'.Named
  running : s'.running = s.running
  stored : ∀ q, (s'.shelves q).stored = (s.shelves q).stored
  tasks : ∀ q, (s'.tasks q).Perm
    ((deeds.filterMap (Deed.filed? q)).map (s.shelves q).stored ++ s.tasks q)

namespace Shared.Gains

variable {s s' s'' : Shared} {deed : Deed} {deeds : List Deed}

theorem nothing (named : s.Named) (none : ∀ q, deeds.filterMap (Deed.filed? q) = []) :
    s.Gains deeds s where
  named := named
  running := rfl
  stored _ := rfl
  tasks q := by
    rw [none q]
    exact .refl _

theorem cons (h : s.Gains [deed] s') (h' : s'.Gains deeds s'') : s.Gains (deed :: deeds) s'' where
  named := h'.named
  running := h'.running.trans h.running
  stored q := (h'.stored q).trans (h.stored q)
  tasks q := by
    have all : (deed :: deeds).filterMap (Deed.filed? q) =
        [deed].filterMap (Deed.filed? q) ++ deeds.filterMap (Deed.filed? q) := by
      rw [← List.filterMap_append, List.singleton_append]
    have later := h'.tasks q
    rw [h.stored q] at later
    rw [all, List.map_append]
    calc s''.tasks q
      _ |>.Perm _ := later
      _ |>.Perm _ := (h.tasks q).append_left _
      _ |>.Perm _ := by
        rw [← List.append_assoc]
        exact List.perm_append_comm.append_right _

theorem of_filing {q : QueueName} {f : Filed} {now t : Int} (filing : Shared.FilingAt q f t s s') :
    s.Gains [.file q f now t] s' where
  named := filing.named
  running := filing.running
  stored q' := by
    by_cases hq : q' = q
    · subst hq
      exact filing.stored
    · rw [filing.others q' hq]
  tasks q' := by
    rw [List.filterMap_cons, Deed.filed?]
    by_cases hq : q' = q
    · subst hq
      obtain ⟨before, behind, whole, new⟩ := filing.tasks
      rw [new, whole, if_pos rfl]
      exact List.perm_middle
    · rw [Shared.tasks, filing.others q' hq, if_neg (Ne.symm hq)]
      exact .refl _

end Shared.Gains

namespace Execution

variable {locker : Locker} {job job' : Job} {step : Step} {s : Shared} {q : QueueName}

/-- What the part of an execution that goes through some steps comes to, unless a directory is in the way
of a record. -/
def Accounts (locker : Locker) (job : Job) (steps : List Step) (s : Shared) (past : List Event)
    (s' : Shared) (past' : List Event) (r : Except ExecutionError Unit) : Prop :=
  r = .error (.queue (.io .isDirectory)) ∨ ∃ deeds events stop,
    Account locker job steps r deeds events stop ∧ s.Gains deeds s' ∧
      past' = events.flatten.reverse ++ past

/-- The steps of an accepted job are run or filed one after another, each in front of the others. -/
theorem runSteps_accounts (h : job.Accepted) (steps : List Step)
    (mem : ∀ step ∈ steps, step ∈ job.recipe.steps) (stage : job.IsStage job') (named : s.Named)
    (past : List Event) :
    (runSteps locker job' steps).Ensures (Accounts locker job' steps s past) s past := by
  induction steps generalizing job' s past with
  | nil => exact .inr ⟨[], [], 0, .nil locker job', .nothing named fun _ => rfl, rfl⟩
  | cons step rest ih =>
    obtain ⟨hs, others⟩ := List.forall_mem_cons.mp mem
    have here := stage.atStep step
    have front : atStep job' step = job'.inFront [] step := by simp [atStep, Job.inFront]
    obtain ⟨t, parsed⟩ := Step.parse_of_validate (h.validStep hs)
    rw [runSteps, StepTrigger.trimBlanks_of_parse parsed, parsed]
    -- a deed about this step stands before the account of the other steps
    have later {deed : Deed} {es : List Event} {s₁ : Shared} {job₁ : Job}
        (meets : deed.Meets (job'.inFront [] step) step) (fine : deed.fails = false)
        (shows : deed.Shows locker es) (gains : s.Gains [deed] s₁) (stage₁ : job.IsStage job₁)
        (next : ∀ deeds step, job₁.inFront deeds step = job'.inFront (deed :: deeds) step) :
        (runSteps locker job₁ rest).Ensures (Accounts locker job' (step :: rest) s past) s₁
          (es.reverse ++ past) := by
      refine (ih others stage₁ gains.named _).mono ?_
      rintro s₂ _ r (failed | ⟨deeds, events, stop, account, more, rfl⟩)
      · exact .inl failed
      · refine .inr ⟨deed :: deeds, es :: events, stop + 1, .cons meets fine shows next account,
          gains.cons more, ?_⟩
        rw [List.flatten_cons, List.reverse_append, List.append_assoc]
    have filing {q : QueueName} {trigger : Trigger} (hq : q ≠ .now)
        (once : q ≠ .recurring → ∃ delay expired, trigger = .runOnce delay expired)
        (meets : ∀ key now t, (job'.inFront [] step).key q = .ok key → trigger.firstFire now ≤ t →
          (Deed.file q (stepTask (job'.inFront [] step) step key trigger now) now t).Meets
            (job'.inFront [] step) step) :
        ((fileStep (job'.inFront [] step) step q trigger).andThen id fun _ =>
          runSteps locker (job'.inFront [] step) rest).Ensures
            (Accounts locker job' (step :: rest) s past) s past := by
      rw [front] at here
      refine (fileStep_files h here hs hq once named past).andThen ?_ ?_
      · rintro s₁ _ e (⟨failed, -⟩ | ⟨_, _, _, done, -⟩)
        · exact .inl failed
        · cases done
      · rintro s₁ _ ⟨⟩ (⟨failed, -⟩ | ⟨key, now, t, -, hkey, -, filing, rfl⟩)
        · cases failed
        · refine later (meets key now t hkey filing.late) rfl rfl (.of_filing filing) here ?_
          intro deeds step'
          simp [Job.inFront, Deed.announced]
    cases t with
    | now =>
      refine ((Job.runStep_quiet locker _ step).ensures_traces s past).andThen ?_ ?_
      · rintro _ _ e ⟨rfl, es, rfl, trace⟩
        rw [front] at trace
        refine .inr ⟨_, [es], 0, .failed parsed trace, .nothing named fun _ => rfl, ?_⟩
        rw [List.flatten_singleton]
      · rintro _ _ outcome ⟨rfl, es, rfl, trace⟩
        rw [front] at trace
        refine later (.now parsed _) rfl trace (.nothing named fun _ => rfl) (here.withEnv _) ?_
        intro deeds step'
        simp [Job.inFront, atStep, Deed.announced]
    | once delay =>
      rw [front]
      exact filing (by decide) (fun _ => ⟨_, _, rfl⟩) fun _ _ _ => .of_once parsed
    | every interval =>
      rw [front]
      exact filing (by decide) (fun other => absurd rfl other) fun _ _ _ => .of_every parsed

/-- The clients of the job's app hear that it has started, and that it has finished unless a run failed. -/
theorem runRecipe_accounts (h : job.Accepted) (named : s.Named) (past : List Event) :
    (runRecipe locker job).Ensures (fun s' past' r => r = .error (.queue (.io .isDirectory)) ∨
      ∃ deeds events stop, Account locker job job.recipe.steps r deeds events stop ∧
        s.Gains deeds s' ∧ past' = (job.tidings Catalog.jobStarted ++ events.flatten ++
          job.ending stop).reverse ++ past) s past := by
  refine (tellApp_tells job _ s past).bind ?_
  rintro _ _ - ⟨rfl, rfl⟩
  refine (runSteps_accounts h _ (fun _ => id) job.isStage_self named _).andThen ?_ ?_
  · rintro s₁ _ e (failed | ⟨deeds, events, stop, account, gains, rfl⟩)
    · exact .inl failed
    · have short : stop ≠ job.recipe.steps.length := fun whole => nomatch account.result_iff.mpr whole
      refine .inr ⟨deeds, events, stop, account, gains, ?_⟩
      rw [Job.ending, if_neg short]
      simp
  · rintro s₁ _ ⟨⟩ (failed | ⟨deeds, events, stop, account, gains, rfl⟩)
    · exact nomatch failed
    · refine (tellApp_tells job _ s₁ _).bind ?_
      rintro _ _ - ⟨rfl, rfl⟩
      refine .inr ⟨deeds, events, stop, account, gains, ?_⟩
      rw [Job.ending, if_pos (account.result_iff.mp rfl)]
      simp

end Execution

/-! ### Whole executions -/

/-- What an execution of a recipe has come to: its account, the tasks that were filed as their queues store
them, and the key of its task unmarked. -/
structure Served (locker : Locker) (f : Filed) (job : Job) (s s' : Shared) (es : List Event)
    (r : Except ExecutionError Unit) (deeds : List Deed) (events : List (List Event)) (stop : Nat) :
    Prop where
  account : Account locker job job.recipe.steps r deeds events stop
  events : es = job.tidings Catalog.jobStarted ++ events.flatten ++ job.ending stop ++
    [⟨.unmark f.key, ()⟩]
  tasks : ∀ q, (s'.tasks q).Perm
    ((deeds.filterMap (Deed.filed? q)).map (s.shelves q).stored ++ s.tasks q)
  finished : ∀ app, (Route.ofJob job).app = some app →
    (⟨.send (.app app Catalog.jobFinished), ()⟩ ∈ es ↔ stop = job.recipe.steps.length)
  unmarked : s'.running.isRunning f.key = false
  marks : ∀ key ≠ f.key, s'.running.isRunning key = s.running.isRunning key

/-- The execution of an accepted job goes through its steps in order, up to the first run that fails. Each
step is run, or filed once under the job's key, with what was announced before it. The clients of its app
hear that it has finished exactly when no run failed, and nothing but the key of the task is unmarked. -/
theorem recipe_accounted_for {locker : Locker} {job : Job} {key : String} (range : job.InRange)
    (valid : job.validateSubmission = .ok ()) (hkey : job.key .now = .ok key) {f : Filed}
    (task : f.task = .recipe job) {s s' : Shared} (named : s.Named) {past past' : List Event}
    {n : Nat} {r : Except ExecutionError Unit}
    (run : Course.Run s ⟨f.execute locker, past, 0⟩ s' ⟨.done r, past', n⟩)
    (free : r ≠ .error (.queue (.io .isDirectory))) :
    ∃ es deeds events stop, past' = es.reverse ++ past ∧
      Served locker f job s s' es r deeds events stop := by
  have accepted : job.Accepted := ⟨range, valid, key, hkey⟩
  suffices told : r = .error (.queue (.io .isDirectory)) ∨ ∃ es deeds events stop,
      past' = es.reverse ++ past ∧ Served locker f job s s' es r deeds events stop from
    told.resolve_left free
  refine run.ensured (fun s' past' r => r = .error (.queue (.io .isDirectory)) ∨
    ∃ es deeds events stop, past' = es.reverse ++ past ∧
      Served locker f job s s' es r deeds events stop) ?_
  unfold Filed.execute
  rw [task]
  refine (Execution.runRecipe_accounts accepted named past).bind ?_
  rintro s₁ _ r (failed | ⟨deeds, events, stop, account, gains, rfl⟩) ⟨⟩ s₂ does
  · exact .inl failed
  · cases does with
    | once answers =>
      cases answers with
      | quiet _ _ quiet => exact quiet.elim
      | unmark =>
        refine .inr ⟨_, deeds, events, stop, ?_, account, rfl, gains.tasks,
          fun app numeric => account.finished_iff numeric f.key, ?_, fun key other => ?_⟩
        · rw [List.reverse_concat, List.cons_append]
        · simp
        · simp [gains.running, other]

open Feast in
theorem recipe_accounted_for_feast :
    Job.feast.InRange ∧ Job.feast.validateSubmission = .ok () ∧ Job.feast.key .now = .ok nowKey ∧
      filed.task = .recipe Job.feast ∧ (larder [nowKey] [] []).Named ∧
      Course.Run (larder [nowKey] [] [])
        ⟨filed.execute locker, [⟨.now, filed.nextRun⟩, ⟨.pop .now, .ok filed⟩], 0⟩
        (larder [] [] [simmer, bake]) ⟨.done (.ok ()), cooked, 0⟩ ∧
      (.ok () : Except ExecutionError Unit) ≠ .error (.queue (.io .isDirectory)) ∧
      ∃ es deeds events stop,
        cooked = es.reverse ++ [⟨.now, filed.nextRun⟩, ⟨.pop .now, .ok filed⟩] ∧
        Served locker filed Job.feast (larder [nowKey] [] []) (larder [] [] [simmer, bake]) es (.ok ())
          deeds events stop := by
  have named : (larder [nowKey] [] []).Named := by
    intro q
    cases q <;> trivial
  exact ⟨Job.feast_inRange, Job.feast_valid, feast_nowKey, rfl, named, run_filed, nofun,
    recipe_accounted_for Job.feast_inRange Job.feast_valid feast_nowKey rfl named run_filed nofun⟩

/-! ### A delay that no record can tell -/

/-- A step in more than half a thousand years. -/
def ageing : Step := { simmering with name := "age", trigger := "in.18446744074.seconds" }

namespace Job

def wine : Job := { pancakes with recipe := ⟨"wine", "", [], [ageing]⟩ }

theorem wine_inRange : wine.InRange where
  timeout := Nat.zero_le _
  recipe s hs := by
    obtain rfl := List.mem_singleton.mp hs
    exact Nat.le_of_ble_eq_true rfl
  recipients _ h := nomatch h

theorem wine_valid : wine.validateSubmission = .ok () := by decide

end Job

namespace Feast

open Job

/-- Empty directories, with the key of the recipe marked. -/
def cellar : Shared := ⟨⟨[nowKey]⟩, fun _ => .directory []⟩

theorem ageing_parsed :
    StepTrigger.parse ageing.trigger.trimBlanks = .ok (.once (.ofSeconds 18446744074)) := by decide

theorem wine_laterKey : wine.key .delayed = .ok laterKey := by decide

def aged : Filed :=
  Execution.stepTask (Execution.atStep wine ageing) ageing laterKey (.once (.ofSeconds 18446744074)) 0

theorem aged_storable : aged.Storable .delayed := by
  have proper : aged.Proper .delayed := Execution.stepTask_proper
    (wine_inRange.withEnv (toString ageing.step) []) wine_valid (List.mem_singleton_self ageing)
    (by decide) wine_laterKey (fun _ => ⟨_, _, rfl⟩) 0
  exact ⟨proper.inRange, proper.check⟩

/-- The record that is put into the directory tells the greatest delay that it can. -/
theorem exists_push_aged : ∃ t s', cellar.push .delayed aged = (.ok t, s') ∧
    s'.tasks .delayed = [{ aged.capped with nextRun := t }] := by
  have keeps : (Shelf.directory []).Keeps .delayed Filed.capped [] :=
    Shelf.isEmpty.keeps (s := .directory []) rfl
  obtain ⟨t, shelf, pushed, -, kept⟩ := keeps.push_ok aged_storable rfl
  refine ⟨t, cellar.setShelf .delayed shelf, ?_, ?_⟩
  · have pushed : (cellar.shelves .delayed).push .delayed aged = (.ok t, shelf) := pushed
    rw [Shared.push, pushed]
  · rw [Shared.tasks, Shared.setShelf_self, kept.tasks_eq]
    rfl

/-- The task that is found in the directory has a shorter delay than its step. -/
theorem exists_shortened_delay :
    wine.InRange ∧ wine.validateSubmission = .ok () ∧ wine.key .now = .ok nowKey ∧
      StepTrigger.parse ageing.trigger = .ok (.once (.ofSeconds 18446744074)) ∧ cellar.Named ∧
      ∃ s' past g, Course.Run cellar ⟨(Submission.filed wine nowKey 0).execute locker, [], 0⟩ s'
          ⟨.done (.ok ()), past, 0⟩ ∧
        s'.tasks .delayed = [g] ∧ g.trigger ≠ .once (.ofSeconds 18446744074) := by
  obtain ⟨t, s₁, pushed, tasks⟩ := exists_push_aged
  have told : (Route.ofJob wine).app = some 7 := by decide
  have task : (Submission.filed wine nowKey 0).task = .recipe wine := rfl
  have filed (next : Except ExecutionError Unit → Process (Except ExecutionError Unit)) :=
    Execution.run_runSteps_once locker ageing_parsed wine_laterKey 0 (s := cellar) rfl pushed [] next
      [⟨.send (.app 7 Catalog.jobStarted), ()⟩] 0
  have run := Execution.run_recipe locker told task filed
  have shorter : aged.capped.trigger ≠ .once (.ofSeconds 18446744074) := by decide
  exact ⟨wine_inRange, wine_valid, by decide, by decide, fun _ => List.nodup_nil, _, _, _, run, tasks,
    shorter⟩

end Feast

end Galley
