import Galley.Proofs.Balance
/-!
# Schedules

Runs that can be brought about by a choice of answers and of who goes on. A quiet process can be
answered as one likes. An eviction can be carried to its end at any time, and looks at queues that
stop after their pop empty every queue. Main statements: a submission of a valid job takes its key
wherever that is free, and one that has taken it can be brought to file its job; and the execution of
a filed step can be brought to run the step, or is refused where its recipe is running.
-/
namespace Galley

open Process

/-! ### Runs of one call -/

/-- A run of one call while all others stand still. -/
def Course.Run {α : Type} (s : Shared) (p : Course α) (s' : Shared) (p' : Course α) : Prop :=
  Relation.ReflTransGen (fun x y : Shared × Course α => x.2.Step x.1 y.1 y.2) (s, p) (s', p')

namespace Course

variable {α : Type} {s s' s'' : Shared} {p p' p'' : Course α}

theorem Run.refl (s : Shared) (p : Course α) : Run s p s p := Relation.ReflTransGen.refl

theorem Step.run (h : p.Step s s' p') : Run s p s' p' := .single h

theorem Run.trans (h : Run s p s' p') (h' : Run s' p' s'' p'') : Run s p s'' p'' :=
  Relation.ReflTransGen.trans h h'

theorem run_quiet {a : Action} (h : a.IsQuiet) (r : a.Answer) (next : a.Answer → Process α)
    (past : List Event) (n : Nat) :
    Run s ⟨.act a next, past, n⟩ s ⟨next r, ⟨a, r⟩ :: past, n⟩ :=
  (Step.act (.quiet a r h)).run

end Course

theorem System.reaches_of_run {locker : Locker} {starts : Call → Prop} {s s' : Shared} (call : Call)
    {p p' : Course call.Result} (before behind : List Thread) (h : p.Run s s' p') :
    Reaches locker starts ⟨s, before ++ ⟨call, p⟩ :: behind⟩
      ⟨s', before ++ ⟨call, p'⟩ :: behind⟩ :=
  Relation.ReflTransGen.lift (p := Step locker starts)
    (fun x : Shared × Course call.Result => ⟨x.1, before ++ ⟨call, x.2⟩ :: behind⟩)
    (fun _ _ step => Step.run step) (s, p) (s', p') h

/-! ### Quiet processes -/

/-- Whether a quiet process can be brought to a result. -/
inductive Process.Gives {α : Type} : Process α → α → Prop
  | done (a : α) : Gives (.done a) a
  | act {action : Action} {next : action.Answer → Process α} {b : α} (h : action.IsQuiet)
      (r : action.Answer) (rest : Gives (next r) b) : Gives (.act action next) b

namespace Process.Gives

variable {α β ε ε' : Type}

theorem bind {p : Process α} {f : α → Process β} {a : α} {b : β} (h : p.Gives a)
    (hf : (f a).Gives b) : (p.bind f).Gives b := by
  induction h with
  | done a => exact hf
  | act quiet r _ ih => exact .act quiet r (ih hf)

theorem andThen {p : Process (Except ε α)} {wrap : ε → ε'} {f : α → Process (Except ε' β)} {a : α}
    {b : Except ε' β} (h : p.Gives (.ok a)) (hf : (f a).Gives b) : (p.andThen wrap f).Gives b :=
  h.bind hf

/-- A quiet process in front of another is run with nothing changed. -/
theorem run {p : Process α} {a : α} (h : p.Gives a) (f : α → Process β) (s : Shared)
    (past : List Event) (n : Nat) : ∃ past', heldAfter past' = heldAfter past ∧
      Course.Run s ⟨p.bind f, past, n⟩ s ⟨f a, past', n⟩ := by
  induction h generalizing past with
  | done a => exact ⟨past, rfl, .refl s _⟩
  | @act action next b quiet r _ ih =>
    obtain ⟨past', held, rest⟩ := ih (⟨action, r⟩ :: past)
    refine ⟨past', held.trans (Action.held_of_isQuiet _ quiet r), ?_⟩
    exact (Course.run_quiet quiet r (fun r => (next r).bind f) past n).trans rest

theorem run_andThen {p : Process (Except ε α)} {a : α} (h : p.Gives (.ok a)) (wrap : ε → ε')
    (f : α → Process (Except ε' β)) (s : Shared) (past : List Event) (n : Nat) :
    ∃ past', heldAfter past' = heldAfter past ∧
      Course.Run s ⟨p.andThen wrap f, past, n⟩ s ⟨f a, past', n⟩ :=
  h.run _ s past n

end Process.Gives

namespace Submission

theorem ping_gives : ping.Gives (.ok ()) := .act trivial (some (.ok ())) (.done _)

theorem isPresent_gives (image : String) : (isPresent image).Gives true :=
  .act trivial (.ok true) (.done _)

/-- All images may be there. -/
theorem pullMissing_gives (steps : List Galley.Step) : (pullMissing [] steps).Gives [] := by
  induction steps with
  | nil => exact .done _
  | cons step rest ih => exact (isPresent_gives _).bind ih

theorem stillMissing_gives (steps : List Galley.Step) : (stillMissing [] steps).Gives [] := by
  induction steps with
  | nil => exact .done _
  | cons step rest ih => exact (isPresent_gives _).bind ih

theorem checkImages_gives (job : Job) : (checkImages job).Gives (.ok ()) :=
  (pullMissing_gives _).bind ((stillMissing_gives _).bind (.done _))

theorem removeContainers_gives (layout : Layout) (job : Job) (steps : List Galley.Step) :
    (removeContainers layout job steps).Gives () := by
  induction steps with
  | nil => exact .done _
  | cons step rest ih => exact .act trivial (.ok 0) ih

end Submission

/-! ### Evictions -/

/-- Whether one state of the queues came of another by taking tasks out. -/
structure Shared.Drained (s s' : Shared) : Prop where
  sound : s'.Sound
  running : s'.running = s.running
  empty : ∀ q, s.tasks q = [] → s'.tasks q = []

namespace Shared

variable {s s' s'' : Shared}

theorem Drained.refl (hs : s.Sound) : s.Drained s := ⟨hs, rfl, fun _ h => h⟩

theorem Drained.trans (h : s.Drained s') (h' : s'.Drained s'') : s.Drained s'' :=
  ⟨h'.sound, h'.running.trans h.running, fun q hq => h'.empty q (h.empty q hq)⟩

theorem Without.tasks_eq_nil {q q' : QueueName} {f : Filed} (h : s.Without s' q f)
    (none : s.tasks q' = []) : s'.tasks q' = [] :=
  List.eq_nil_iff_forall_not_mem.mpr fun g hg => by
    have mem := h.mem hg
    rw [none] at mem
    exact nomatch mem

end Shared

/-- An eviction ends where nothing is filed under its key. -/
theorem Course.step_swept {α : Type} {s : Shared} (hs : s.Sound) {q : QueueName} {key : String}
    (none : ∀ f ∈ s.tasks q, f.key ≠ key) (next : Except QueueError Nat → Process α)
    (past : List Event) (n : Nat) : Step s ⟨.act (.evict q key) next, past, n⟩ s
      ⟨next (.ok n), ⟨.evict q key, .ok n⟩ :: past, 0⟩ := by
  rcases hs.remove q key with ⟨-, hr⟩ | ⟨f, s', -, own, -, -, without⟩
  · exact .swept hr
  · exact absurd own (none f (without.perm.mem_iff.mpr List.mem_cons_self))

theorem Course.exists_swept {α : Type} {s : Shared} (hs : s.Sound) (q : QueueName) (key : String)
    (next : Except QueueError Nat → Process α) (past : List Event) (n : Nat) :
    ∃ s' m, s.Drained s' ∧ Run s ⟨.act (.evict q key) next, past, n⟩ s'
      ⟨next (.ok m), ⟨.evict q key, .ok m⟩ :: past, 0⟩ := by
  induction hl : (s.tasks q).length generalizing s n with
  | zero =>
    have none (f : Filed) (hf : f ∈ s.tasks q) : f.key ≠ key := by
      rw [List.eq_nil_of_length_eq_zero hl] at hf
      exact nomatch hf
    exact ⟨s, n, .refl hs, (step_swept hs none next past n).run⟩
  | succ k ih =>
    rcases hs.remove q key with ⟨none, -⟩ | ⟨f, s', hr, -, hs', running, without⟩
    · exact ⟨s, n, .refl hs, (step_swept hs none next past n).run⟩
    · have size := without.perm.length_eq
      rw [List.length_cons] at size
      obtain ⟨s'', m, drained, rest⟩ := ih hs' (n + 1) (by omega)
      have first : s.Drained s' := ⟨hs', running, fun q' h => without.tasks_eq_nil h⟩
      exact ⟨s'', m, first.trans drained, (Step.removed hr).run.trans rest⟩

/-! ### The end of a submission -/

/-- Whether a submission can be brought to file its job, whatever its evictions count. -/
inductive CanFile (key : String) : Process (Except SubmitError String) → Prop
  | quiet {a : Action} {next : a.Answer → Process (Except SubmitError String)} (h : a.IsQuiet)
      (r : a.Answer) (rest : CanFile key (next r)) : CanFile key (.act a next)
  | evict {q : QueueName} {k : String}
      {next : Except QueueError Nat → Process (Except SubmitError String)}
      (rest : ∀ n, CanFile key (next (.ok n))) : CanFile key (.act (.evict q k) next)
  | file {f : Filed} {next : Except QueueError Int → Process (Except SubmitError String)}
      (proper : f.Proper .now) (hkey : f.key = key) (rest : ∀ t, next (.ok t) = .done (.ok key)) :
      CanFile key (.act (.push .now f) next)

/-- Where the queue for runs at once is empty, a submission that can file its job does so. -/
theorem CanFile.run {key : String} {p : Process (Except SubmitError String)} (h : CanFile key p)
    {s : Shared} (hs : s.Sound) (none : s.tasks .now = []) (past : List Event) (n : Nat) :
    ∃ s' g past' n', Course.Run s ⟨p, past, n⟩ s' ⟨.done (.ok key), past', n'⟩ ∧ s'.Sound ∧
      s'.tasks .now = [g] ∧ g.key = key ∧
      ∀ q, q ≠ .now → s.tasks q = [] → s'.tasks q = [] := by
  induction h generalizing s past n with
  | quiet quiet r _ ih =>
    obtain ⟨s', g, past', n', rest, facts⟩ := ih hs none (⟨_, r⟩ :: past) n
    exact ⟨s', g, past', n', (Course.run_quiet quiet r _ past n).trans rest, facts⟩
  | @evict q k next _ ih =>
    obtain ⟨s', m, drained, run⟩ := Course.exists_swept hs q k next past n
    obtain ⟨s'', g, past', n', rest, sound, one, hg, empty⟩ :=
      ih m drained.sound (drained.empty _ none) (⟨.evict q k, .ok m⟩ :: past) 0
    exact ⟨s'', g, past', n', run.trans rest, sound, one, hg,
      fun q hq hn => empty q hq (drained.empty q hn)⟩
  | @file f next proper hkey rest =>
    have room : (s.shelves .now).HasRoom f := (hs .now).hasRoom none f
    obtain ⟨t, g, s', hp, hg, sound, -, without⟩ := hs.push proper room
    have step : Course.Step s ⟨.act (.push .now f) next, past, n⟩ (s.push .now f).2
        ⟨next (s.push .now f).1, ⟨.push .now f, (s.push .now f).1⟩ :: past, n⟩ :=
      .act (.push .now f room)
    rw [hp] at step
    dsimp only at step
    rw [rest t] at step
    refine ⟨s', g, _, n, step.run, sound, ?_, hg.trans hkey, fun q hq hn => ?_⟩
    · have perm := without.perm
      rw [none] at perm
      exact List.perm_singleton.mp perm
    · rwa [Shared.tasks, ← without.others q hq]

namespace Submission

/-- What is done with the outcome of filing a job under a key that was taken. -/
def settle (key : String) : Except SubmitError Int → Process (Except SubmitError String)
  | .ok _ => .done (.ok key)
  | .error e => .act (.unmark key) fun _ => .done (.error e)

/-- What is left of a submission that has taken its key. -/
def filing (locker : Locker) (job : Job) (key : String) : Process (Except SubmitError String) :=
  ((replacePrevious locker job).andThen id fun _ => file job key).bind (settle key)

theorem accept_eq (locker : Locker) (job : Job) (key : String) : accept locker job key =
    .act (.tryAcquire key) fun taken =>
      if taken then filing locker job key else .done (.error .alreadyRunning) := rfl

theorem submit_eq (locker : Locker) {job : Job} {key : String}
    (valid : job.validateSubmission = .ok ()) (hkey : job.key .now = .ok key) :
    job.submit locker = ping.andThen id fun _ => (checkImages job).andThen id fun _ =>
      accept locker job key := by
  rw [Job.submit, valid]
  dsimp only
  rw [hkey]

theorem canFile_bind {α : Type} {key : String} {p : Process α} {a : α}
    {f : α → Process (Except SubmitError String)} (h : p.Gives a) (hf : CanFile key (f a)) :
    CanFile key (p.bind f) := by
  induction h with
  | done a => exact hf
  | act quiet r _ ih => exact .quiet quiet r (ih hf)

theorem evictAll_cons {job : Job} {q : QueueName} {key : String} (hkey : job.key q = .ok key)
    (rest : List QueueName) (f : Except SubmitError Unit → Process (Except SubmitError String)) :
    (evictAll job (q :: rest)).bind f = .act (.evict q key) fun r =>
      match r with
      | .error e => f (.error (.queue e))
      | .ok _ => (evictAll job rest).bind f := by
  rw [evictAll, hkey]
  refine congrArg (Process.act (.evict q key)) (funext fun r => ?_)
  cases r <;> rfl

theorem canFile_evictAll {job : Job} {key : String} (queues : List QueueName)
    (keys : ∀ q, ∃ k, job.key q = .ok k)
    {f : Except SubmitError Unit → Process (Except SubmitError String)}
    (hf : CanFile key (f (.ok ()))) : CanFile key ((evictAll job queues).bind f) := by
  induction queues with
  | nil => exact hf
  | cons q rest ih =>
    obtain ⟨k, hk⟩ := keys q
    rw [evictAll_cons hk]
    exact .evict fun _ => ih

theorem exists_layout (locker : Locker) {job : Job} {key : String} {q : QueueName}
    (hkey : job.key q = .ok key) : ∃ layout, locker.layout job = .ok layout := by
  unfold Job.key at hkey
  split at hkey
  · exact nomatch hkey
  · next scope hs =>
    unfold Locker.layout
    rw [hs]
    exact ⟨_, rfl⟩

/-- What is left of a submission after its evictions. -/
def replaced (layout : Layout) (job : Job) (key : String) :
    Except SubmitError Unit → Process (Except SubmitError String)
  | .error e => settle key (.error e)
  | .ok _ => (removeContainers layout job job.recipe.steps).bind fun _ =>
    (file job key).bind (settle key)

theorem filing_eq {locker : Locker} {job : Job} {layout : Layout}
    (hl : locker.layout job = .ok layout) (key : String) :
    filing locker job key = (evictAll job QueueName.all).bind (replaced layout job key) := by
  unfold filing replacePrevious
  rw [hl, Process.andThen, Process.andThen, bind_assoc, bind_assoc]
  refine congrArg (evictAll job QueueName.all).bind (funext fun r => ?_)
  cases r with
  | error e => rfl
  | ok _ =>
    change ((removeContainers layout job job.recipe.steps).bind fun _ =>
      .done (.ok () : Except SubmitError Unit)).bind _ = _
    rw [bind_assoc]
    rfl

theorem canFile_replaced (layout : Layout) {job : Job} {key : String} (range : job.InRange)
    (valid : job.validateSubmission = .ok ()) (hkey : job.key .now = .ok key) :
    CanFile key (replaced layout job key (.ok ())) := by
  refine canFile_bind (removeContainers_gives _ _ _) ?_
  exact .quiet trivial (0 : Int) (.file (filed_proper range valid hkey 0) rfl fun _ => rfl)

/-- A submission that has taken its key can be brought to file its job. -/
theorem canFile_filing (locker : Locker) {job : Job} {key : String} (range : job.InRange)
    (valid : job.validateSubmission = .ok ()) (hkey : job.key .now = .ok key) :
    CanFile key (filing locker job key) := by
  obtain ⟨layout, hl⟩ := exists_layout locker hkey
  rw [filing_eq hl]
  exact canFile_evictAll _ (fun q => Job.exists_key hkey q) (canFile_replaced layout range valid hkey)

/-- A submission of a valid job takes its key where that is free. -/
theorem exists_taken (locker : Locker) {job : Job} {key : String}
    (valid : job.validateSubmission = .ok ()) (hkey : job.key .now = .ok key) {s : Shared}
    (free : s.running.isRunning key = false) :
    ∃ past, heldAfter past = [key] ∧ Course.Run s ⟨job.submit locker, [], 0⟩
      { s with running := s.running.mark key } ⟨filing locker job key, past, 0⟩ := by
  rw [submit_eq locker valid hkey]
  obtain ⟨past, held, pinged⟩ := ping_gives.run_andThen id
    (fun _ => (checkImages job).andThen id fun _ => accept locker job key) s [] 0
  obtain ⟨past', held', checked⟩ := (checkImages_gives job).run_andThen id
    (fun _ => accept locker job key) s past 0
  have took : s.running.tryAcquire key = (true, s.running.mark key) :=
    if_neg (by simp [free])
  have answered := Shared.Answers.tryAcquire (s := s) key
  rw [took] at answered
  have step : Course.Step s ⟨accept locker job key, past', 0⟩
      { s with running := s.running.mark key }
      ⟨filing locker job key, ⟨.tryAcquire key, true⟩ :: past', 0⟩ := .act answered
  refine ⟨⟨.tryAcquire key, true⟩ :: past', ?_, (pinged.trans checked).trans step.run⟩
  change key :: heldAfter past' = [key]
  rw [held', held]
  rfl

end Submission

/-! ### Looks that stop after their pop -/

namespace Dispatch

/-- What is left of a look at a queue that has popped a task. -/
def afterPop (q : QueueName) (f : Filed) : Process (Option Filed) :=
  .act .now fun now =>
    if now < f.nextRun then (putBack q f).bind fun _ => .done none
    else (recur q f now).bind fun _ => .done (some f)

theorem popDue_eq (q : QueueName) : popDue q = .act (.pop q) fun r =>
    match r with
    | .error _ => .done none
    | .ok f => afterPop q f := rfl

end Dispatch

/-- A look at a queue that has popped a task. -/
def Thread.popped (q : QueueName) (f : Filed) : Thread :=
  ⟨.dispatch q, Dispatch.afterPop q f, [⟨.pop q, .ok f⟩], 0⟩

namespace System

variable {locker : Locker} {starts : Call → Prop}

/-- A look at a queue pops its first task. -/
theorem reaches_popped {s s' : Shared} {q : QueueName} {f : Filed}
    (start : starts (.dispatch q)) (hp : s.pop q = (.ok f, s')) (threads : List Thread) :
    Reaches locker starts ⟨s, threads⟩ ⟨s', threads ++ [.popped q f]⟩ := by
  have step : Course.Step s ⟨Dispatch.popDue q, [], 0⟩ s'
      ⟨Dispatch.afterPop q f, [⟨.pop q, .ok f⟩], 0⟩ := by
    have answered := Shared.Answers.pop (s := s) q
    rw [hp] at answered
    rw [Dispatch.popDue_eq]
    exact .act answered
  have begun : Step locker starts ⟨s, threads⟩ ⟨s, threads ++ [.begin locker (.dispatch q)]⟩ :=
    .dispatch start
  have run : Course.Run s (Thread.begin locker (.dispatch q)).course s'
      (Thread.popped q f).course := step.run
  exact (Relation.ReflTransGen.single begun).trans (reaches_of_run (.dispatch q) threads [] run)

/-- Looks that stop after their pop empty a queue. -/
theorem exists_drained (locker : Locker) {s : Shared} (hs : s.Sound) {q : QueueName}
    (start : starts (.dispatch q)) (threads : List Thread) : ∃ (s' : Shared) (fs : List Filed),
      Reaches locker starts ⟨s, threads⟩ ⟨s', threads ++ fs.map (Thread.popped q)⟩ ∧ s'.Sound ∧
      s'.tasks q = [] ∧ fs.Perm (s.tasks q) ∧ ∀ q' ≠ q, s'.shelves q' = s.shelves q' := by
  induction hl : (s.tasks q).length generalizing s threads with
  | zero =>
    have none := List.eq_nil_of_length_eq_zero hl
    refine ⟨s, [], ?_, hs, none, ?_, fun _ _ => rfl⟩
    · rw [List.map_nil, List.append_nil]
      exact .refl
    · rw [none]
  | succ n ih =>
    rcases hs.pop q with ⟨none, -⟩ | ⟨f, s', hp, hs', -, without⟩
    · rw [none] at hl
      exact nomatch hl
    · have size := without.perm.length_eq
      rw [List.length_cons] at size
      obtain ⟨s'', fs, rest, sound, empty, perm, others⟩ :=
        ih hs' (threads ++ [.popped q f]) (by omega)
      refine ⟨s'', f :: fs, ?_, sound, empty, ?_, fun q' hq => ?_⟩
      · rw [List.map_cons, ← List.singleton_append, ← List.append_assoc]
        exact (reaches_popped start hp threads).trans rest
      · exact (perm.cons f).trans without.perm.symm
      · rw [others q' hq, without.others q' hq]

/-- A task that fires once and was popped is handed out when its time has come. -/
theorem reaches_due (locker : Locker) (s : Shared) {q : QueueName} {f : Filed}
    (once : f.trigger.nextFire f.nextRun f.nextRun = none) (start : starts (.execute q f))
    (before behind : List Thread) : Reaches locker starts ⟨s, before ++ .popped q f :: behind⟩
      ⟨s, before ++ ⟨.execute q f, f.execute locker, [⟨.now, f.nextRun⟩, ⟨.pop q, .ok f⟩], 0⟩ ::
        behind⟩ := by
  have due := Course.run_quiet (s := s) (a := .now) trivial f.nextRun
    (fun now => if now < f.nextRun then (Dispatch.putBack q f).bind fun _ => .done none
      else (Dispatch.recur q f now).bind fun _ => .done (some f)) [⟨.pop q, .ok f⟩] 0
  rw [if_neg (Int.lt_irrefl _), Dispatch.recur, once] at due
  exact (reaches_of_run (.dispatch q) before behind due).trans
    (Relation.ReflTransGen.single (.handOver start))

/-- A task for a run at once that was popped is handed out when its time has come. -/
theorem reaches_handedOut (locker : Locker) (s : Shared) {f : Filed} (hf : f.Proper .now)
    (start : starts (.execute .now f)) (before behind : List Thread) :
    ∃ past, heldAfter past = [f.key] ∧
      Reaches locker starts ⟨s, before ++ .popped .now f :: behind⟩
        ⟨s, before ++ ⟨.execute .now f, f.execute locker, past, 0⟩ :: behind⟩ :=
  ⟨_, rfl, reaches_due locker s (hf.nextFire_eq_none _ _) start before behind⟩

end System

/-! ### Filing -/

theorem Course.run_push {α : Type} {s s' : Shared} {q : QueueName} {f : Filed}
    {r : Except QueueError Int} (room : (s.shelves q).HasRoom f) (hp : s.push q f = (r, s'))
    (next : Except QueueError Int → Process α) (past : List Event) (n : Nat) :
    Run s ⟨.act (.push q f) next, past, n⟩ s' ⟨next r, ⟨.push q f, r⟩ :: past, n⟩ := by
  have answered := Shared.Answers.push (s := s) q f room
  rw [hp] at answered
  exact (Step.act answered).run

namespace Submission

theorem run_evictAll {s : Shared} (hs : s.Sound) (empty : ∀ q, s.tasks q = []) {job : Job}
    (keys : ∀ q, ∃ k, job.key q = .ok k) (queues : List QueueName)
    (f : Except SubmitError Unit → Process (Except SubmitError String)) (past : List Event) :
    ∃ past', Course.Run s ⟨(evictAll job queues).bind f, past, 0⟩ s ⟨f (.ok ()), past', 0⟩ := by
  induction queues generalizing past with
  | nil => exact ⟨past, .refl s _⟩
  | cons q rest ih =>
    obtain ⟨key, hkey⟩ := keys q
    have none (g : Filed) (hg : g ∈ s.tasks q) : g.key ≠ key :=
      absurd (empty q ▸ hg) List.not_mem_nil
    rw [evictAll_cons hkey]
    obtain ⟨past', swept⟩ := ih (⟨.evict q key, .ok 0⟩ :: past)
    exact ⟨past', (Course.step_swept hs none _ past 0).run.trans swept⟩

theorem file_bind (job : Job) (key : String)
    (f : Except SubmitError Int → Process (Except SubmitError String)) :
    (file job key).bind f = .act .now fun now =>
      .act (.push .now (filed job key now)) fun r => f (r.mapError .queue) := by
  refine congrArg (Process.act .now) (funext fun now => ?_)
  refine congrArg (Process.act (.push .now (filed job key now))) (funext fun r => ?_)
  cases r <;> rfl

/-- A submission behind its evictions files its job. -/
theorem run_replaced (layout : Layout) (job : Job) (key : String) {s s' : Shared} {t : Int}
    (room : (s.shelves .now).HasRoom (filed job key 0))
    (hp : s.push .now (filed job key 0) = (.ok t, s')) (past : List Event) : ∃ past',
      Course.Run s ⟨replaced layout job key (.ok ()), past, 0⟩ s' ⟨.done (.ok key), past', 0⟩ := by
  obtain ⟨past', -, removed⟩ := (removeContainers_gives layout job job.recipe.steps).run
    (fun _ => (file job key).bind (settle key)) s past 0
  have read := Course.run_quiet (s := s) (a := .now) trivial (0 : Int) (fun now =>
    .act (.push .now (filed job key now)) fun r => settle key (r.mapError .queue)) past' 0
  rw [← file_bind] at read
  have pushed := Course.run_push room hp
    (fun r => settle key (r.mapError .queue)) (⟨.now, (0 : Int)⟩ :: past') 0
  exact ⟨_, (removed.trans read).trans pushed⟩

/-- On empty queues, a submission that has taken its key files its job. -/
theorem run_filing (locker : Locker) {job : Job} {key : String} (hkey : job.key .now = .ok key)
    {s s' : Shared} (hs : s.Sound) (empty : ∀ q, s.tasks q = []) {t : Int}
    (hp : s.push .now (filed job key 0) = (.ok t, s')) (past : List Event) : ∃ past',
      Course.Run s ⟨filing locker job key, past, 0⟩ s' ⟨.done (.ok key), past', 0⟩ := by
  obtain ⟨layout, hl⟩ := exists_layout locker hkey
  rw [filing_eq hl]
  obtain ⟨past₁, swept⟩ := run_evictAll hs empty (fun q => Job.exists_key hkey q) QueueName.all
    (replaced layout job key) past
  obtain ⟨past₂, filed⟩ :=
    run_replaced layout job key ((hs .now).hasRoom (empty .now) _) hp past₁
  exact ⟨past₂, swept.trans filed⟩

end Submission

namespace Execution

/-- A step that runs once later is filed, and the recipe goes on behind it. -/
theorem run_runSteps_once (locker : Locker) {job : Job} {step : Galley.Step} {delay : Duration}
    (parsed : StepTrigger.parse step.trigger.trimBlanks = .ok (.once delay)) {key : String}
    (hkey : job.key .delayed = .ok key) {s s' : Shared} {t : Int} (now : Int)
    (room : (s.shelves .delayed).HasRoom (stepTask (atStep job step) step key (.once delay) now))
    (hp : s.push .delayed (stepTask (atStep job step) step key (.once delay) now) = (.ok t, s'))
    (rest : List Galley.Step) {α : Type}
    (f : Except ExecutionError Unit → Process α) (past : List Event) (n : Nat) :
    Course.Run s ⟨(runSteps locker job (step :: rest)).bind f, past, n⟩ s'
      ⟨(runSteps locker (atStep job step) rest).bind f,
        ⟨.push .delayed (stepTask (atStep job step) step key (.once delay) now), .ok t⟩ ::
          ⟨.now, now⟩ :: past, n⟩ := by
  have filing : (runSteps locker job (step :: rest)).bind f = .act .now fun now =>
      .act (.push .delayed (stepTask (atStep job step) step key (.once delay) now)) fun r =>
        match r with
        | .error e => f (.error (.queue e))
        | .ok _ => (runSteps locker (atStep job step) rest).bind f := by
    have same : (atStep job step).key .delayed = .ok key := hkey
    rw [runSteps, parsed]
    unfold fileStep
    rw [same]
    refine congrArg (Process.act .now) (funext fun now => ?_)
    refine congrArg (Process.act (.push .delayed _)) (funext fun r => ?_)
    cases r <;> rfl
  rw [filing]
  exact (Course.run_quiet (a := .now) trivial now _ past n).trans
    (Course.run_push room hp _ (⟨.now, now⟩ :: past) n)

/-- The execution of a recipe whose steps all go well, for a job with an app. -/
theorem run_recipe (locker : Locker) {job : Job} {app : Int}
    (numeric : (Route.ofJob job).app = some app) {f : Filed} (task : f.task = .recipe job)
    {s s' : Shared} {past past' : List Event} {n n' : Nat}
    (steps : ∀ next : Except ExecutionError Unit → Process (Except ExecutionError Unit),
      Course.Run s ⟨(runSteps locker job job.recipe.steps).bind next,
        ⟨.send (.app app Catalog.jobStarted), ()⟩ :: past, n⟩ s' ⟨next (.ok ()), past', n'⟩) :
    Course.Run s ⟨f.execute locker, past, n⟩ { s' with running := s'.running.unmark f.key }
      ⟨.done (.ok ()), ⟨.unmark f.key, ()⟩ :: ⟨.send (.app app Catalog.jobFinished), ()⟩ :: past', n'⟩ := by
  let last (r : Except ExecutionError Unit) : Process (Except ExecutionError Unit) :=
    .act (.unmark f.key) fun _ => .done r
  let ending (r : Except ExecutionError Unit) : Process (Except ExecutionError Unit) :=
    match r with
    | .error e => last (.error e)
    | .ok _ => .act (.send (.app app Catalog.jobFinished)) fun _ => last (.ok ())
  have tells (text : String) : tellApp job text = .act (.send (.app app text)) .done := by
    unfold tellApp
    rw [numeric]
    rfl
  have begun : f.execute locker = .act (.send (.app app Catalog.jobStarted)) fun _ =>
      (runSteps locker job job.recipe.steps).bind ending := by
    unfold Filed.execute
    rw [task]
    change (runRecipe locker job).bind last = _
    unfold runRecipe
    rw [tells, tells]
    change Process.act _ (fun _ => ((runSteps locker job job.recipe.steps).bind _).bind last) = _
    refine congrArg (Process.act (.send _)) (funext fun _ => ?_)
    rw [Process.bind_assoc]
    refine congrArg (Process.bind _) (funext fun r => ?_)
    cases r <;> rfl
  have started := Course.run_quiet (s := s) (a := .send (.app app Catalog.jobStarted)) trivial ()
    (fun _ => (runSteps locker job job.recipe.steps).bind ending) past n
  have finished := Course.run_quiet (s := s') (a := .send (.app app Catalog.jobFinished)) trivial ()
    (fun _ => last (.ok ())) past' n'
  have unmarked : Course.Step s'
      ⟨last (.ok ()), ⟨.send (.app app Catalog.jobFinished), ()⟩ :: past', n'⟩
      { s' with running := s'.running.unmark f.key }
      ⟨.done (.ok ()), ⟨.unmark f.key, ()⟩ :: ⟨.send (.app app Catalog.jobFinished), ()⟩ :: past', n'⟩ :=
    .act (.unmark f.key)
  rw [begun]
  exact started.trans ((steps ending).trans (finished.trans unmarked.run))

end Execution

/-! ### Runs of steps -/

namespace StepRun

theorem ensureImage_gives (image registryAuth : String) :
    (ensureImage image registryAuth).Gives (.ok ()) :=
  .act trivial (.ok true) (.done _)

theorem openOutput_gives (job : Job) (step : Galley.Step) (layout : Layout) (image hash : String) :
    ∃ o, (openOutput job step layout image hash).Gives (.ok o) :=
  ⟨_, .act trivial (.ok ()) (.act trivial (.ok ⟨"", 0, ""⟩) (.done _))⟩

/-- A container may end at once and well. -/
theorem runContainer_gives (job : Job) (step : Galley.Step) (layout : Layout) (image : String)
    (timeout : Duration) (o : Output) :
    ∃ outcome, (runContainer job step layout image timeout o).Gives (.ok outcome) := by
  have drained (s : Supervision) : (drain s 0 0 true o []).Gives (.ok 0, o) :=
    .act trivial true (.done _)
  have followed (s : Supervision) : (follow s true o []).Gives (.ok 0, o) :=
    .act trivial (some (.exited (.ok 0))) (.act trivial (0 : Nat) (drained s))
  have supervised (id : String) : (supervise step.step (Route.ofJob job) id timeout o).Gives (.ok 0, o) :=
    .act trivial (.ok ⟨[], true⟩) (.act trivial (0 : Nat) (.act trivial (⟨id, 0⟩ : Watch) (followed _)))
  exact ⟨_, .act trivial (.ok "") ((supervised "").bind (.act trivial o (.act trivial (.ok ()) (.done _))))⟩

theorem launch_gives (job : Job) (step : Galley.Step) (layout : Layout) (timeout : Duration) :
    ∃ outcome, (launch job step layout timeout).Gives (.ok outcome) := by
  obtain ⟨o, opened⟩ := openOutput_gives job step layout step.image.trimBlanks (Image.shortId "")
  obtain ⟨outcome, ran⟩ := runContainer_gives job step layout step.image.trimBlanks timeout o
  exact ⟨outcome, (ensureImage_gives _ _).andThen (.act trivial (.ok "") (opened.andThen ran))⟩

end StepRun

/-- The run of a step may succeed. -/
theorem Job.runStep_gives (locker : Locker) {job : Job} {step : Galley.Step} {timeout : Duration}
    (ht : job.stepTimeout step = .ok timeout) {layout : Layout}
    (hl : locker.layout job = .ok layout) :
    ∃ outcome, (job.runStep locker step).Gives (.ok outcome) := by
  obtain ⟨outcome, launched⟩ := StepRun.launch_gives job step layout timeout
  refine ⟨outcome, ?_⟩
  unfold Job.runStep
  rw [ht, hl]
  exact .act trivial (.ok ()) (.act trivial (.ok 0) launched)

namespace Execution

variable {locker : Locker} {s : Shared} {f : Filed} {x : StepJob} {key : String}

/-- The end of the execution of a filed step that has taken the key of its recipe. -/
def finish (f : Filed) (key : String) (r : Except StepError StepOutcome) :
    Process (Except ExecutionError Unit) :=
  .act (.unmark key) fun _ => .act (.unmark f.key) fun _ =>
    .done ((r.mapError .step).map fun _ => ())

def guarded (locker : Locker) (f : Filed) (x : StepJob) (key : String) :
    Process (Except ExecutionError Unit) :=
  ((atStep x.job x.step).runStep locker x.step).bind (finish f key)

theorem execute_eq (locker : Locker) (task : f.task = .step x) (hkey : x.job.key .now = .ok key) :
    f.execute locker = .act (.tryAcquire key) fun taken =>
      if taken then guarded locker f x key
      else .act (.unmark f.key) fun _ => .done (.error .nowRunning) := by
  unfold Filed.execute
  rw [task]
  change (runFiledStep locker x).bind _ = _
  unfold runFiledStep
  rw [hkey]
  refine congrArg (Process.act (.tryAcquire key)) (funext fun taken => ?_)
  cases taken with
  | false => rfl
  | true =>
    change Process.bind (((atStep x.job x.step).runStep locker x.step).bind _) _ = _
    rw [Process.bind_assoc]
    refine congrArg (Process.bind _) (funext fun r => ?_)
    cases r <;> rfl

theorem run_taken (task : f.task = .step x) (hkey : x.job.key .now = .ok key)
    (free : s.running.isRunning key = false) (past : List Event) (n : Nat) :
    Course.Run s ⟨f.execute locker, past, n⟩ { s with running := s.running.mark key }
      ⟨guarded locker f x key, ⟨.tryAcquire key, true⟩ :: past, n⟩ := by
  have took : s.running.tryAcquire key = (true, s.running.mark key) := if_neg (by simp [free])
  have answered := Shared.Answers.tryAcquire (s := s) key
  rw [took] at answered
  rw [execute_eq locker task hkey]
  exact (Course.Step.act answered).run

/-- The run of a step that guards its recipe may succeed. -/
theorem exists_finished (locker : Locker) (f : Filed) (key : String) {timeout : Duration}
    (ht : (atStep x.job x.step).stepTimeout x.step = .ok timeout) {layout : Layout}
    (hl : locker.layout (atStep x.job x.step) = .ok layout) (s : Shared) (past : List Event)
    (n : Nat) : ∃ past', Course.Run s ⟨guarded locker f x key, past, n⟩
      { s with running := (s.running.unmark key).unmark f.key } ⟨.done (.ok ()), past', n⟩ := by
  obtain ⟨outcome, gives⟩ := Job.runStep_gives locker ht hl
  obtain ⟨past', -, ran⟩ := gives.run (finish f key) s past n
  have first : Course.Step s ⟨finish f key (.ok outcome), past', n⟩
      { s with running := s.running.unmark key }
      ⟨.act (.unmark f.key) fun _ => .done (.ok ()), ⟨.unmark key, ()⟩ :: past', n⟩ :=
    .act (.unmark key)
  have second : Course.Step { s with running := s.running.unmark key }
      ⟨.act (.unmark f.key) fun _ => .done (.ok () : Except ExecutionError Unit),
        ⟨.unmark key, ()⟩ :: past', n⟩
      { s with running := (s.running.unmark key).unmark f.key }
      ⟨.done (.ok ()), ⟨.unmark f.key, ()⟩ :: ⟨.unmark key, ()⟩ :: past', n⟩ := .act (.unmark f.key)
  exact ⟨_, (ran.trans first.run).trans second.run⟩

/-- A filed step whose recipe is running is refused. -/
theorem run_refused (task : f.task = .step x) (hkey : x.job.key .now = .ok key)
    (held : s.running.isRunning key = true) (past : List Event) (n : Nat) :
    Course.Run s ⟨f.execute locker, past, n⟩ { s with running := s.running.unmark f.key }
      ⟨.done (.error .nowRunning), ⟨.unmark f.key, ()⟩ :: ⟨.tryAcquire key, false⟩ :: past, n⟩ := by
  have same : s.running.tryAcquire key = (false, s.running) := if_pos held
  have answered := Shared.Answers.tryAcquire (s := s) key
  rw [same] at answered
  rw [execute_eq locker task hkey]
  exact (Course.Step.act answered).run.trans (Course.Step.act (.unmark f.key)).run

end Execution

end Galley
