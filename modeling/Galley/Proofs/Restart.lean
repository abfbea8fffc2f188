import Galley.Proofs.Exclusion
import Galley.Proofs.Queue.Recovery
import Mathlib.Tactic.TFAE
/-!
# Exclusion after a restart

A restart gives back the tasks that were filed and none of the marks. A task that is still filed for
a run at once then lies under a key that nobody is known to hold: a submission takes the key, the
task is popped all the same, and both are run. Main statement: this is the only way in which two
executions under one key come about.
-/
namespace Galley

namespace Call

def isExecution : Call → Bool
  | .execute _ _ => true
  | _ => false

end Call

namespace System

def executing (sys : System) (key : String) : Nat :=
  sys.holding Call.isExecution key

/-- What calls find after a restart: queues that were looked through, and no marks. -/
def restarted (left : QueueName → Entries) : System where
  shared := ⟨.empty, fun q => .directory (QueueDirectory.recover q (left q)).2⟩
  threads := []

/-! ### Restarted queues -/

section Restarted

variable {left : QueueName → Entries}

theorem restarted_sound (tidy : ∀ q, QueueDirectory.Tidy q (left q)) :
    (restarted left).Sound where
  shared q := by
    obtain ⟨report, es, hr, sound, -⟩ := (tidy q).recover
    change QueueDirectory.Tidy q (QueueDirectory.recover q (left q)).2
    rw [hr]
    exact sound
  threads _ h := nomatch h

theorem mem_tasks_restarted (tidy : ∀ q, QueueDirectory.Tidy q (left q)) {q : QueueName}
    {f : Filed} : f ∈ (restarted left).shared.tasks q ↔
      f ∈ QueueDirectory.tasks q (left q) ∧ f.trigger.isExpired = false := by
  obtain ⟨report, es, hr, -, kept⟩ := (tidy q).recover
  change f ∈ QueueDirectory.tasks q (QueueDirectory.recover q (left q)).2 ↔ _
  rw [hr]
  exact kept f

/-- Where no task is left under a key, the key is balanced: it is not marked either. -/
theorem restarted_balanced (tidy : ∀ q, QueueDirectory.Tidy q (left q)) {key : String}
    (spent : ∀ f ∈ QueueDirectory.tasks .now (left .now), f.key = key →
      f.trigger.isExpired = true) : (restarted left).Balanced key := by
  have none : (restarted left).shared.pending key = 0 := by
    rw [Shared.pending, List.countP_eq_zero]
    intro f hf
    obtain ⟨mem, fresh⟩ := (mem_tasks_restarted tidy).mp hf
    simp only [decide_eq_true_eq]
    intro own
    exact Bool.noConfusion ((spent f mem own).symm.trans fresh)
  exact (Nat.zero_add _).trans none

end Restarted

/-! ### Executions among owners -/

theorem executing_le (sys : System) (key : String) :
    sys.executing key ≤ sys.popped key + sys.guarding key := by
  obtain ⟨s, threads⟩ := sys
  unfold executing popped guarding holding
  induction threads with
  | nil => exact Nat.le_refl _
  | cons t threads ih =>
    simp only [List.countP_cons] at ih ⊢
    have kinds : (if (t.call.isExecution && t.holds key) = true then 1 else 0) ≤
        (if (t.call.handlesPopped && t.holds key) = true then 1 else 0) +
        (if (t.call.runsFiledStep && t.holds key) = true then 1 else 0) := by
      generalize t.holds key = held
      obtain ⟨call, course⟩ := t
      match call with
      | .submit _ => simp [Call.isExecution]
      | .dispatch _ => simp [Call.isExecution]
      | .execute .now _ => simp [Call.isExecution, Call.handlesPopped, Call.runsFiledStep]
      | .execute .delayed _ => simp [Call.isExecution, Call.handlesPopped, Call.runsFiledStep]
      | .execute .recurring _ => simp [Call.isExecution, Call.handlesPopped, Call.runsFiledStep]
    omega

theorem executing_append (s : Shared) (ts us : List Thread) (key : String) :
    executing ⟨s, ts ++ us⟩ key = executing ⟨s, ts⟩ key + executing ⟨s, us⟩ key :=
  List.countP_append

/-- An execution that has just begun is not over: the key of its task is to be unmarked. -/
theorem isOver_execute (locker : Locker) (q : QueueName) (f : Filed) (past : List Event) (n : Nat) :
    Thread.isOver ⟨.execute q f, f.execute locker, past, n⟩ = false := by
  unfold Filed.execute
  cases Execution.runTask locker f.task <;> rfl

/-- An execution that has just begun and holds a key counts under it. -/
theorem executing_pos (s : Shared) (locker : Locker) {q : QueueName} {f : Filed} {past : List Event}
    {n : Nat} {threads : List Thread} {key : String} (held : key ∈ heldAfter past) :
    0 < executing ⟨s, ⟨.execute q f, f.execute locker, past, n⟩ :: threads⟩ key := by
  refine List.countP_pos_iff.mpr ⟨_, List.mem_cons_self, ?_⟩
  simp [Call.isExecution, Thread.holds, isOver_execute, Thread.held, held]

/-! ### Two executions under one key -/

variable (locker : Locker)

/-- A task that lies in the queue for runs at once can be brought to run, with the queue emptied. -/
theorem exists_executed {s : Shared} (hs : s.Sound) {f : Filed} (hf : f ∈ s.tasks .now)
    (threads : List Thread) :
    ∃ s' more, Reaches locker Call.InRange ⟨s, threads⟩ ⟨s', threads ++ more⟩ ∧ s'.Sound ∧
      s'.tasks .now = [] ∧ 0 < executing ⟨s', more⟩ f.key := by
  obtain ⟨s', fs, drained, hs', empty, perm, -⟩ := exists_drained locker hs
    (show Call.InRange (.dispatch .now) from trivial) threads
  obtain ⟨before, behind, rfl⟩ := List.append_of_mem (perm.mem_iff.mpr hf)
  rw [List.map_append, List.map_cons, ← List.append_assoc] at drained
  obtain ⟨past, held, handed⟩ := reaches_handedOut locker s' (hs.proper hf)
    (show Call.InRange (.execute .now f) from trivial) (threads ++ before.map (.popped .now))
    (behind.map (.popped .now))
  have run := drained.trans handed
  rw [List.append_assoc] at run
  refine ⟨s', _, run, hs', empty, ?_⟩
  rw [executing_append]
  have mine : 0 < executing ⟨s', ⟨.execute .now f, f.execute locker, past, 0⟩ ::
      behind.map (.popped .now)⟩ f.key := by
    refine executing_pos s' locker ?_
    rw [held]
    exact List.mem_singleton_self _
  omega

/-- A submission of a valid job can be brought to take its key where that is free. -/
theorem reaches_taken {s : Shared} {job : Job} {key : String} (range : job.InRange)
    (valid : job.validateSubmission = .ok ()) (hkey : job.key .now = .ok key)
    (free : s.running.isRunning key = false) :
    ∃ past, Reaches locker Call.InRange ⟨s, []⟩ ⟨{ s with running := s.running.mark key },
      [⟨.submit job, Submission.filing locker job key, past, 0⟩]⟩ := by
  obtain ⟨past, -, taken⟩ := Submission.exists_taken locker valid hkey free
  have begun : Step locker Call.InRange ⟨s, []⟩ ⟨s, [.begin locker (.submit job)]⟩ := .submit range
  exact ⟨past, (Relation.ReflTransGen.single begun).trans (reaches_of_run _ [] [] taken)⟩

/-- Where a task lies under a key that is not marked, its job can be submitted again, and both the
old task and the new one can be brought to run. -/
theorem exists_two_executions {s : Shared} (hs : s.Sound) {f : Filed} (hf : f ∈ s.tasks .now)
    (free : s.running.isRunning f.key = false) :
    ∃ sys, Reaches locker Call.InRange ⟨s, []⟩ sys ∧ 2 ≤ sys.executing f.key := by
  have proper := hs.proper hf
  obtain ⟨job, hjob⟩ := proper.exists_recipe
  obtain ⟨range, valid, hkey⟩ : job.InRange ∧ job.validateSubmission = .ok () ∧
      job.key .now = .ok f.key := by
    have := And.intro proper.inRange.task (And.intro proper.submitted proper.key)
    rwa [hjob] at this
  -- the submission takes the key before the old task is popped
  obtain ⟨past, taken⟩ := reaches_taken locker range valid hkey free
  have marked : Shared.Sound { s with running := s.running.mark f.key } := hs
  obtain ⟨s₁, more, first, hs₁, empty, old⟩ := exists_executed locker marked hf
    [⟨.submit job, Submission.filing locker job f.key, past, 0⟩]
  obtain ⟨s₂, g, past', n, filed, hs₂, one, hg, -⟩ :=
    (Submission.canFile_filing locker range valid hkey).run hs₁ empty past 0
  have settled : Reaches locker Call.InRange
      ⟨s₁, [⟨.submit job, Submission.filing locker job f.key, past, 0⟩] ++ more⟩
      ⟨s₂, ⟨.submit job, .done (.ok f.key), past', n⟩ :: more⟩ :=
    reaches_of_run (.submit job) [] more filed
  obtain ⟨s₃, more', second, -, -, new⟩ := exists_executed locker hs₂
    (one ▸ List.mem_singleton_self g)
    (⟨.submit job, .done (.ok f.key), past', n⟩ :: more)
  refine ⟨_, ((taken.trans first).trans settled).trans second, ?_⟩
  rw [executing_append, ← List.singleton_append, executing_append]
  rw [hg] at new
  have same : executing ⟨s₃, more⟩ f.key = executing ⟨s₁, more⟩ f.key := rfl
  omega

end System

/-! ### When exclusion survives a restart -/

/-- After a restart, a key for runs at once has one execution at most, whatever is submitted, popped
and run, exactly when no task that has not expired was left under it in the queue for runs at once.
That is so whether tasks that were popped and are not running yet count or not. -/
theorem restarted_exclusive_tfae (locker : Locker) {left : QueueName → Entries}
    (tidy : ∀ q, QueueDirectory.Tidy q (left q)) {job : Job} {key : String}
    (hkey : job.key .now = .ok key) :
    [∀ sys, System.Reaches locker Call.InRange (.restarted left) sys →
        sys.popped key + sys.guarding key ≤ 1,
      ∀ sys, System.Reaches locker Call.InRange (.restarted left) sys → sys.executing key ≤ 1,
      ∀ f ∈ QueueDirectory.tasks .now (left .now), f.key = key →
        f.trigger.isExpired = true].TFAE := by
  have sound := System.restarted_sound tidy
  tfae_have 1 → 2 := fun h sys reached => (sys.executing_le key).trans (h sys reached)
  tfae_have 2 → 3 := fun h f hf own => by
    by_contra expired
    have kept := (System.mem_tasks_restarted tidy).mpr ⟨hf, by simpa using expired⟩
    obtain ⟨sys, reached, two⟩ := System.exists_two_executions locker sound.shared kept
      (Running.isRunning_empty _)
    have one := h sys reached
    rw [own] at two
    omega
  tfae_have 3 → 1 := fun spent sys reached => by
    have balanced := System.restarted_balanced tidy spent
    have typed (call : Call) (h : call.InRange) : call.InRange := h
    have owners := (reached.balanced typed sound ⟨job, hkey⟩ balanced).owners_eq
      (reached.sound typed sound)
    have bound := sys.shared.running.marks_le key
    unfold System.owners at owners
    omega
  tfae_finish

/-- The task of a submission that was filed before the restart. -/
def leftover : Filed :=
  Submission.filed pancakes "[app][individual][userid:42][page:1][uuid:u-1][queue:now]" 0

def leftoverOnly : QueueName → Entries
  | .now => [(QueueDirectory.nameOf leftover.nextRun, .file (Record.bytes leftover))]
  | _ => []

theorem leftover_key : pancakes.key .now = .ok leftover.key := Job.pancakes_key .now

theorem leftover_proper : leftover.Proper .now :=
  Submission.filed_proper Job.pancakes_inRange Job.pancakes_valid leftover_key 0

theorem leftoverOnly_tidy (q : QueueName) : QueueDirectory.Tidy q (leftoverOnly q) := by
  cases q with
  | now =>
    refine ⟨List.pairwise_singleton _ _, fun e he => ?_⟩
    obtain rfl := List.mem_singleton.mp he
    exact ⟨leftover, leftover_proper, rfl⟩
  | delayed => exact QueueDirectory.tidy_nil _
  | recurring => exact QueueDirectory.tidy_nil _

theorem leftover_mem : leftover.capped ∈ QueueDirectory.tasks .now (leftoverOnly .now) :=
  QueueDirectory.mem_tasks_of_record leftover_proper List.mem_cons_self

/-- One task that was left is enough for two executions under its key. -/
theorem exists_overlap_after_restart : (∀ q, QueueDirectory.Tidy q (leftoverOnly q)) ∧
    pancakes.key .now = .ok leftover.key ∧
    ∃ sys, System.Reaches ⟨"/", none⟩ Call.InRange (.restarted leftoverOnly) sys ∧
      2 ≤ sys.executing leftover.key :=
  ⟨leftoverOnly_tidy, leftover_key, System.exists_two_executions ⟨"/", none⟩
    (System.restarted_sound leftoverOnly_tidy).shared
    ((System.mem_tasks_restarted leftoverOnly_tidy).mpr ⟨leftover_mem, rfl⟩)
    (Running.isRunning_empty _)⟩

/-- The task that was left has not expired, so that exclusion is lost. -/
theorem restarted_exclusive_tfae_leftover : (∀ q, QueueDirectory.Tidy q (leftoverOnly q)) ∧
    pancakes.key .now = .ok leftover.key ∧
    ¬ ∀ sys, System.Reaches ⟨"/", none⟩ Call.InRange (.restarted leftoverOnly) sys →
      sys.executing leftover.key ≤ 1 := by
  refine ⟨leftoverOnly_tidy, leftover_key, fun exclusive => ?_⟩
  have tfae := restarted_exclusive_tfae ⟨"/", none⟩ leftoverOnly_tidy leftover_key
  have spent := (tfae.out 1 2).mp exclusive
  exact nomatch spent _ leftover_mem rfl

end Galley
