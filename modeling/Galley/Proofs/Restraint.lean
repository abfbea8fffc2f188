import Galley.Proofs.Schedules
/-!
# Restraint

What calls file is no more than what they may: a submission pops nothing and files nothing but its
own job, and a look at a queue files nothing but what it has popped. Main statements: this is so at
every point of these calls, and there a submission that has evicted can still file its job, and a
look that has popped can still put back the task.
-/
namespace Galley

open Process

/-! ### What was popped -/

/-- The keys of the tasks that were popped by the end of an action. -/
def Action.popped (keys : List String) : (a : Action) → a.Answer → List String
  | .pop _, .ok f => f.key :: keys
  | _, _ => keys

def poppedAfter : List Event → List String
  | [] => []
  | e :: past => e.action.popped (poppedAfter past) e.answer

theorem Action.popped_of_isQuiet (keys : List String) {a : Action} (h : a.IsQuiet)
    (r : a.Answer) : a.popped keys r = keys := by
  cases a <;> first | rfl | exact absurd h id

namespace Process

variable {α β : Type}

def isDone : Process α → Bool
  | .done _ => true
  | .act _ _ => false

/-- Whether something is so at every point of a process, given the keys of what was popped. -/
def Throughout (P : List String → Process α → Prop) (keys : List String) : Process α → Prop
  | .done a => P keys (.done a)
  | .act a next => P keys (.act a next) ∧ ∀ r, (next r).Throughout P (a.popped keys r)

theorem Throughout.here {P : List String → Process α → Prop} {keys : List String} {p : Process α}
    (h : p.Throughout P keys) : P keys p := by
  cases p with
  | done a => exact h
  | act a next => exact h.1

/-- What is so at quiet points is so throughout a quiet process that is put in front. -/
theorem Quiet.throughout {P : List String → Process β → Prop} {keys : List String} {p : Process α}
    {f : α → Process β} (h : p.Quiet)
    (quiet : ∀ (a : Action) (next : a.Answer → Process β), a.IsQuiet → P keys (.act a next))
    (behind : ∀ a, (f a).Throughout P keys) : (p.bind f).Throughout P keys := by
  induction p with
  | done a => exact behind a
  | act a next ih =>
    refine ⟨quiet a _ h.1, ?_⟩
    intro r
    rw [Action.popped_of_isQuiet keys h.1]
    exact ih r (h.2 r)

end Process

theorem Course.Step.throughout {α : Type} {P : List String → Process α → Prop} {s s' : Shared}
    {p p' : Course α} (h : p.Step s s' p') (hp : p.process.Throughout P (poppedAfter p.past)) :
    p'.process.Throughout P (poppedAfter p'.past) := by
  cases h with
  | act _ => exact hp.2 _
  | removed _ => exact hp
  | swept _ => exact hp.2 _

/-! ### Restraint -/

/-- Whether an action files nothing but a task for a run at once or one that was popped. -/
def Action.IsRestrained (keys : List String) : Action → Prop
  | .push q _ => q = .now
  | .refile _ f => f.key ∈ keys
  | _ => True

theorem Action.isRestrained_of_isQuiet (keys : List String) {a : Action} (h : a.IsQuiet) :
    a.IsRestrained keys := by
  cases a <;> trivial

def Process.IsRestrained {α : Type} (keys : List String) : Process α → Prop
  | .done _ => True
  | .act a _ => a.IsRestrained keys

/-! ### Submissions -/

/-- Whether a submission that is at an eviction can file its job afterwards. -/
def Process.FilesAfterEviction : Process (Except SubmitError String) → Prop
  | .act (.evict _ _) next => ∀ n, ∃ key, CanFile key (next (.ok n))
  | _ => True

namespace Submission

/-- What is so throughout a submission. -/
structure Replaces (keys : List String) (p : Process (Except SubmitError String)) : Prop where
  nothing : keys = []
  restrained : p.IsRestrained keys
  files : p.FilesAfterEviction

theorem replaces_done (r : Except SubmitError String) : Replaces [] (.done r) :=
  ⟨rfl, trivial, trivial⟩

theorem replaces_quiet (a : Action) (next : a.Answer → Process (Except SubmitError String))
    (h : a.IsQuiet) : Replaces [] (.act a next) := by
  refine ⟨rfl, Action.isRestrained_of_isQuiet _ h, ?_⟩
  cases a <;> trivial

theorem evictAll_throughout {job : Job} {key : String} (queues : List QueueName)
    (keys : ∀ q, ∃ k, job.key q = .ok k)
    {f : Except SubmitError Unit → Process (Except SubmitError String)}
    (files : CanFile key (f (.ok ()))) (behind : ∀ r, (f r).Throughout Replaces []) :
    ((evictAll job queues).bind f).Throughout Replaces [] := by
  induction queues with
  | nil => exact behind (.ok ())
  | cons q rest ih =>
    obtain ⟨k, hk⟩ := keys q
    rw [evictAll_cons hk]
    refine ⟨⟨rfl, trivial, fun n => ⟨key, canFile_evictAll rest keys files⟩⟩, ?_⟩
    intro r
    cases r with
    | error e => exact behind (.error (.queue e))
    | ok n => exact ih

theorem settle_throughout (key : String) (r : Except SubmitError Int) :
    (settle key r).Throughout Replaces [] := by
  cases r with
  | ok t => exact replaces_done _
  | error e => exact ⟨⟨rfl, trivial, trivial⟩, fun _ => replaces_done _⟩

theorem file_throughout (job : Job) (key : String) :
    ((file job key).bind (settle key)).Throughout Replaces [] := by
  refine ⟨replaces_quiet _ _ trivial, ?_⟩
  intro now
  refine ⟨⟨rfl, rfl, trivial⟩, ?_⟩
  intro r
  cases r with
  | ok t => exact settle_throughout key (.ok t)
  | error e => exact settle_throughout key (.error (.queue e))

theorem filing_throughout (locker : Locker) {job : Job} {key : String} (range : job.InRange)
    (valid : job.validateSubmission = .ok ()) (hkey : job.key .now = .ok key) :
    (filing locker job key).Throughout Replaces [] := by
  obtain ⟨layout, hl⟩ := exists_layout locker hkey
  have files := canFile_replaced layout range valid hkey
  rw [filing_eq hl]
  refine evictAll_throughout _ (fun q => Job.exists_key hkey q) files ?_
  intro r
  cases r with
  | error e => exact settle_throughout key (.error e)
  | ok _ =>
    exact (removeContainers_quiet layout job _).throughout replaces_quiet fun _ =>
      file_throughout job key

theorem accept_throughout (locker : Locker) {job : Job} {key : String} (range : job.InRange)
    (valid : job.validateSubmission = .ok ()) (hkey : job.key .now = .ok key) :
    (accept locker job key).Throughout Replaces [] := by
  rw [accept_eq]
  refine ⟨⟨rfl, trivial, trivial⟩, ?_⟩
  intro taken
  cases taken with
  | false => exact replaces_done _
  | true => exact filing_throughout locker range valid hkey

/-- What is so at quiet points is so throughout a check that may fail. -/
theorem check_throughout {check : Process (Except SubmitError Unit)} (h : check.Quiet)
    {f : Unit → Process (Except SubmitError String)} (behind : (f ()).Throughout Replaces []) :
    (check.andThen id f).Throughout Replaces [] := by
  refine h.throughout replaces_quiet ?_
  intro r
  cases r with
  | error e => exact replaces_done _
  | ok _ => exact behind

end Submission

theorem Job.submit_throughout (locker : Locker) {job : Job} (range : job.InRange) :
    (job.submit locker).Throughout Submission.Replaces [] := by
  unfold Job.submit
  split
  · exact Submission.replaces_done _
  · next valid =>
    split
    · exact Submission.replaces_done _
    · next key hkey =>
      refine Submission.check_throughout Submission.ping_quiet ?_
      refine Submission.check_throughout (Submission.checkImages_quiet job) ?_
      exact Submission.accept_throughout locker range valid hkey

/-! ### Looks at a queue -/

/-- Whether a process can be brought to put back a task under a key. -/
inductive CanRefile {α : Type} (key : String) : Process α → Prop
  | quiet {a : Action} {next : a.Answer → Process α} (h : a.IsQuiet) (r : a.Answer)
      (rest : CanRefile key (next r)) : CanRefile key (.act a next)
  | unmark {k : String} {next : Unit → Process α} (rest : CanRefile key (next ())) :
      CanRefile key (.act (.unmark k) next)
  | refile {q : QueueName} {f : Filed} {next : Except QueueError Int → Process α}
      (own : f.key = key) : CanRefile key (.act (.refile q f) next)

namespace Dispatch

/-- What is so throughout a look at a queue. -/
structure Returns (keys : List String) (p : Process (Option Filed)) : Prop where
  restrained : p.IsRestrained keys
  returns : ∀ key ∈ keys, p.isDone = true ∨ CanRefile key p

theorem returns_done (keys : List String) (r : Option Filed) : Returns keys (.done r) :=
  ⟨trivial, fun _ _ => .inl rfl⟩

theorem returns_act {key : String} {a : Action} {next : a.Answer → Process (Option Filed)}
    (restrained : a.IsRestrained [key]) (h : CanRefile key (.act a next)) :
    Returns [key] (.act a next) := by
  refine ⟨restrained, ?_⟩
  intro key' mem
  obtain rfl := List.mem_singleton.mp mem
  exact .inr h

theorem canRefile_putBack (q : QueueName) (f : Filed) (r : Option Filed) :
    CanRefile f.key ((putBack q f).bind fun _ => .done r) := by
  unfold putBack
  split
  · exact .unmark (.refile rfl)
  · exact .refile rfl

theorem putBack_throughout (q : QueueName) (f : Filed) (r : Option Filed) :
    ((putBack q f).bind fun _ => .done r).Throughout Returns [f.key] := by
  have own : f.key ∈ [f.key] := List.mem_singleton_self _
  unfold putBack
  split
  · refine ⟨returns_act trivial (.unmark (.refile rfl)), ?_⟩
    intro _
    exact ⟨returns_act own (.refile rfl), fun _ => returns_done _ r⟩
  · exact ⟨returns_act own (.refile rfl), fun _ => returns_done _ r⟩

theorem recur_throughout (q : QueueName) (f : Filed) (now : Int) (r : Option Filed) :
    ((recur q f now).bind fun _ => .done r).Throughout Returns [f.key] := by
  unfold recur
  split
  · exact returns_done _ r
  · refine ⟨returns_act (List.mem_singleton_self _) (.refile rfl), ?_⟩
    intro _
    exact returns_done _ r

/-- A look that has popped a task can find that it was too early. -/
theorem canRefile_afterPop (q : QueueName) (f : Filed) : CanRefile f.key (afterPop q f) := by
  have early : f.nextRun - 1 < f.nextRun := by omega
  refine .quiet trivial (f.nextRun - 1 : Int) ?_
  rw [if_pos early]
  exact canRefile_putBack q f none

theorem popDue_throughout (q : QueueName) : (popDue q).Throughout Returns [] := by
  rw [popDue_eq]
  refine ⟨⟨trivial, fun _ h => nomatch h⟩, ?_⟩
  intro r
  cases r with
  | error e => exact returns_done _ none
  | ok f =>
    refine ⟨returns_act trivial (canRefile_afterPop q f), ?_⟩
    intro now
    change Throughout Returns [f.key] (ite _ _ _)
    split
    · exact putBack_throughout q f none
    · exact recur_throughout q f now (some f)

end Dispatch

end Galley
