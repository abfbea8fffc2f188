import Galley.Proofs.Exclusion
import Galley.Proofs.Restraint
import Galley.Status
/-!
# Marks of steps that run later

A task that is popped from a queue for later runs carries its key until the key is unmarked: by the
look that puts the task back, or by its execution at the very end. Several tasks can carry one key,
but it is marked only once. Main statement: the key stays marked while it is carried, and is reported
as running, exactly when it is never carried twice.
-/
namespace Galley

open Process

/-! ### What is carried -/

/-- The keys of the tasks that were popped from the queues for later runs and not unmarked since. -/
def Action.carried (keys : List String) : (a : Action) → a.Answer → List String
  | .pop q, .ok f => if q = .now then keys else f.key :: keys
  | .unmark key, _ => keys.erase key
  | _, _ => keys

def carriedAfter : List Event → List String
  | [] => []
  | e :: past => e.action.carried (carriedAfter past) e.answer

def Thread.carried (t : Thread) : List String := carriedAfter t.course.past

/-- How often a key is carried. -/
def carriers (threads : List Thread) (key : String) : Nat :=
  (threads.flatMap (·.carried)).count key

theorem carriers_split (before behind : List Thread) (t : Thread) (key : String) :
    carriers (before ++ t :: behind) key = carriers (before ++ behind) key + t.carried.count key := by
  unfold carriers
  simp only [List.flatMap_append, List.flatMap_cons, List.count_append]
  omega

/-- A call that is begun carries nothing. -/
theorem carriers_begin (locker : Locker) (threads : List Thread) (call : Call) (key : String) :
    carriers (threads ++ [.begin locker call]) key = carriers threads key := by
  rw [carriers_split, List.append_nil]
  rfl

theorem carriers_pos {threads : List Thread} {key : String} :
    0 < carriers threads key ↔ ∃ t ∈ threads, key ∈ t.carried := by
  unfold carriers
  rw [List.count_pos_iff, List.mem_flatMap]

theorem Action.carried_of_isQuiet (keys : List String) {a : Action} (h : a.IsQuiet) (r : a.Answer) :
    a.carried keys r = keys := by
  cases a <;> first | rfl | exact absurd h id

/-! ### Carriage -/

/-- The keys that a call carries until it is over. -/
def Call.owned : Call → List String
  | .execute .now _ => []
  | .execute _ f => [f.key]
  | _ => []

theorem Call.owned_execute {q : QueueName} (hq : q ≠ .now) (f : Filed) :
    (execute q f).owned = [f.key] := by
  cases q with
  | now => exact absurd rfl hq
  | delayed => rfl
  | recurring => rfl

/-- Whether an action pops nothing and marks and unmarks no key but those for runs at once. -/
def Action.Spares : Action → Prop
  | .pop _ => False
  | .unmark key => IsNowKey key
  | .tryAcquire key => IsNowKey key
  | _ => True

/-- What a call may do by what it carries. It is promised that queues hand out proper tasks. -/
def carriage (owned : List String) : Discipline (List String) where
  allows keys a := (∀ key ∈ owned, key ∈ keys) ∧ match a with
    | .unmark key => IsNowKey key ∨ key ∈ keys
    | .tryAcquire key => IsNowKey key
    | _ => True
  promises
    | .pop q, .ok f => f.Proper q
    | _, _ => True
  after keys a r := a.carried keys r

theorem owned_nil {keys : List String} : ∀ key ∈ ([] : List String), key ∈ keys :=
  fun _ h => absurd h List.not_mem_nil

/-- What a look at a queue carries when it is over. -/
def Dispatch.Leaves (q : QueueName) (keys : List String) : Option Filed → Prop
  | none => keys = []
  | some f => f.Proper q ∧ keys = (Call.execute q f).owned

/-- What a call carries when it is over. -/
def Call.leaves : (call : Call) → List String → call.Result → Prop
  | .submit _ => fun keys _ => keys = []
  | .dispatch q => Dispatch.Leaves q
  | .execute _ _ => fun keys _ => keys = []

theorem Action.spares_of_isQuiet (a : Action) (h : a.IsQuiet) : a.Spares := by
  cases a <;> trivial

/-- What spares the keys of later runs carries in the end what it carried before. -/
theorem Process.Only.carriage {α : Type} {p : Process α} (h : p.Only Action.Spares)
    {owned keys : List String} (own : ∀ key ∈ owned, key ∈ keys)
    (later : ∀ key ∈ keys, ¬ IsNowKey key) :
    p.Follows (Galley.carriage owned) (fun keys' _ => keys' = keys) keys := by
  refine h.follows fun a ha => ?_
  cases a with
  | pop q => exact absurd ha id
  | unmark key =>
    refine ⟨⟨own, .inl ha⟩, fun _ => ?_⟩
    exact List.erase_of_not_mem fun mem => later key mem ha
  | tryAcquire key => exact ⟨⟨own, ha⟩, fun _ => rfl⟩
  | _ => exact ⟨⟨own, trivial⟩, fun _ => rfl⟩

namespace Submission

theorem evictAll_spares (job : Job) (queues : List QueueName) :
    (evictAll job queues).Only Action.Spares := by
  induction queues with
  | nil => trivial
  | cons q rest ih =>
    rw [evictAll]
    split
    · trivial
    · refine ⟨trivial, fun r => ?_⟩
      cases r with
      | error e => trivial
      | ok n => exact ih

theorem filing_spares (locker : Locker) (job : Job) {key : String} (hkey : job.key .now = .ok key) :
    (filing locker job key).Only Action.Spares := by
  have replaced : (replacePrevious locker job).Only Action.Spares := by
    refine (evictAll_spares job _).andThen fun _ => ?_
    split
    · trivial
    · exact ((removeContainers_quiet _ job _).only Action.spares_of_isQuiet).bind fun _ => trivial
  have filed : (file job key).Only Action.Spares := by
    refine ⟨trivial, fun now => ⟨trivial, fun r => ?_⟩⟩
    cases r <;> trivial
  refine (replaced.andThen fun _ => filed).bind fun r => ?_
  cases r with
  | ok t => trivial
  | error e => exact ⟨⟨job, hkey⟩, fun _ => trivial⟩

end Submission

theorem Job.submit_spares (locker : Locker) (job : Job) :
    (job.submit locker).Only Action.Spares := by
  unfold Job.submit
  split
  · trivial
  · split
    · trivial
    · next key hkey =>
      refine (Submission.ping_quiet.only Action.spares_of_isQuiet).andThen fun _ => ?_
      refine ((Submission.checkImages_quiet job).only Action.spares_of_isQuiet).andThen fun _ => ?_
      refine ⟨⟨job, hkey⟩, fun taken => ?_⟩
      cases taken with
      | false => trivial
      | true => exact Submission.filing_spares locker job hkey

namespace Execution

theorem fileStep_spares (job : Job) (step : Galley.Step) (q : QueueName) (trigger : Trigger) :
    (fileStep job step q trigger).Only Action.Spares :=
  fileStep_only trivial (fun _ _ => trivial) job step q trigger

theorem runSteps_spares (locker : Locker) (job : Job) (steps : List Galley.Step) :
    (runSteps locker job steps).Only Action.Spares := by
  induction steps generalizing job with
  | nil => trivial
  | cons step rest ih =>
    rw [runSteps]
    split
    · trivial
    · exact ((Job.runStep_quiet locker _ step).only Action.spares_of_isQuiet).andThen fun _ => ih _
    · exact (fileStep_spares _ step _ _).andThen fun _ => ih _
    · exact (fileStep_spares _ step _ _).andThen fun _ => ih _

theorem runTask_spares (locker : Locker) (task : Task) :
    (runTask locker task).Only Action.Spares := by
  cases task with
  | recipe job =>
    refine ((tellApp_quiet _ _).only Action.spares_of_isQuiet).bind fun _ => ?_
    refine (runSteps_spares locker job _).andThen fun _ => ?_
    exact ((tellApp_quiet _ _).only Action.spares_of_isQuiet).bind fun _ => trivial
  | step s =>
    change (runFiledStep locker s).Only Action.Spares
    unfold runFiledStep
    split
    · trivial
    · next key hkey =>
      refine ⟨⟨s.job, hkey⟩, fun taken => ?_⟩
      cases taken with
      | false => trivial
      | true =>
        refine ((Job.runStep_quiet locker _ _).only Action.spares_of_isQuiet).bind fun r => ?_
        exact ⟨⟨s.job, hkey⟩, fun _ => trivial⟩

end Execution

theorem Job.submit_carriage (locker : Locker) (job : Job) :
    (job.submit locker).Follows (carriage []) (fun keys _ => keys = []) [] :=
  (job.submit_spares locker).carriage (fun _ h => h) fun _ h => absurd h List.not_mem_nil

theorem Action.carried_pop_ok (keys : List String) (q : QueueName) (f : Filed) :
    (pop q).carried keys (.ok f) = if q = .now then keys else f.key :: keys := rfl

namespace Dispatch

/-- What a look has popped is what it owns, until it is put back. -/
theorem putBack_carriage {q : QueueName} {f : Filed} :
    (putBack q f).Follows (carriage []) (fun keys _ => keys = []) (Call.execute q f).owned := by
  have refile : (Process.act (.refile q f) fun _ => .done ()).Follows (carriage [])
      (fun keys _ => keys = []) [] := ⟨⟨owned_nil, trivial⟩, fun _ _ => rfl⟩
  unfold putBack
  by_cases hq : q = .now
  · subst hq
    exact refile
  · rw [if_pos hq, Call.owned_execute hq]
    refine ⟨⟨owned_nil, .inr (List.mem_singleton_self _)⟩, fun _ _ => ?_⟩
    have gone : (Action.unmark f.key).carried [f.key] () = [] := erase_own f.key
    change Process.Follows _ _ ((Action.unmark f.key).carried [f.key] ()) _
    rw [gone]
    exact refile

theorem recur_carriage (q : QueueName) (f : Filed) (now : Int) (keys : List String) :
    (recur q f now).Follows (carriage []) (fun keys' _ => keys' = keys) keys := by
  unfold recur
  split
  · rfl
  · exact ⟨⟨owned_nil, trivial⟩, fun _ _ => rfl⟩

theorem popDue_carriage (q : QueueName) :
    (popDue q).Follows (carriage []) (Leaves q) [] := by
  refine ⟨⟨owned_nil, trivial⟩, fun r proper => ?_⟩
  cases r with
  | error e => rfl
  | ok f =>
    have own : (Action.pop q).carried [] (.ok f) = (Call.execute q f).owned := by
      cases q <;> rfl
    refine ⟨⟨owned_nil, trivial⟩, fun now _ => ?_⟩
    change Process.Follows (carriage []) _ ((Action.pop q).carried [] (.ok f)) (ite _ _ _)
    rw [own]
    split
    · exact putBack_carriage.bind fun keys _ h => h
    · exact (recur_carriage q f now _).bind fun keys _ h => ⟨proper, h⟩

end Dispatch

/-- An execution carries the key of its task until it unmarks it in the end. -/
theorem Filed.execute_carriage (locker : Locker) {q : QueueName} {f : Filed} (hf : f.Proper q) :
    (f.execute locker).Follows (carriage (Call.execute q f).owned) (fun keys _ => keys = [])
      (Call.execute q f).owned := by
  have later : ∀ key ∈ (Call.execute q f).owned, ¬ IsNowKey key := by
    intro key hk
    by_cases hq : q = .now
    · subst hq
      exact absurd hk List.not_mem_nil
    · rw [Call.owned_execute hq, List.mem_singleton] at hk
      rw [hk]
      exact hf.not_isNowKey hq
  refine ((Execution.runTask_spares locker f.task).carriage (fun _ h => h) later).bind
    fun keys r h => ?_
  subst h
  by_cases hq : q = .now
  · subst hq
    exact ⟨⟨owned_nil, .inl ⟨f.task.job, hf.key⟩⟩, fun _ _ => rfl⟩
  · rw [Call.owned_execute hq]
    exact ⟨⟨fun _ h => h, .inr (List.mem_singleton_self _)⟩, fun _ _ => erase_own f.key⟩

/-! ### Releases -/

/-- Whether a process can be brought to unmark a key next of all that others notice. -/
inductive CanRelease {α : Type} (key : String) : Process α → Prop
  | quiet {a : Action} {next : a.Answer → Process α} (h : a.IsQuiet) (r : a.Answer)
      (rest : CanRelease key (next r)) : CanRelease key (.act a next)
  | unmark {next : Unit → Process α} : CanRelease key (.act (.unmark key) next)

/-- Whether a process can release the key of a task right after it has popped it. -/
def Process.Releases {α : Type} : Process α → Prop
  | .done _ => True
  | .act (.pop q) next => (∀ f : Filed, q ≠ .now → CanRelease f.key (next (.ok f))) ∧
      ∀ r, (next r).Releases
  | .act _ next => ∀ r, (next r).Releases

/-- A process that pops nothing has nothing to release. -/
theorem Process.Only.releases {α : Type} {p : Process α} (h : p.Only fun a => ∀ q, a ≠ .pop q) :
    p.Releases := by
  induction p with
  | done a => trivial
  | act a next ih =>
    cases a with
    | pop q => exact absurd rfl (h.1 q)
    | _ => exact fun r => ih r (h.2 r)

theorem Action.Spares.ne_pop {a : Action} (h : a.Spares) (q : QueueName) : a ≠ .pop q := by
  rintro rfl
  exact h

theorem Job.submit_releases (locker : Locker) (job : Job) : (job.submit locker).Releases :=
  ((job.submit_spares locker).mono fun _ h => h.ne_pop).releases

theorem Filed.execute_releases (locker : Locker) (f : Filed) : (f.execute locker).Releases := by
  refine Process.Only.releases (.bind ((Execution.runTask_spares locker f.task).mono
    fun _ h => h.ne_pop) fun r => ?_)
  exact ⟨nofun, fun _ => trivial⟩

/-- A look that has popped a task can find that it is too early. -/
theorem Dispatch.popDue_releases (q : QueueName) : (popDue q).Releases := by
  constructor
  · intro f hq
    -- the clock may have been set back since the task was filed
    refine .quiet (a := .now) trivial (f.nextRun - 1) ?_
    have early : f.nextRun - 1 < f.nextRun := by omega
    change CanRelease f.key (ite _ _ _)
    rw [if_pos early]
    unfold putBack
    rw [if_pos hq]
    exact .unmark
  · intro r
    cases r with
    | error e => trivial
    | ok f =>
      intro now
      refine Process.Only.releases ?_
      change Process.Only _ (ite _ _ _)
      split
      · exact (putBack_only (fun _ _ => Action.noConfusion)
          (fun _ _ _ => Action.noConfusion) q f).bind fun _ => trivial
      · exact (recur_only (fun _ _ _ => Action.noConfusion) q f now).bind fun _ => trivial

/-- What can be released is unmarked, and carried once less. -/
theorem CanRelease.run {α : Type} {key : String} {p : Process α} (h : CanRelease key p) (s : Shared)
    (past : List Event) (n : Nat) : ∃ p' past',
      Course.Run s ⟨p, past, n⟩ { s with running := s.running.unmark key } ⟨p', past', n⟩ ∧
      carriedAfter past' = (carriedAfter past).erase key := by
  induction h generalizing past with
  | @quiet a next quiet r _ ih =>
    obtain ⟨p', past', run, less⟩ := ih (⟨a, r⟩ :: past)
    refine ⟨p', past', (Course.run_quiet quiet r next past n).trans run, less.trans ?_⟩
    rw [carriedAfter, Action.carried_of_isQuiet _ quiet]
  | @unmark next =>
    have step : Course.Step s ⟨.act (.unmark key) next, past, n⟩
        { s with running := s.running.unmark key } ⟨next (), ⟨.unmark key, ()⟩ :: past, n⟩ :=
      .act (.unmark key)
    exact ⟨next (), ⟨.unmark key, ()⟩ :: past, step.run, rfl⟩

/-! ### Steps of one call -/

section Course

variable {α : Type} {post : List String → α → Prop} {s s' : Shared} {p p' : Course α}
  {owned : List String}

/-- A course that keeps to the carriage, given what it carries. -/
structure Course.Carries (owned : List String) (post : List String → α → Prop) (p : Course α) :
    Prop where
  follows : p.process.Follows (carriage owned) post (carriedAfter p.past)
  releases : p.process.Releases

theorem Process.Releases.next {a : Action} {next : a.Answer → Process α}
    (h : (Process.act a next).Releases) (r : a.Answer) : (next r).Releases := by
  cases a with
  | pop q => exact h.2 r
  | _ => exact h r

theorem Shared.Answers.proper {a : Action} {r : a.Answer} (h : s.Answers a r s') (hs : s.Sound)
    (keys : List String) : (carriage keys).promises a r := by
  cases h with
  | pop q =>
    rcases hs.pop q with ⟨-, hp⟩ | ⟨f, s', hp, -, -, without⟩
    · rw [hp]
      trivial
    · rw [hp]
      exact hs.proper (without.perm.mem_iff.mpr List.mem_cons_self)
  | quiet a r quiet => cases a <;> trivial
  | _ => trivial

theorem Course.Step.carries (h : p.Step s s' p') (hs : s.Sound) (hp : p.Carries owned post) :
    p'.Carries owned post := by
  cases h with
  | act answers =>
    exact ⟨hp.follows.2 _ (answers.proper hs owned), hp.releases.next _⟩
  | removed _ => exact ⟨hp.follows, hp.releases⟩
  | swept _ => exact ⟨hp.follows.2 _ trivial, hp.releases.next _⟩

/-- What a step does to what is carried under a key of a later run, and to its mark: a task is popped
that can be put back at once, or the key is released, or nothing of both. -/
theorem Course.Step.carried_cases (h : p.Step s s' p') (hs : s.Sound) (hp : p.Carries owned post)
    {key : String} (later : ¬ IsNowKey key) :
    ((carriedAfter p'.past).count key = (carriedAfter p.past).count key + 1 ∧
        s'.running.marks key = 1 ∧ CanRelease key p'.process) ∨
      ((carriedAfter p.past).count key = (carriedAfter p'.past).count key + 1 ∧
        s'.running.marks key = 0) ∨
      ((carriedAfter p'.past).count key = (carriedAfter p.past).count key ∧
        s'.running.marks key = s.running.marks key) := by
  have other {k : String} (hk : IsNowKey k) : k ≠ key := fun same => later (same ▸ hk)
  cases h with
  | @act _ a r next past n answers =>
    cases answers with
    | tryAcquire k =>
      refine .inr (.inr ⟨rfl, ?_⟩)
      unfold Running.tryAcquire
      split
      · rfl
      · exact Running.marks_mark_ne _ (other hp.follows.1.2).symm
    | unmark k =>
      change _ ∨ ((carriedAfter past).count key = ((carriedAfter past).erase k).count key + 1 ∧ _) ∨
        ((carriedAfter past).erase k).count key = (carriedAfter past).count key ∧ _
      by_cases own : k = key
      · subst own
        have held : k ∈ carriedAfter past := hp.follows.1.2.resolve_left later
        have carried := List.count_pos_iff.mpr held
        refine .inr (.inl ⟨?_, Running.marks_unmark _ _⟩)
        rw [List.count_erase_self]
        omega
      · exact .inr (.inr ⟨List.count_erase_of_ne (Ne.symm own),
          Running.marks_unmark_ne _ (Ne.symm own)⟩)
    | pop q =>
      rcases hs.pop q with ⟨-, hpop⟩ | ⟨f, s', hpop, -, running, without⟩
      · rw [hpop]
        exact .inr (.inr ⟨rfl, rfl⟩)
      · have proper := hs.proper (without.perm.mem_iff.mpr List.mem_cons_self)
        rw [hpop]
        dsimp only
        rw [carriedAfter, Action.carried_pop_ok, running]
        by_cases hq : q = .now
        · subst hq
          rw [if_pos rfl]
          exact .inr (.inr ⟨rfl, Running.marks_mark_ne _ (other ⟨_, proper.key⟩).symm⟩)
        · rw [if_neg hq]
          by_cases own : f.key = key
          · subst own
            exact .inl ⟨List.count_cons_self, Running.marks_mark _ _, hp.releases.1 f hq⟩
          · exact .inr (.inr ⟨List.count_cons_of_ne own, Running.marks_mark_ne _ (Ne.symm own)⟩)
    | push q f room => exact .inr (.inr ⟨rfl, rfl⟩)
    | refile q f room => exact .inr (.inr ⟨rfl, rfl⟩)
    | quiet a r quiet =>
      rw [carriedAfter, Action.carried_of_isQuiet _ quiet]
      exact .inr (.inr ⟨rfl, rfl⟩)
  | removed h => exact .inr (.inr ⟨rfl, by rw [(Prod.mk.inj h).2.symm]; rfl⟩)
  | swept h => exact .inr (.inr ⟨rfl, by rw [(Prod.mk.inj h).2.symm]; rfl⟩)

end Course

/-! ### Whole runs -/

/-- A thread that keeps to the carriage. -/
def Thread.Carries (t : Thread) : Prop := t.course.Carries t.call.owned t.call.leaves

/-- An execution that is not over carries what it owns. -/
theorem Thread.Carries.owned_mem {t : Thread} (h : t.Carries) (going : t.course.process.isDone = false)
    {key : String} (own : key ∈ t.call.owned) : key ∈ t.carried := by
  have follows := h.follows
  cases hp : t.course.process with
  | done a =>
    rw [hp] at going
    exact nomatch going
  | act a next =>
    rw [hp] at follows
    exact follows.1.1 key own

theorem begin_submit_carries (locker : Locker) (job : Job) :
    (Thread.begin locker (.submit job)).Carries := by
  have follows := job.submit_carriage locker
  have releases := job.submit_releases locker
  exact Course.Carries.mk follows releases

theorem begin_dispatch_carries (locker : Locker) (q : QueueName) :
    (Thread.begin locker (.dispatch q)).Carries := by
  have follows := Dispatch.popDue_carriage q
  have releases := Dispatch.popDue_releases q
  exact Course.Carries.mk follows releases

namespace System

variable {locker : Locker} {starts : Call → Prop} {sys sys' : System} {key : String}

theorem Step.carries (h : Step locker starts sys sys') (hs : sys.shared.Sound)
    (carry : ∀ t ∈ sys.threads, t.Carries) : ∀ t ∈ sys'.threads, t.Carries := by
  cases h with
  | submit _ =>
    exact List.forall_mem_append.mpr
      ⟨carry, List.forall_mem_singleton.mpr (begin_submit_carries locker _)⟩
  | dispatch _ =>
    exact List.forall_mem_append.mpr
      ⟨carry, List.forall_mem_singleton.mpr (begin_dispatch_carries locker _)⟩
  | run step =>
    have here := carry _ (List.mem_append_right _ List.mem_cons_self)
    exact forall_mem_replaced carry (step.carries hs here)
  | handOver _ =>
    have here := carry _ (List.mem_append_right _ List.mem_cons_self)
    obtain ⟨proper, own⟩ := here.follows
    refine forall_mem_replaced carry ⟨?_, Filed.execute_releases locker _⟩
    rw [own]
    exact Filed.execute_carriage locker proper

/-- The run lemma: in what empty queues lead to all calls keep to the carriage. -/
theorem Reaches.carries (typed : ∀ call, starts call → call.InRange)
    (h : Reaches locker starts sys sys') (hs : sys.Sound) (carry : ∀ t ∈ sys.threads, t.Carries) :
    ∀ t ∈ sys'.threads, t.Carries := by
  induction h with
  | refl => exact carry
  | tail reached step ih => exact step.carries (Reaches.sound typed reached hs).shared ih

/-! ### Marks and carriers -/

/-- As long as a key is not carried twice, it is marked exactly while it is carried. -/
theorem Step.carriers_eq_marks (h : Step locker starts sys sys') (hs : sys.shared.Sound)
    (carry : ∀ t ∈ sys.threads, t.Carries) (later : ¬ IsNowKey key)
    (same : carriers sys.threads key = sys.shared.running.marks key)
    (once : carriers sys'.threads key ≤ 1) :
    carriers sys'.threads key = sys'.shared.running.marks key := by
  cases h with
  | submit _ => exact (carriers_begin locker _ _ key).trans same
  | dispatch _ => exact (carriers_begin locker _ _ key).trans same
  | @run s s' before behind call p p' step =>
    have here := carry ⟨call, p⟩ (List.mem_append_right _ List.mem_cons_self)
    have bound := s.running.marks_le key
    dsimp only at same once ⊢
    rw [carriers_split, Thread.carried] at same once ⊢
    obtain ⟨more, marked, -⟩ | ⟨less, unmarked⟩ | ⟨as, asMarked⟩ :=
      step.carried_cases hs here later <;> dsimp only at * <;> omega
  | handOver _ =>
    dsimp only at same ⊢
    rw [carriers_split] at same ⊢
    exact same

/-- A key that comes to be carried twice can lose its mark while it is carried. -/
theorem Step.exists_unmarked (h : Step locker starts sys sys') (hs : sys.shared.Sound)
    (carry : ∀ t ∈ sys.threads, t.Carries) (later : ¬ IsNowKey key)
    (once : carriers sys.threads key ≤ 1) (twice : 1 < carriers sys'.threads key) :
    ∃ sys'', Reaches locker starts sys' sys'' ∧ 0 < carriers sys''.threads key ∧
      sys''.shared.running.marks key = 0 := by
  cases h with
  | submit _ => exact absurd once (Nat.not_le_of_lt ((carriers_begin locker _ _ key).symm ▸ twice))
  | dispatch _ =>
    exact absurd once (Nat.not_le_of_lt ((carriers_begin locker _ _ key).symm ▸ twice))
  | @run s s' before behind call p p' step =>
    have here := carry ⟨call, p⟩ (List.mem_append_right _ List.mem_cons_self)
    dsimp only at once twice
    rw [carriers_split, Thread.carried] at once twice
    obtain ⟨more, -, release⟩ | ⟨less, -⟩ | ⟨as, -⟩ := step.carried_cases hs here later
    · -- the look that took the key a second time puts its task back, and unmarks the key of both
      obtain ⟨r, past, run, erased⟩ := release.run s' p'.past p'.evicted
      refine ⟨_, reaches_of_run call before behind run, ?_, Running.marks_unmark _ _⟩
      dsimp only
      rw [carriers_split, Thread.carried, erased, List.count_erase_self]
      dsimp only at *
      omega
    · dsimp only at *
      omega
    · dsimp only at *
      omega
  | handOver _ =>
    dsimp only at once twice
    rw [carriers_split] at once twice
    exact absurd once (Nat.not_le_of_lt twice)

section FromEmpty

variable {s : Shared} (typed : ∀ call, starts call → call.InRange) (hs : s.Sound)
  (later : ¬ IsNowKey key)

include typed hs later

theorem Reaches.carriers_eq_marks (unmarked : s.running.marks key = 0)
    (once : ∀ sys, Reaches locker starts ⟨s, []⟩ sys → carriers sys.threads key ≤ 1)
    (reached : Reaches locker starts ⟨s, []⟩ sys) :
    carriers sys.threads key = sys.shared.running.marks key := by
  have sound : Sound ⟨s, []⟩ := ⟨hs, fun _ h => absurd h List.not_mem_nil⟩
  induction reached with
  | refl => exact unmarked.symm
  | tail reached step ih =>
    exact step.carriers_eq_marks (Reaches.sound typed reached sound).shared
      (Reaches.carries typed reached sound fun _ h => absurd h List.not_mem_nil) later ih
      (once _ (reached.tail step))

theorem Reaches.carriers_le_one
    (marked : ∀ sys, Reaches locker starts ⟨s, []⟩ sys → 0 < carriers sys.threads key →
      sys.shared.running.marks key ≠ 0)
    (reached : Reaches locker starts ⟨s, []⟩ sys) : carriers sys.threads key ≤ 1 := by
  have sound : Sound ⟨s, []⟩ := ⟨hs, fun _ h => absurd h List.not_mem_nil⟩
  induction reached with
  | refl => exact Nat.zero_le 1
  | @tail mid sys reached step ih =>
    by_contra twice
    obtain ⟨sys', onwards, carried, unmarked⟩ := step.exists_unmarked
      (Reaches.sound typed reached sound).shared
      (Reaches.carries typed reached sound fun _ h => absurd h List.not_mem_nil) later ih
      (Nat.lt_of_not_le twice)
    exact marked sys' ((reached.tail step).trans onwards) carried unmarked

end FromEmpty

end System

/-! ### Reports -/

theorem World.keyStatus_eq_running_iff (w : World) {job : Job} {q : QueueName} {key : String}
    (hkey : job.key q = .ok key) :
    w.keyStatus job q = .ok .running ↔ w.running.marks key ≠ 0 := by
  unfold keyStatus Running.marks
  rw [hkey]
  dsimp only
  split
  · simp
  · split <;> simp

/-- From empty queues and no marks, the execution of a task for later runs carries its key until it
is over. A key for later runs is reported as running whenever it is carried exactly when it is never
carried twice. -/
theorem in_flight_reported_iff {locker : Locker} {starts : Call → Prop}
    (typed : ∀ call, starts call → call.InRange) {shelves : QueueName → Shelf}
    (empty : ∀ q, (shelves q).isEmpty) {job : Job} {q : QueueName} (later : q ≠ .now) {key : String}
    (hkey : job.key q = .ok key) :
    (∀ sys, System.Reaches locker starts ⟨⟨.empty, shelves⟩, []⟩ sys →
      ∀ t ∈ sys.threads, ∀ f, t.call = .execute q f → f.key = key →
        t.course.process.isDone = false → key ∈ t.carried) ∧
    ((∀ sys, System.Reaches locker starts ⟨⟨.empty, shelves⟩, []⟩ sys →
      (∃ t ∈ sys.threads, key ∈ t.carried) →
        ∀ w : World, w.running = sys.shared.running → w.keyStatus job q = .ok .running) ↔
      ∀ sys, System.Reaches locker starts ⟨⟨.empty, shelves⟩, []⟩ sys →
        carriers sys.threads key ≤ 1) := by
  have sound : Shared.Sound ⟨.empty, shelves⟩ := fun q => (empty q).sound
  have notNow : ¬ IsNowKey key := Job.not_isNowKey later hkey
  refine ⟨?executing, ?once, ?reported⟩
  case executing =>
    intro sys reached t ht f hcall own going
    have carries := System.Reaches.carries typed reached
      ⟨sound, fun _ h => absurd h List.not_mem_nil⟩ (fun _ h => absurd h List.not_mem_nil) t ht
    refine carries.owned_mem going ?_
    rw [hcall, Call.owned_execute later, own]
    exact List.mem_singleton_self key
  case once =>
    intro reported sys reached
    refine System.Reaches.carriers_le_one typed sound notNow (fun sys reached carried => ?_) reached
    let w : World := { World.fresh default (fun _ => .memory .empty) default .empty with
      running := sys.shared.running }
    exact (w.keyStatus_eq_running_iff hkey).mp
      (reported sys reached (carriers_pos.mp carried) w rfl)
  case reported =>
    intro once sys reached carried w hw
    rw [w.keyStatus_eq_running_iff hkey, hw, ← reached.carriers_eq_marks typed sound notNow rfl once]
    exact Nat.pos_iff_ne_zero.mp (carriers_pos.mpr carried)

/-! ### A recipe with two steps that run later -/

def simmering : Galley.Step where
  step := 1
  name := "simmer"
  image := "alpine"
  registryAuth := ""
  entrypoint := []
  command := []
  env := []
  environment := []
  trigger := "in.1.seconds"
  timeout := ""

def baking : Galley.Step := { simmering with step := 2, name := "bake", trigger := "in.2.seconds" }

namespace Job

def feast : Job := { pancakes with recipe := ⟨"feast", "", [], [simmering, baking]⟩ }

theorem feast_inRange : feast.InRange where
  timeout := Nat.zero_le _
  recipe s hs := by
    rcases List.mem_cons.mp hs with rfl | hs
    · exact Nat.le_of_ble_eq_true rfl
    · obtain rfl := List.mem_singleton.mp hs
      exact Nat.le_of_ble_eq_true rfl
  recipients _ h := nomatch h

theorem feast_valid : feast.validateSubmission = .ok () := by decide

end Job

namespace Feast

open Job

def nowKey : String := "[app][individual][userid:42][page:1][uuid:u-1][queue:now]"

def laterKey : String := "[app][individual][userid:42][page:1][uuid:u-1][queue:in]"

def filed : Filed := Submission.filed feast nowKey 0

def simmer : Filed :=
  Execution.stepTask (Execution.atStep feast simmering) simmering laterKey (.once (.ofSeconds 1)) 0

def bake : Filed :=
  Execution.stepTask (Execution.atStep (Execution.atStep feast simmering) baking) baking laterKey
    (.once (.ofSeconds 2)) 0

/-- The marks, with the tasks of the queues in memory. -/
def larder (marked : List String) (now delayed : List Filed) : Shared where
  running := ⟨marked⟩
  shelves
    | .now => .memory ⟨now⟩
    | .delayed => .memory ⟨delayed⟩
    | .recurring => .memory .empty

def locker : Locker := ⟨"/", none⟩

theorem larder_eq {s : Shared} {marked : List String} {now delayed : List Filed}
    (running : s.running = ⟨marked⟩) (first : s.shelves .now = .memory ⟨now⟩)
    (later : s.shelves .delayed = .memory ⟨delayed⟩)
    (again : s.shelves .recurring = .memory .empty) : s = larder marked now delayed := by
  obtain ⟨r, shelves⟩ := s
  obtain rfl : r = ⟨marked⟩ := running
  refine congrArg (Shared.mk _) (funext fun q => ?_)
  cases q
  · exact first
  · exact later
  · exact again

theorem feast_nowKey : feast.key .now = .ok nowKey := by decide

theorem feast_laterKey : feast.key .delayed = .ok laterKey := by decide

theorem simmering_parsed :
    StepTrigger.parse simmering.trigger.trimBlanks = .ok (.once (.ofSeconds 1)) := by decide

theorem baking_parsed :
    StepTrigger.parse baking.trigger.trimBlanks = .ok (.once (.ofSeconds 2)) := by decide

theorem push_filed : (larder [nowKey] [] []).push .now filed =
    (.ok filed.nextRun, larder [nowKey] [filed] []) :=
  Prod.ext (by decide) (larder_eq rfl rfl rfl rfl)

theorem push_simmer : (larder [nowKey] [] []).push .delayed simmer =
    (.ok simmer.nextRun, larder [nowKey] [] [simmer]) :=
  Prod.ext (by decide) (larder_eq rfl rfl rfl rfl)

theorem push_bake : (larder [nowKey] [] [simmer]).push .delayed bake =
    (.ok bake.nextRun, larder [nowKey] [] [simmer, bake]) :=
  Prod.ext (by decide) (larder_eq rfl rfl rfl rfl)

theorem pop_filed : (larder [nowKey] [filed] []).pop .now = (.ok filed, larder [nowKey] [] []) :=
  Prod.ext rfl (larder_eq (by decide) rfl rfl rfl)

theorem pop_simmer : (larder [] [] [simmer, bake]).pop .delayed =
    (.ok simmer, larder [laterKey] [] [bake]) :=
  Prod.ext rfl (larder_eq rfl rfl rfl rfl)

theorem pop_bake : (larder [laterKey] [] [bake]).pop .delayed =
    (.ok bake, larder [laterKey] [] []) :=
  Prod.ext rfl (larder_eq rfl rfl rfl rfl)

/-- What the execution of the recipe has done in the end. -/
def cooked : List Event :=
  [⟨.unmark nowKey, ()⟩, ⟨.send (.app 7 Catalog.jobFinished), ()⟩,
    ⟨.push .delayed bake, .ok bake.nextRun⟩, ⟨.now, (0 : Int)⟩,
    ⟨.push .delayed simmer, .ok simmer.nextRun⟩, ⟨.now, (0 : Int)⟩,
    ⟨.send (.app 7 Catalog.jobStarted), ()⟩, ⟨.now, filed.nextRun⟩, ⟨.pop .now, .ok filed⟩]

theorem run_filed : Course.Run (larder [nowKey] [] [])
    ⟨filed.execute locker, [⟨.now, filed.nextRun⟩, ⟨.pop .now, .ok filed⟩], 0⟩
    (larder [] [] [simmer, bake]) ⟨.done (.ok ()), cooked, 0⟩ := by
  have key : (Execution.atStep feast simmering).key .delayed = .ok laterKey := feast_laterKey
  have told : (Route.ofJob feast).app = some 7 := by decide
  have task : filed.task = .recipe feast := rfl
  have first (next : Except ExecutionError Unit → Process (Except ExecutionError Unit)) :=
    Execution.run_runSteps_once locker simmering_parsed feast_laterKey 0
      (s := larder [nowKey] [] []) rfl push_simmer [baking] next
  have second (next : Except ExecutionError Unit → Process (Except ExecutionError Unit)) :=
    Execution.run_runSteps_once locker baking_parsed key 0
      (s := larder [nowKey] [] [simmer]) rfl push_bake [] next
  exact Execution.run_recipe locker told task fun next => (first next _ 0).trans (second next _ 0)

theorem larder_isEmpty (marked : List String) (q : QueueName) :
    ((larder marked [] []).shelves q).isEmpty := by
  cases q <;> rfl

theorem run_submit : ∃ past, Course.Run (larder [] [] []) ⟨feast.submit locker, [], 0⟩
    (larder [nowKey] [filed] []) ⟨.done (.ok nowKey), past, 0⟩ := by
  obtain ⟨past, -, taken⟩ := Submission.exists_taken locker feast_valid feast_nowKey
    (s := larder [] [] []) rfl
  obtain ⟨past', filing⟩ := Submission.run_filing locker feast_nowKey
    (fun q => (larder_isEmpty [nowKey] q).sound) (fun q => (larder_isEmpty [nowKey] q).tasks_eq_nil)
    push_filed past
  exact ⟨past', taken.trans filing⟩

/-- The execution of the first step, which has done nothing yet. -/
def simmers : Thread :=
  ⟨.execute .delayed simmer, simmer.execute locker,
    [⟨.now, simmer.nextRun⟩, ⟨.pop .delayed, .ok simmer⟩], 0⟩

/-- The recipe has run, and the first of its steps is about to. -/
def served (past : List Event) : System where
  shared := larder [laterKey] [] [bake]
  threads := [⟨.submit feast, .done (.ok nowKey), past, 0⟩,
    ⟨.execute .now filed, .done (.ok ()), cooked, 0⟩, simmers]

theorem simmers_mem (past : List Event) : simmers ∈ (served past).threads := by
  simp [served]

section Served

variable {starts : Call → Prop} (looks : ∀ q, starts (.dispatch q))

include looks

theorem reaches_served (runs : ∀ q f, starts (.execute q f)) :
    ∃ past, System.Reaches locker starts ⟨larder [] [] [], [.begin locker (.submit feast)]⟩
      (served past) := by
  obtain ⟨past, submitted⟩ := run_submit
  let accepted : Thread := ⟨.submit feast, .done (.ok nowKey), past, 0⟩
  let ran : Thread := ⟨.execute .now filed, .done (.ok ()), cooked, 0⟩
  have first : System.Reaches locker starts ⟨larder [] [] [], [.begin locker (.submit feast)]⟩
      ⟨larder [nowKey] [filed] [], [accepted]⟩ :=
    System.reaches_of_run (.submit feast) [] [] submitted
  have second : System.Reaches locker starts ⟨larder [nowKey] [filed] [], [accepted]⟩
      ⟨larder [nowKey] [] [], [accepted, .popped .now filed]⟩ :=
    System.reaches_popped (looks .now) pop_filed [accepted]
  have third := System.reaches_due locker (larder [nowKey] [] []) rfl (runs .now filed) [accepted] []
  have fourth : System.Reaches locker starts _
      ⟨larder [] [] [simmer, bake], [accepted, ran]⟩ :=
    System.reaches_of_run (.execute .now filed) [accepted] [] run_filed
  have fifth : System.Reaches locker starts _
      ⟨larder [laterKey] [] [bake], [accepted, ran, .popped .delayed simmer]⟩ :=
    System.reaches_popped (looks .delayed) pop_simmer [accepted, ran]
  have sixth := System.reaches_due locker (larder [laterKey] [] [bake]) rfl (runs .delayed simmer)
    [accepted, ran] []
  exact ⟨past, ((((first.trans second).trans third).trans fourth).trans fifth).trans sixth⟩

/-- A look that has popped a task too early unmarks its key. -/
theorem reaches_unmarked (past : List Event) : ∃ look, System.Reaches locker starts (served past)
    ⟨larder [] [] [], (served past).threads ++ [look]⟩ := by
  have popped : System.Reaches locker starts (served past)
      ⟨larder [laterKey] [] [], (served past).threads ++ [.popped .delayed bake]⟩ :=
    System.reaches_popped (looks .delayed) pop_bake (served past).threads
  have early := Course.run_quiet (s := larder [laterKey] [] []) (a := .now) trivial (0 : Int)
    (fun now => if now < bake.nextRun then (Dispatch.putBack .delayed bake).bind fun _ => .done none
      else (Dispatch.recur .delayed bake now).bind fun _ => .done (some bake))
    [⟨.pop .delayed, .ok bake⟩] 0
  have unmarked : Course.Step (larder [laterKey] [] [])
      ⟨(Dispatch.putBack .delayed bake).bind fun _ => .done (none : Option Filed),
        [⟨.now, (0 : Int)⟩, ⟨.pop .delayed, .ok bake⟩], 0⟩ (larder [] [] [])
      ⟨(perform (.refile .delayed bake)).bind fun _ => .done none,
        [⟨.unmark laterKey, ()⟩, ⟨.now, (0 : Int)⟩, ⟨.pop .delayed, .ok bake⟩], 0⟩ :=
    .act (.unmark laterKey)
  exact ⟨_, popped.trans (System.reaches_of_run (.dispatch .delayed) _ []
    (early.trans unmarked.run))⟩

end Served

theorem fresh_eq : (⟨.empty, fun _ => .memory .empty⟩ : Shared) = larder [] [] [] :=
  larder_eq rfl rfl rfl rfl

theorem fresh_reaches_served : ∃ past, System.Reaches locker Call.InRange
    ⟨⟨.empty, fun _ => .memory .empty⟩, []⟩ (served past) := by
  have begun : System.Step locker Call.InRange ⟨larder [] [] [], []⟩
      ⟨larder [] [] [], [.begin locker (.submit feast)]⟩ := .submit feast_inRange
  have looks (q : QueueName) : Call.InRange (.dispatch q) := trivial
  have runs (q : QueueName) (f : Filed) : Call.InRange (.execute q f) := trivial
  obtain ⟨past, served⟩ := reaches_served looks runs
  rw [fresh_eq]
  exact ⟨past, (Relation.ReflTransGen.single begun).trans served⟩

end Feast

section Feast

open Feast Job

/-- The execution of the first step carries its key. -/
theorem in_flight_reported_iff_feast : ∃ sys, System.Reaches locker Call.InRange
      ⟨⟨.empty, fun _ => .memory .empty⟩, []⟩ sys ∧ simmers ∈ sys.threads ∧
    laterKey ∈ simmers.carried := by
  obtain ⟨past, reached⟩ := fresh_reaches_served
  have empty (q : QueueName) : ((fun _ => .memory .empty : QueueName → Shelf) q).isEmpty := rfl
  have carried := (in_flight_reported_iff (fun _ h => h) empty
    (by decide : QueueName.delayed ≠ .now) feast_laterKey).1 _ reached simmers (simmers_mem past)
  exact ⟨_, reached, simmers_mem past, carried simmer rfl rfl rfl⟩

/-- Two tasks under one key are enough for an execution that is under way to lose its mark. -/
theorem exists_in_flight_unmarked : feast.key .delayed = .ok simmer.key ∧
    ∃ sys, System.Reaches locker Call.InRange ⟨⟨.empty, fun _ => .memory .empty⟩, []⟩ sys ∧
      (∃ t ∈ sys.threads, t.call = .execute .delayed simmer ∧ t.course.process.isDone = false) ∧
      ∀ w : World, w.running = sys.shared.running → w.keyStatus feast .delayed ≠ .ok .running := by
  have looks (q : QueueName) : Call.InRange (.dispatch q) := trivial
  obtain ⟨past, reached⟩ := fresh_reaches_served
  obtain ⟨look, unmarked⟩ := reaches_unmarked looks past
  refine ⟨feast_laterKey, _, reached.trans unmarked,
    ⟨simmers, List.mem_append_left _ (simmers_mem past), rfl, rfl⟩, ?_⟩
  intro w hw
  rw [Ne, w.keyStatus_eq_running_iff feast_laterKey, hw]
  exact fun marked => marked rfl

end Feast

end Galley
