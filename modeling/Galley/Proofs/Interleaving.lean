import Galley.Dispatch
import Galley.Proofs.Process.Discipline
import Galley.Proofs.Queue.Shelf
import Mathlib.Logic.Relation
/-!
# Calls at the same time

Submissions, looks at queues and executions go on at the same time and share the marks and the three
queues. Each goes through its process action by action; the actions on marks and queues take place
one at a time in any order, and all other actions may be answered in any way. An eviction is a row
of removals with others in between. What a call has done so far is kept as its past, the last event
first.
-/
namespace Galley

/-! ### What calls share -/

structure Shared where
  running : Running
  shelves : QueueName → Shelf

namespace Shared

def setShelf (s : Shared) (q : QueueName) (shelf : Shelf) : Shared :=
  { s with shelves := fun q' => if q' = q then shelf else s.shelves q' }

/-- Takes the first task off a shelf and marks its key. -/
def pop (s : Shared) (q : QueueName) : Except QueueError Filed × Shared :=
  match (s.shelves q).pop q with
  | (.error e, shelf) => (.error e, s.setShelf q shelf)
  | (.ok f, shelf) => (.ok f, { s.setShelf q shelf with running := s.running.mark f.key })

def push (s : Shared) (q : QueueName) (f : Filed) : Except QueueError Int × Shared :=
  let (value, shelf) := (s.shelves q).push q f
  (value, s.setShelf q shelf)

def remove (s : Shared) (q : QueueName) (key : String) : Except QueueError Filed × Shared :=
  let (value, shelf) := (s.shelves q).remove q key
  (value, s.setShelf q shelf)

/-- The answers to an action that is done at once, with what it leaves behind. -/
inductive Answers (s : Shared) : (a : Action) → a.Answer → Shared → Prop
  | tryAcquire (key : String) : Answers s (.tryAcquire key) (s.running.tryAcquire key).1
      { s with running := (s.running.tryAcquire key).2 }
  | unmark (key : String) : Answers s (.unmark key) () { s with running := s.running.unmark key }
  | pop (q : QueueName) : Answers s (.pop q) (s.pop q).1 (s.pop q).2
  | push (q : QueueName) (f : Filed) (room : (s.shelves q).HasRoom f) :
      Answers s (.push q f) (s.push q f).1 (s.push q f).2
  | refile (q : QueueName) (f : Filed) (room : (s.shelves q).HasRoom f) :
      Answers s (.refile q f) (s.push q f).1 (s.push q f).2
  | quiet (a : Action) (r : a.Answer) (h : a.IsQuiet) : Answers s a r s

@[simp] theorem setShelf_self (s : Shared) (q : QueueName) (shelf : Shelf) :
    (s.setShelf q shelf).shelves q = shelf := if_pos rfl

theorem setShelf_ne (s : Shared) {q q' : QueueName} (h : q' ≠ q) (shelf : Shelf) :
    (s.setShelf q shelf).shelves q' = s.shelves q' := if_neg h

@[simp] theorem running_setShelf (s : Shared) (q : QueueName) (shelf : Shelf) :
    (s.setShelf q shelf).running = s.running := rfl

theorem setShelf_setShelf (s : Shared) (q : QueueName) (shelf shelf' : Shelf) :
    (s.setShelf q shelf).setShelf q shelf' = s.setShelf q shelf' := by
  refine congrArg (Shared.mk s.running) (funext fun q' => ?_)
  change (if q' = q then shelf' else if q' = q then shelf else s.shelves q') = _
  split <;> rfl

theorem setShelf_eq_self (s : Shared) {q : QueueName} {shelf : Shelf}
    (h : s.shelves q = shelf) : s.setShelf q shelf = s := by
  refine congrArg (Shared.mk s.running) (funext fun q' => ?_)
  split
  · next same => rw [same, h]
  · rfl

end Shared

/-! ### Calls -/

inductive Call
  | submit (job : Job)
  | dispatch (queue : QueueName)
  | execute (queue : QueueName) (task : Filed)

def Call.Result : Call → Type
  | .submit _ => Except SubmitError String
  | .dispatch _ => Option Filed
  | .execute _ _ => Except ExecutionError Unit

def Call.process (locker : Locker) : (call : Call) → Process call.Result
  | .submit job => job.submit locker
  | .dispatch queue => Dispatch.popDue queue
  | .execute _ task => task.execute locker

/-- An action that was done, with its answer. -/
structure Event where
  action : Action
  answer : action.Answer

/-- How far a call has come. -/
structure Course (α : Type) where
  process : Process α
  past : List Event
  /-- The removals of the eviction that it is at. -/
  evicted : Nat

inductive Course.Step {α : Type} : Shared → Course α → Shared → Course α → Prop
  | act {s s' : Shared} {a : Action} {r : a.Answer} {next : a.Answer → Process α}
      {past : List Event} {n : Nat} (h : s.Answers a r s') :
      Step s ⟨.act a next, past, n⟩ s' ⟨next r, ⟨a, r⟩ :: past, n⟩
  | removed {s s' : Shared} {q : QueueName} {key : String} {f : Filed}
      {next : Except QueueError Nat → Process α} {past : List Event} {n : Nat}
      (h : s.remove q key = (.ok f, s')) :
      Step s ⟨.act (.evict q key) next, past, n⟩ s' ⟨.act (.evict q key) next, past, n + 1⟩
  | swept {s s' : Shared} {q : QueueName} {key : String}
      {next : Except QueueError Nat → Process α} {past : List Event} {n : Nat}
      (h : s.remove q key = (.error .notFound, s')) :
      Step s ⟨.act (.evict q key) next, past, n⟩ s'
        ⟨next (.ok n), ⟨.evict q key, .ok n⟩ :: past, 0⟩

structure Thread where
  call : Call
  course : Course call.Result

/-- A call that has done nothing yet. -/
def Thread.begin (locker : Locker) (call : Call) : Thread :=
  ⟨call, call.process locker, [], 0⟩

structure System where
  shared : Shared
  threads : List Thread

theorem forall_mem_replaced {P : Thread → Prop} {before behind : List Thread} {t t' : Thread}
    (all : ∀ u ∈ before ++ t :: behind, P u) (there : P t') :
    ∀ u ∈ before ++ t' :: behind, P u := by
  rw [List.forall_mem_append, List.forall_mem_cons] at all ⊢
  exact ⟨all.1, there, all.2.2⟩

namespace System

/-- One step of the whole. Calls are made as far as `starts` allows it, and what a look at a queue
hands out is executed, once and with the past of the look. -/
inductive Step (locker : Locker) (starts : Call → Prop) : System → System → Prop
  | submit {s : Shared} {threads : List Thread} {job : Job} (h : starts (.submit job)) :
      Step locker starts ⟨s, threads⟩ ⟨s, threads ++ [.begin locker (.submit job)]⟩
  | dispatch {s : Shared} {threads : List Thread} {q : QueueName} (h : starts (.dispatch q)) :
      Step locker starts ⟨s, threads⟩ ⟨s, threads ++ [.begin locker (.dispatch q)]⟩
  | run {s s' : Shared} {before behind : List Thread} {call : Call} {p p' : Course call.Result}
      (h : p.Step s s' p') :
      Step locker starts ⟨s, before ++ ⟨call, p⟩ :: behind⟩ ⟨s', before ++ ⟨call, p'⟩ :: behind⟩
  | handOver {s : Shared} {before behind : List Thread} {q : QueueName} {f : Filed}
      {past : List Event} {n : Nat} (h : starts (.execute q f)) :
      Step locker starts ⟨s, before ++ ⟨.dispatch q, .done (some f), past, n⟩ :: behind⟩
        ⟨s, before ++ ⟨.execute q f, f.execute locker, past, 0⟩ :: behind⟩

def Reaches (locker : Locker) (starts : Call → Prop) : System → System → Prop :=
  Relation.ReflTransGen (Step locker starts)

end System

/-! ### What a call holds -/

/-- The keys for runs at once that are held after an action. A key is held from the moment it is
taken, or a task under it is popped, until it is unmarked or a task under it is filed. -/
def Action.held (held : List String) : (a : Action) → a.Answer → List String
  | .tryAcquire key, taken => if taken then key :: held else held
  | .unmark key, _ => held.erase key
  | .pop .now, .ok f => f.key :: held
  | .push .now f, .ok _ => held.erase f.key
  | .refile .now f, .ok _ => held.erase f.key
  | _, _ => held

/-- The keys for runs at once that are held after a past. -/
def heldAfter : List Event → List String
  | [] => []
  | e :: past => e.action.held (heldAfter past) e.answer

def Thread.held (t : Thread) : List String := heldAfter t.course.past

theorem Action.held_of_isQuiet (held : List String) {a : Action} (h : a.IsQuiet) (r : a.Answer) :
    a.held held r = held := by
  cases a <;> first | rfl | exact absurd h id

end Galley
