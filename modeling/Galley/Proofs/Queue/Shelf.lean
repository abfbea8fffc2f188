import Galley.Proofs.Queue.Directory
import Galley.Queue.Memory
/-!
# Queues of both kinds

A shelf is a queue in memory or the entries of a queue's directory, with the operations that both
answer. A task that is pushed is filed under the first free time; where there is none, the search
for it never ends, so that a push is only looked at where its time is free. Main statements: on a
shelf of proper tasks every operation changes the tasks by the one that it is about.
-/
namespace Galley

inductive Shelf
  | memory (queue : MemoryQueue)
  | directory (es : Entries)

/-! ### Queues in memory -/

namespace MemoryQueue

theorem insert_perm (f : Filed) (fs : List Filed) : (insert f fs).Perm (f :: fs) := by
  induction fs with
  | nil => exact .refl _
  | cons g rest ih =>
    rw [insert]
    split
    · exact .refl _
    · exact (ih.cons g).trans (.swap f g rest)

theorem find?_eraseP_perm {α : Type} {p : α → Bool} {as : List α} {a : α}
    (h : as.find? p = some a) : as.Perm (a :: as.eraseP p) := by
  induction as with
  | nil => exact nomatch h
  | cons b as ih =>
    by_cases hb : p b = true
    · rw [List.find?_cons_of_pos hb] at h
      obtain rfl := Option.some.inj h
      rw [List.eraseP_cons_of_pos hb]
    · rw [List.find?_cons_of_neg hb] at h
      rw [List.eraseP_cons_of_neg hb]
      exact ((ih h).cons b).trans (.swap a b _)

/-- What has the property to be erased is filtered out with or without its first occurrence. -/
theorem filter_eraseP {α : Type} (p : α → Bool) (as : List α) :
    (as.eraseP p).filter (fun a => !p a) = as.filter fun a => !p a := by
  induction as with
  | nil => rfl
  | cons a as ih =>
    by_cases ha : p a = true
    · rw [List.eraseP_cons_of_pos ha, List.filter_cons_of_neg (by simp [ha])]
    · rw [List.eraseP_cons_of_neg ha, List.filter_cons_of_pos (by simp [ha]),
        List.filter_cons_of_pos (by simp [ha]), ih]

end MemoryQueue

namespace Queue

theorem freeTime_range (taken : Int → Bool) (fuel : Nat) {t : Int}
    (early : Text.Numeral.minI64 ≤ t) (late : t ≤ Text.Numeral.maxI64) :
    Text.Numeral.minI64 ≤ freeTime taken fuel t ∧ freeTime taken fuel t ≤ Text.Numeral.maxI64 := by
  induction fuel generalizing t with
  | zero => exact ⟨early, late⟩
  | succ fuel ih =>
    rw [freeTime]
    split
    · exact ih (saturate_range _).1 (saturate_range _).2
    · exact ⟨early, late⟩

end Queue

namespace Shelf

/-! ### Operations -/

def tasks (q : QueueName) : Shelf → List Filed
  | memory queue => queue.tasks
  | directory es => QueueDirectory.tasks q es

def isEmpty : Shelf → Prop
  | memory queue => queue = .empty
  | directory es => es = []

/-- Whether something is filed under a time. -/
def taken : Shelf → Int → Bool
  | memory queue, t => queue.tasks.any (·.nextRun = t)
  | directory es, t => es.contains (QueueDirectory.nameOf t)

def timeFor (s : Shelf) (f : Filed) : Int :=
  match s with
  | memory queue => Queue.freeTime s.taken queue.tasks.length f.nextRun
  | directory es => Queue.freeTime s.taken es.length f.nextRun

/-- Whether the search for a free time comes to an end. -/
def HasRoom (s : Shelf) (f : Filed) : Prop := s.taken (s.timeFor f) = false

/-- What an operation gives, and the shelf after it, which is the old one when the operation
fails. -/
def outcome {α β : Type} (wrap : β → Shelf) (s : Shelf) :
    Except QueueError (α × β) → Except QueueError α × Shelf
  | .error e => (.error e, s)
  | .ok (a, b) => (.ok a, wrap b)

def push (q : QueueName) (s : Shelf) (f : Filed) : Except QueueError Int × Shelf :=
  match s with
  | memory queue => outcome memory s (queue.push q f)
  | directory es => outcome directory s (QueueDirectory.push q es f)

def pop (q : QueueName) (s : Shelf) : Except QueueError Filed × Shelf :=
  match s with
  | memory queue => outcome memory s queue.pop
  | directory es =>
    let (value, es) := QueueDirectory.pop q es
    (value, directory es)

def remove (q : QueueName) (s : Shelf) (key : String) : Except QueueError Filed × Shelf :=
  match s with
  | memory queue => outcome memory s (queue.remove key)
  | directory es => outcome directory s (QueueDirectory.remove q es key)

/-! ### Shelves of proper tasks -/

/-- A shelf that nobody but the program has written to. -/
def Sound (q : QueueName) : Shelf → Prop
  | memory queue => ∀ f ∈ queue.tasks, f.Proper q
  | directory es => QueueDirectory.Tidy q es

variable {q : QueueName} {s : Shelf}

theorem isEmpty.sound (h : s.isEmpty) : s.Sound q := by
  cases s with
  | memory queue =>
    obtain rfl := h
    exact fun _ hf => nomatch hf
  | directory es =>
    obtain rfl := h
    exact QueueDirectory.tidy_nil q

theorem isEmpty.tasks_eq_nil (h : s.isEmpty) : s.tasks q = [] := by
  cases s with
  | memory queue =>
    obtain rfl := h
    rfl
  | directory es =>
    obtain rfl := h
    have none : QueueDirectory.numbered [] = [] := List.mergeSort_nil
    rw [tasks, QueueDirectory.tasks, QueueDirectory.readable, none]
    rfl

namespace Sound

theorem proper (h : s.Sound q) {f : Filed} (hf : f ∈ s.tasks q) : f.Proper q := by
  cases s with
  | memory queue => exact h f hf
  | directory es => exact QueueDirectory.Tidy.proper h hf

theorem isEmpty (h : s.Sound q) (ht : s.tasks q = []) : s.isEmpty := by
  cases s with
  | memory queue =>
    cases queue
    exact congrArg MemoryQueue.mk ht
  | directory es =>
    cases es with
    | nil => rfl
    | cons e es =>
      obtain ⟨f, proper, rfl⟩ := QueueDirectory.Tidy.records h e (by simp)
      have perm := QueueDirectory.tasks_perm q ((QueueDirectory.nameOf f.nextRun,
        .file (Record.bytes f)) :: es)
      rw [List.filterMap_cons_some (QueueDirectory.read?_record proper), List.map_cons] at perm
      have none : QueueDirectory.tasks q _ = [] := ht
      rw [none] at perm
      exact nomatch perm.length_eq

theorem hasRoom (h : s.Sound q) (ht : s.tasks q = []) (f : Filed) : s.HasRoom f := by
  have empty := h.isEmpty ht
  cases s with
  | memory queue =>
    obtain rfl := empty
    rfl
  | directory es =>
    obtain rfl := empty
    rfl

/-- A pop finds nothing or takes a task off the shelf. -/
theorem pop (h : s.Sound q) :
    (s.tasks q = [] ∧ s.pop q = (.error .notFound, s)) ∨
      ∃ f s', s.pop q = (.ok f, s') ∧ s'.Sound q ∧ (s.tasks q).Perm (f :: s'.tasks q) := by
  cases s with
  | memory queue =>
    obtain ⟨fs⟩ := queue
    cases fs with
    | nil => exact .inl ⟨rfl, rfl⟩
    | cons f rest =>
      exact .inr ⟨f, memory ⟨rest⟩, rfl, fun g hg => h g (List.mem_cons_of_mem _ hg), .refl _⟩
  | directory es =>
    rcases QueueDirectory.Tidy.pop h with ⟨none, hp⟩ | ⟨f, es', hp, tidy, perm⟩
    · exact .inl ⟨none, by rw [Shelf.pop, hp]⟩
    · exact .inr ⟨f, directory es', by rw [Shelf.pop, hp], tidy, perm⟩

/-- A removal finds nothing or takes a task with the key off the shelf. -/
theorem remove (h : s.Sound q) (key : String) :
    ((∀ f ∈ s.tasks q, f.key ≠ key) ∧ s.remove q key = (.error .notFound, s)) ∨
      ∃ f s', f.key = key ∧ s.remove q key = (.ok f, s') ∧ s'.Sound q ∧
        (s.tasks q).Perm (f :: s'.tasks q) := by
  cases s with
  | memory queue =>
    rw [Shelf.remove, MemoryQueue.remove]
    cases hf : queue.tasks.find? (·.key = key) with
    | none =>
      refine .inl ⟨fun f hm hk => ?_, rfl⟩
      exact List.find?_eq_none.mp hf f hm (by simpa using hk)
    | some f =>
      refine .inr ⟨f, memory ⟨queue.tasks.eraseP (·.key = key)⟩, ?_, rfl, fun g hg => ?_, ?_⟩
      · simpa using List.find?_some hf
      · exact h g (List.mem_of_mem_eraseP hg)
      · exact MemoryQueue.find?_eraseP_perm hf
  | directory es =>
    rcases QueueDirectory.Tidy.remove h key with ⟨none, hp⟩ | ⟨f, es', hk, hp, tidy, perm⟩
    · exact .inl ⟨none, by rw [Shelf.remove, hp, outcome]⟩
    · exact .inr ⟨f, directory es', hk, by rw [Shelf.remove, hp, outcome], tidy, perm⟩

/-- A push puts the same work under the same key on the shelf. -/
theorem push (h : s.Sound q) {f : Filed} (hf : f.Proper q) (room : s.HasRoom f) :
    ∃ time g s', s.push q f = (.ok time, s') ∧ g.task = f.task ∧ g.key = f.key ∧ s'.Sound q ∧
      (s'.tasks q).Perm (g :: s.tasks q) := by
  cases s with
  | memory queue =>
    have range := Queue.freeTime_range (fun t => queue.tasks.any (·.nextRun = t))
      queue.tasks.length hf.inRange.early hf.inRange.late
    generalize ht : Queue.freeTime (fun t => queue.tasks.any (·.nextRun = t))
      queue.tasks.length f.nextRun = time at range
    have proper := hf.withNextRun range.1 range.2
    have perm := MemoryQueue.insert_perm { f with nextRun := time } queue.tasks
    refine ⟨time, { f with nextRun := time }, memory ⟨_⟩, ?_, rfl, rfl, fun g hg => ?_, perm⟩
    · rw [Shelf.push, MemoryQueue.push, hf.check]
      simp only [bind, Except.bind, pure, Except.pure, ht, outcome]
    · rcases List.mem_cons.mp (perm.mem_iff.mp hg) with rfl | hg
      · exact proper
      · exact h g hg
  | directory es =>
    have range := Queue.freeTime_range (fun t => es.contains (QueueDirectory.nameOf t)) es.length
      hf.inRange.early hf.inRange.late
    obtain ⟨es', hp, tidy, perm⟩ := QueueDirectory.Tidy.push h hf rfl room range.1 range.2
    exact ⟨_, Filed.capped { f with nextRun := _ }, directory es',
      by rw [Shelf.push, hp, outcome], rfl, rfl, tidy, perm⟩

end Sound

end Shelf

end Galley
