import Galley.Proofs.Process.Frame
import Galley.Proofs.Schedules
/-!
# Processes that are advanced

The world lets a process go on as far as it does not have to wait. Where all queues are in memory,
this is one of the runs that calls can have: what the world answers is what an interleaving may
answer, and an eviction takes out its tasks one after another with nothing in between. So whatever
holds in all states that interleavings lead to holds when processes are advanced. A task that is
filed has to find a free time, as in interleavings.
-/
namespace Galley

/-! ### Evictions in memory -/

/-- In memory an eviction takes out all tasks under its key and counts them. The induction is on the
number of tasks that are left to be taken out. -/
theorem Course.run_evict {α : Type} {s : Shared} {q : QueueName} {queue : MemoryQueue}
    (hq : s.shelves q = .memory queue) (key : String) (next : Except QueueError Nat → Process α)
    (past : List Event) (n : Nat) :
    Run s ⟨.act (.evict q key) next, past, n⟩
      (s.setShelf q (.memory ⟨queue.tasks.filter (·.key ≠ key)⟩))
      ⟨next (.ok (n + queue.tasks.countP (·.key = key))),
        ⟨.evict q key, .ok (n + queue.tasks.countP (·.key = key))⟩ :: past, 0⟩ := by
  induction hm : queue.tasks.countP (·.key = key) generalizing s queue n with
  | zero =>
    have other : ∀ f ∈ queue.tasks, f.key ≠ key := by
      intro f hf own
      exact List.countP_eq_zero.mp hm f hf (by simpa using own)
    have all : queue.tasks.filter (·.key ≠ key) = queue.tasks := by
      rw [List.filter_eq_self]
      intro f hf
      simpa using other f hf
    have none : queue.tasks.find? (·.key = key) = none := by
      rw [List.find?_eq_none]
      intro f hf
      simpa using other f hf
    have ended : s.remove q key = (.error .notFound, s) := by
      rw [Shared.remove, hq, Shelf.remove, MemoryQueue.remove, none]
      exact congrArg (Prod.mk _) (s.setShelf_eq_self hq)
    rw [all, s.setShelf_eq_self hq]
    exact (Step.swept ended).run
  | succ m ih =>
    obtain ⟨f, hf⟩ : ∃ f, queue.tasks.find? (·.key = key) = some f := by
      cases found : queue.tasks.find? (·.key = key) with
      | some f => exact ⟨f, rfl⟩
      | none =>
        have zero := List.countP_eq_zero.mpr (List.find?_eq_none.mp found)
        omega
    have removed : s.remove q key =
        (.ok f, s.setShelf q (.memory ⟨queue.tasks.eraseP (·.key = key)⟩)) := by
      rw [Shared.remove, hq, Shelf.remove, MemoryQueue.remove, hf]
      rfl
    have fewer : (queue.tasks.eraseP (·.key = key)).countP (·.key = key) = m := by
      have perm := MemoryQueue.find?_eraseP_perm hf
      have counted := perm.countP_eq (fun g => decide (g.key = key))
      rw [List.countP_cons_of_pos (List.find?_some hf)] at counted
      omega
    have left : (s.setShelf q (.memory ⟨queue.tasks.eraseP (·.key = key)⟩)).shelves q =
        .memory ⟨queue.tasks.eraseP (·.key = key)⟩ := s.setShelf_self q _
    have rest := ih left (n + 1) fewer
    have same := MemoryQueue.filter_eraseP (fun g : Filed => decide (g.key = key)) queue.tasks
    simp only [← decide_not] at same
    rw [Shared.setShelf_setShelf, same, Nat.add_right_comm n 1 m] at rest
    exact (Step.removed removed).run.trans rest

namespace World

/-! ### What calls share of a world -/

/-- The marks and the queues of a world. -/
def shared (w : World) : Shared where
  running := w.running
  shelves q :=
    match w.stores q with
    | .memory queue => .memory queue
    | .directory path => .directory ((w.files.entries path).toOption.getD [])

def InMemory (w : World) : Prop := ∀ q, ∃ queue, w.stores q = .memory queue

/-- Whether a task that an action files finds a free time. -/
def HasRoom (w : World) : Action → Prop
  | .push q f => (w.shared.shelves q).HasRoom f
  | .refile q f => (w.shared.shelves q).HasRoom f
  | _ => True

/-- Whether all queues are in memory and calls share just this. -/
structure Shows (w : World) (s : Shared) : Prop where
  memory : w.InMemory
  shared_eq : w.shared = s

variable {w w' : World} {cancelled : Bool}

theorem InMemory.shows (h : w.InMemory) : w.Shows w.shared := ⟨h, rfl⟩

/-- Calls do not share what else there is in a world. -/
theorem Shows.frame {s : Shared} (h : w.Shows s) (stores : w'.stores = w.stores) :
    w'.Shows { s with running := w'.running } where
  memory q := stores ▸ h.memory q
  shared_eq := by
    obtain ⟨memory, rfl⟩ := h
    unfold shared
    rw [stores]
    refine congrArg (Shared.mk w'.running) (funext fun q => ?_)
    obtain ⟨queue, hq⟩ := memory q
    dsimp only
    rw [hq]

theorem Shows.unchanged {s : Shared} (h : w.Shows s) (running : w'.running = w.running)
    (stores : w'.stores = w.stores) : w'.Shows s := by
  have shows := h.frame stores
  obtain ⟨-, rfl⟩ := h
  rwa [running] at shows

theorem shelves_of_memory {q : QueueName} {queue : MemoryQueue} (hq : w.stores q = .memory queue) :
    w.shared.shelves q = .memory queue := by
  unfold shared
  dsimp only
  rw [hq]

theorem InMemory.setStore (h : w.InMemory) (q : QueueName) (queue : MemoryQueue) (files : Files) :
    { w.setStore q (.memory queue) with files := files }.Shows
      (w.shared.setShelf q (.memory queue)) where
  memory q' := by
    by_cases hq : q' = q
    · exact ⟨queue, if_pos hq⟩
    · obtain ⟨queue', h'⟩ := h q'
      exact ⟨queue', (if_neg hq).trans h'⟩
  shared_eq := by
    refine congrArg (Shared.mk w.running) (funext fun q' => ?_)
    by_cases hq : q' = q
    · simp [World.setStore, hq]
    · obtain ⟨queue', h'⟩ := h q'
      simp [World.setStore, shared, hq, h']

/-! ### What the world answers -/

/-- An operation on a queue in memory gives and leaves behind what it does on a shelf. -/
theorem InMemory.afterStore {α : Type} (h : w.InMemory) (q : QueueName) (queue : MemoryQueue)
    (r : Except QueueError (α × MemoryQueue)) :
    (w.afterStore q (Store.remembered w.files queue r)).1 =
        (Shelf.outcome .memory (.memory queue) r).1 ∧
      (w.afterStore q (Store.remembered w.files queue r)).2.Shows
        (w.shared.setShelf q (Shelf.outcome .memory (.memory queue) r).2) := by
  cases r with
  | error e => exact ⟨rfl, h.setStore q queue w.files⟩
  | ok r => exact ⟨rfl, h.setStore q r.2 w.files⟩

theorem InMemory.pop (h : w.InMemory) (q : QueueName) :
    (w.pop q).1 = (w.shared.pop q).1 ∧ (w.pop q).2.Shows (w.shared.pop q).2 := by
  obtain ⟨queue, hq⟩ := h q
  unfold World.pop Shared.pop
  rw [shelves_of_memory hq, hq, Store.pop, Shelf.pop]
  cases queue.pop with
  | error e => exact ⟨rfl, h.setStore q queue w.files⟩
  | ok r => exact ⟨rfl, (h.setStore q r.2 w.files).frame rfl⟩

theorem InMemory.push (h : w.InMemory) (q : QueueName) (f : Filed) :
    (w.push q f).1 = (w.shared.push q f).1 ∧ (w.push q f).2.Shows (w.shared.push q f).2 := by
  obtain ⟨queue, hq⟩ := h q
  unfold World.push Shared.push
  rw [shelves_of_memory hq, hq]
  exact h.afterStore q queue (queue.push q f)

/-- Whether somebody is woken does not matter to calls. -/
theorem InMemory.pushAndWake (h : w.InMemory) (q : QueueName) (f : Filed) :
    (w.pushAndWake q f).1 = (w.shared.push q f).1 ∧
      (w.pushAndWake q f).2.Shows (w.shared.push q f).2 := by
  obtain ⟨value, shows⟩ := h.push q f
  unfold World.pushAndWake
  split
  · next e w' pushed =>
    rw [pushed] at value shows
    exact ⟨value, shows⟩
  · next time w' pushed =>
    rw [pushed] at value shows
    exact ⟨value, shows.unchanged rfl rfl⟩

/-- The step lemma: what the world answers is what an interleaving may answer. -/
theorem InMemory.answer? {α : Type} (h : w.InMemory) {a : Action} {r : a.Answer}
    (ha : w.answer? cancelled a = some (r, w')) (room : w.HasRoom a)
    (next : a.Answer → Process α) (past : List Event) : ∃ s, w'.Shows s ∧
      Course.Run w.shared ⟨.act a next, past, 0⟩ s ⟨next r, ⟨a, r⟩ :: past, 0⟩ := by
  have here := h.shows
  cases a with
  | tryAcquire key =>
    obtain ⟨rfl, rfl⟩ := Prod.mk.inj (Option.some.inj ha)
    exact ⟨_, here.frame rfl, (Course.Step.act (.tryAcquire key)).run⟩
  | unmark key =>
    obtain rfl := (Prod.mk.inj (Option.some.inj ha)).2
    exact ⟨_, here.frame rfl, (Course.Step.act (.unmark key)).run⟩
  | pop q =>
    obtain ⟨value, shows⟩ := h.pop q
    rw [Option.some.inj ha] at value shows
    obtain rfl : r = _ := value
    exact ⟨_, shows, (Course.Step.act (.pop q)).run⟩
  | push q f =>
    obtain ⟨value, shows⟩ := h.pushAndWake q f
    rw [Option.some.inj ha] at value shows
    obtain rfl : r = _ := value
    exact ⟨_, shows, (Course.Step.act (.push q f room)).run⟩
  | refile q f =>
    obtain ⟨value, shows⟩ := h.push q f
    rw [Option.some.inj ha] at value shows
    obtain rfl : r = _ := value
    exact ⟨_, shows, (Course.Step.act (.refile q f room)).run⟩
  | evict q key =>
    obtain ⟨queue, hq⟩ := h q
    rw [World.answer?, hq] at ha
    obtain ⟨rfl, rfl⟩ := Prod.mk.inj (Option.some.inj ha)
    have run := Course.run_evict (shelves_of_memory hq) key next past 0
    rw [Nat.zero_add] at run
    exact ⟨_, h.setStore q _ w.files, run⟩
  | _ =>
    obtain ⟨running, stores⟩ := (frame_answer? ha).shared (by trivial)
    exact ⟨_, here.unchanged running stores, Course.run_quiet (by trivial) r next past 0⟩

/-! ### Advances -/

/-- Whether every task that is filed on the way finds a free time. -/
def Roomy {α : Type} (w : World) (cancelled : Bool) : Process α → Prop
  | .done _ => True
  | .act a next =>
    match w.answer? cancelled a with
    | none => True
    | some (r, w') => w.HasRoom a ∧ w'.Roomy cancelled (next r)

/-- The run lemma: to advance a process is one of its runs. -/
theorem InMemory.advance {α : Type} (h : w.InMemory) {p : Process α} (room : w.Roomy cancelled p)
    (past : List Event) : (w.advance cancelled p).2.InMemory ∧ ∃ past',
      Course.Run w.shared ⟨p, past, 0⟩ (w.advance cancelled p).2.shared
        ⟨(w.advance cancelled p).1, past', 0⟩ := by
  induction p generalizing w past with
  | done a => exact ⟨h, past, .refl _ _⟩
  | act a next ih =>
    unfold World.advance
    unfold Roomy at room
    split
    · exact ⟨h, past, .refl _ _⟩
    · next r w' ha =>
      rw [ha] at room
      obtain ⟨-, ⟨memory, rfl⟩, step⟩ := h.answer? ha room.1 next past
      obtain ⟨memory', past', run⟩ := ih r memory room.2 (⟨a, r⟩ :: past)
      exact ⟨memory', past', step.trans run⟩

/-- To advance one call while all others stand still is a run of the whole. -/
theorem InMemory.advance_reaches {locker : Locker} {starts : Call → Prop} (h : w.InMemory)
    (call : Call) {p : Process call.Result} (room : w.Roomy cancelled p) (past : List Event)
    (before behind : List Thread) : ∃ past',
      System.Reaches locker starts ⟨w.shared, before ++ ⟨call, p, past, 0⟩ :: behind⟩
        ⟨(w.advance cancelled p).2.shared,
          before ++ ⟨call, (w.advance cancelled p).1, past', 0⟩ :: behind⟩ := by
  obtain ⟨-, past', run⟩ := h.advance room past
  exact ⟨past', System.reaches_of_run call before behind run⟩

end World

end Galley
