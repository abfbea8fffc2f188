import Galley.Proofs.Queue.Filing
import Galley.Proofs.Schedules
/-!
# Looks at a queue that hand nothing out

A look at a queue pops the first task before it knows whether its time has come, and a pop marks the task's
key. Where it was too early the task is filed again, and for the queues of later steps the mark is taken
away. Main statement: when a look has handed nothing out, the tasks of the queue are those it had before
exactly when the task's own time is free without it, and the marks are those from before exactly when the
task's key was marked and it is the queue for runs at once, or it was not marked and it is another one.
-/
namespace Galley

/-- Whether a time from a given one on is free. -/
def Shelf.FreeFrom (s : Shelf) (t : Int) : Prop :=
  ∃ u, t ≤ u ∧ u ≤ Text.Numeral.maxI64 ∧ s.taken u = false

namespace World

open QueueDirectory

/-- Whether a queue of a world is what lies on a shelf: in memory tasks that may be filed, no two at one
time, and otherwise a directory of files. -/
def Holds (w : World) (q : QueueName) : Shelf → Prop
  | .memory queue => w.stores q = .memory queue ∧ Queue.Stock q queue.tasks
  | .directory es => ∃ path, w.stores q = .directory path ∧ w.files.entries path = .ok es ∧
      es.Distinct ∧ Node.Plain es

variable {w v : World} {q : QueueName} {s : Shelf} {f : Filed}

/-! ### Pops and pushes -/

/-- What a pop of a world does to a queue and to the marks, for each of its two ends. -/
inductive Popped (w : World) (q : QueueName) (s : Shelf) : Prop
  | nothing (s' : Shelf) (v : World) (onShelf : s.pop q = (.error .notFound, s'))
      (inWorld : w.pop q = (.error .notFound, v)) (after : v.Holds q s')
      (running : v.running = w.running) (before : s.tasks q = []) (none : s'.tasks q = [])
  | task (f : Filed) (s' : Shelf) (v : World) (onShelf : s.pop q = (.ok f, s'))
      (inWorld : w.pop q = (.ok f, v)) (after : v.Holds q s')
      (running : v.running = w.running.mark f.key) (storable : f.Storable q)
      (stored : s'.stored f = f) (tasks : s.tasks q = f :: s'.tasks q)

theorem popped_of_memory {queue : MemoryQueue} (h : w.Holds q (.memory queue)) :
    w.Popped q (.memory queue) := by
  obtain ⟨memory, stock⟩ := h
  obtain ⟨fs⟩ := queue
  cases fs with
  | nil =>
    refine .nothing (.memory ⟨[]⟩) w rfl ?_ ⟨memory, stock⟩ rfl rfl rfl
    rw [World.pop, memory]
    change (_, { w.setStore q (.memory ⟨[]⟩) with files := w.files }) = _
    rw [← memory, setStore_self]
  | cons f rest =>
    refine .task f (.memory ⟨rest⟩) { w.setStore q (.memory ⟨rest⟩) with
      running := w.running.mark f.key } rfl ?_ ⟨if_pos rfl, stock.tail⟩ rfl
      (stock.storable f List.mem_cons_self) rfl rfl
    rw [World.pop, memory]
    rfl

theorem popped_of_directory {es : Entries} (h : w.Holds q (.directory es)) :
    w.Popped q (.directory es) := by
  obtain ⟨path, directory, found, names, plain⟩ := h
  have held {v : World} {keys : List String} {ds : List Entry}
      (leaves : w.Leaves path (without es ds) keys v) : v.Holds q (.directory (without es ds)) :=
    ⟨path, leaves.directory directory, leaves.found, names.sublist (without_sublist es ds),
      plain.sublist names (without_sublist es ds)⟩
  rcases exists_first q (numbered es) with spoilt | ⟨before, d, behind, f, whole, spoilt, hf⟩
  · obtain ⟨v, popped, leaves⟩ := World.pop_of_spoilt directory found names spoilt
    rw [← without_numbered] at leaves
    refine .nothing (.directory (without es (numbered es))) v ?_ popped (held leaves) leaves.running
      ?_ ?_
    · rw [Shelf.pop, QueueDirectory.pop_of_spoilt names spoilt]
    · rw [Shelf.tasks, tasks_eq_loaded, loaded_of_spoilt spoilt]
    · rw [Shelf.tasks, tasks_eq_loaded, numbered_without, List.filter_eq_nil_iff.mpr (by simp)]
      rfl
  · obtain ⟨v, popped, leaves⟩ := World.pop_of_load directory found names whole spoilt hf
    have loaded := storable_of_load hf
    have cut : numbered es = [] ++ ((before ++ [d]) ++ behind) := by
      rw [whole, List.append_cons, List.nil_append]
    have rest := numbered_without_append names cut
    refine .task f (.directory (without es (before ++ [d]))) v ?_ popped (held leaves)
      leaves.running loaded.1 loaded.2 ?_
    · rw [Shelf.pop, QueueDirectory.pop_of_load names whole spoilt hf]
    · rw [Shelf.tasks, Shelf.tasks, tasks_eq_loaded, tasks_eq_loaded, rest, whole, loaded_append,
        loaded_of_spoilt spoilt, List.nil_append, loaded_cons_of_load hf]
      rfl

theorem Holds.pop (h : w.Holds q s) : w.Popped q s := by
  cases s with
  | memory queue => exact popped_of_memory h
  | directory es => exact popped_of_directory h

/-- What a push of a world does to a queue: the task comes among the others, at its own time exactly when
that is free. -/
structure Pushed (w : World) (q : QueueName) (s : Shelf) (f : Filed) (t : Int) (v : World)
    (s' : Shelf) : Prop where
  done : w.push q f = (.ok t, v)
  after : v.Holds q s'
  running : v.running = w.running
  tasks : (s'.tasks q).Perm (s.stored { f with nextRun := t } :: s.tasks q)
  own : t = f.nextRun ↔ s.taken f.nextRun = false

theorem exists_pushed_of_memory {queue : MemoryQueue} (h : w.Holds q (.memory queue))
    (hf : f.Storable q) (free : (Shelf.memory queue).FreeFrom f.nextRun) :
    ∃ t v s', w.Pushed q (.memory queue) f t v s' := by
  obtain ⟨memory, stock⟩ := h
  obtain ⟨u, after, late, none⟩ := free
  have space : Queue.HasSpace queue.tasks f := ⟨u, after, late, by simpa [Shelf.taken] using none⟩
  have range := Queue.timeBeside_range hf queue.tasks
  obtain ⟨new, -⟩ := space.timeBeside hf.time.1
  let next : MemoryQueue :=
    ⟨MemoryQueue.insert { f with nextRun := Queue.timeBeside queue.tasks f } queue.tasks⟩
  refine ⟨Queue.timeBeside queue.tasks f, w.setStore q (.memory next), .memory next, ?_,
    ⟨if_pos rfl, stock.insert (hf.withNextRun range.1 range.2) new⟩, rfl,
    MemoryQueue.insert_perm _ _, ?_, fun unused => Queue.freeTime_eq_self unused _⟩
  · rw [World.push, memory, Store.push, MemoryQueue.push, hf.check]
    rfl
  · intro own
    rw [own] at new
    simpa [Shelf.taken] using new

theorem exists_pushed_of_directory {es : Entries} (h : w.Holds q (.directory es))
    (hf : f.Storable q) (free : (Shelf.directory es).FreeFrom f.nextRun) :
    ∃ t v s', w.Pushed q (.directory es) f t v s' := by
  obtain ⟨path, directory, found, names, plain⟩ := h
  obtain ⟨t, v, es', pushed, leaves, filed⟩ := push_files directory found names plain hf free
  have after : v.Holds q (.directory es') :=
    ⟨path, leaves.directory directory, leaves.found, filed.names, filed.plain plain⟩
  refine ⟨t, v, .directory es', pushed, after, leaves.running, ?_, ?_, ?_⟩
  · have perm := filed.entries.filterMap fun d => (load q d.2.2).toOption
    change (tasks q es').Perm (_ :: tasks q es)
    rw [tasks_eq_loaded, tasks_eq_loaded]
    exact perm.trans (.of_eq (loaded_cons_of_load filed.loads (nameOf t) t (numbered es)))
  · rintro rfl
    exact filed.least.1.2
  · intro unused
    exact Int.le_antisymm (filed.least.2 ⟨Int.le_refl _, unused⟩) filed.least.1.1

theorem Holds.exists_pushed (h : w.Holds q s) (hf : f.Storable q) (free : s.FreeFrom f.nextRun) :
    ∃ t v s', w.Pushed q s f t v s' := by
  cases s with
  | memory queue => exact exists_pushed_of_memory h hf free
  | directory es => exact exists_pushed_of_directory h hf free

/-- What is put in the place of a task is for the same time if the tasks are the same then. -/
theorem nextRun_eq_of_perm {f g : Filed} {fs : List Filed} (h : (g :: fs).Perm (f :: fs)) :
    g.nextRun = f.nextRun := by
  by_contra other
  have count := h.countP_eq (fun e : Filed => decide (e.nextRun = f.nextRun))
  rw [List.countP_cons_of_neg (by simpa using other), List.countP_cons_of_pos (by simp)] at count
  omega

/-! ### Looks -/

/-- The marks when a task was put back. -/
def spared (q : QueueName) (running : Running) (key : String) : Running :=
  if q = .now then running else running.unmark key

theorem advance_now {α : Type} (next : Int → Process α) :
    w.advance false (.act .now next) = w.advance false (next w.clock.time) := rfl

theorem advance_early (early : w.clock.time < f.nextRun) :
    w.advance false (Dispatch.afterPop q f) =
      (.done none, ({ w with running := spared q w.running f.key }.push q f).2) := by
  rw [Dispatch.afterPop, advance_now, if_pos early, Dispatch.putBack, spared]
  cases q <;> rfl

/-- A task whose time has come is handed out. -/
theorem advance_due (due : ¬ w.clock.time < f.nextRun) :
    ∃ v, w.advance false (Dispatch.afterPop q f) = (.done (some f), v) := by
  rw [Dispatch.afterPop, advance_now, if_neg due, Dispatch.recur]
  cases f.trigger.nextFire f.nextRun w.clock.time with
  | none => exact ⟨w, rfl⟩
  | some time => exact ⟨_, rfl⟩

/-- A pop of a key and its way back leave the marks as they were exactly when the key was marked before
in the queue for runs at once, and not in another. -/
theorem spared_mark_iff (q : QueueName) (running : Running) (key : String) :
    (∀ other, (spared q (running.mark key) key).isRunning other = running.isRunning other) ↔
      (running.isRunning key = true ↔ q = .now) := by
  unfold spared
  split
  · next now =>
    simp only [Running.isRunning_mark, now, iff_true]
    constructor
    · intro same
      simpa using (same key).symm
    · intro marked other
      by_cases own : other = key
      · simp [own, marked]
      · simp [own]
  · next later =>
    simp only [Running.isRunning_unmark, Running.isRunning_mark, later, iff_false]
    constructor
    · intro same
      simpa using (same key).symm
    · intro unmarked other
      by_cases own : other = key
      · simpa [own] using (Bool.eq_false_iff.mpr unmarked).symm
      · simp [own]

/-- What a pop gives is given once. -/
theorem forall_popped {left : Shelf} (h : s.pop q = (.ok f, left)) {holds : Filed → Shelf → Prop} :
    (∀ f left, s.pop q = (.ok f, left) → holds f left) ↔ holds f left := by
  constructor
  · exact fun all => all f left h
  · intro here f' left' again
    rw [h] at again
    obtain ⟨first, rfl⟩ := Prod.mk.inj again
    obtain rfl := Except.ok.inj first
    exact here

/-- A look that hands nothing out leaves the tasks of its queue as they were exactly when the first task's
own time is free once it is popped, and the marks exactly when the first task's key was marked before the
look and the queue is the one for runs at once, or was not and it is another one. -/
theorem popDue_restores (h : w.Holds q s)
    (free : ∀ f s', s.pop q = (.ok f, s') → s'.FreeFrom f.nextRun)
    (none : w.advance false (Dispatch.popDue q) = (.done none, v)) :
    ∃ s', v.Holds q s' ∧
      ((s'.tasks q).Perm (s.tasks q) ↔
        ∀ f left, s.pop q = (.ok f, left) → left.taken f.nextRun = false) ∧
      ((∀ key, v.running.isRunning key = w.running.isRunning key) ↔
        ∀ f left, s.pop q = (.ok f, left) → (w.running.isRunning f.key = true ↔ q = .now)) := by
  have answered (next : Except QueueError Filed → Process (Option Filed)) :
      w.advance false (.act (.pop q) next) = (w.pop q).2.advance false (next (w.pop q).1) := rfl
  rw [Dispatch.popDue_eq, answered] at none
  cases h.pop with
  | nothing s' v' onShelf inWorld after running before rest =>
    rw [inWorld] at none
    obtain rfl : v' = v := (Prod.mk.inj none).2
    have never (f : Filed) (left : Shelf) (popped : s.pop q = (.ok f, left)) : False := by
      rw [onShelf] at popped
      cases popped
    refine ⟨s', after, iff_of_true ?_ fun f left popped => (never f left popped).elim,
      iff_of_true (fun key => by rw [running]) fun f left popped => (never f left popped).elim⟩
    rw [before, rest]
  | task f left v' onShelf inWorld after running storable stored tasks =>
    rw [inWorld] at none
    by_cases early : v'.clock.time < f.nextRun
    · have holds : ({ v' with running := spared q v'.running f.key } : World).Holds q left := by
        cases left <;> exact after
      obtain ⟨t, v'', s', back⟩ := holds.exists_pushed storable (free f left onShelf)
      have ended := (advance_early (q := q) early).symm.trans none
      rw [back.done] at ended
      obtain rfl : v'' = v := (Prod.mk.inj ended).2
      refine ⟨s', back.after, ?_, ?_⟩
      · rw [forall_popped onShelf, ← back.own, tasks]
        constructor
        · intro same
          have time := nextRun_eq_of_perm (back.tasks.symm.trans same)
          rwa [Shelf.nextRun_stored] at time
        · rintro rfl
          exact back.tasks.trans (.of_eq (congrArg (· :: left.tasks q) stored))
      · rw [forall_popped onShelf, back.running, running]
        exact spared_mark_iff q w.running f.key
    · obtain ⟨v'', handed⟩ := advance_due (q := q) early
      exact nomatch handed.symm.trans none

/-- On a shelf that nobody but the program has put something on, a task that is popped can go back to its
own time. -/
theorem taken_of_popped {stored : Filed → Filed} {fs : List Filed} {left : Shelf}
    (h : s.Keeps q stored fs) (popped : s.pop q = (.ok f, left)) :
    left.taken f.nextRun = false := by
  cases fs with
  | nil =>
    rw [h.pop_nil] at popped
    cases popped
  | cons g fs =>
    obtain ⟨s', first, rest⟩ := h.pop_cons
    rw [popped] at first
    obtain ⟨same, rfl⟩ := Prod.mk.inj first
    obtain rfl := Except.ok.inj same
    have time := (h.stock.storable f List.mem_cons_self).time
    rw [rest.taken_eq time.1 time.2, List.any_eq_false]
    intro g hg own
    exact h.stock.nextRun_ne_of_perm (.refl _) hg (of_decide_eq_true own)

/-! ### A step that is popped too early -/

/-- A step waits for its time in memory, and its key is marked for another step that runs. -/
def proofing : World :=
  { remembering with
    clock := ⟨0⟩, stores := fun _ => .memory ⟨[folding]⟩, running := .mark .empty folding.key }

theorem proofing_holds : proofing.Holds .delayed (.memory ⟨[folding]⟩) :=
  ⟨rfl, List.pairwise_singleton _ _, List.forall_mem_singleton.mpr folding_storable⟩

theorem proofing_keeps :
    (Shelf.memory ⟨[folding]⟩).Keeps .delayed (Shelf.memory ⟨[folding]⟩).stored [folding] :=
  ⟨rfl, rfl, proofing_holds.2⟩

theorem popDue_proofing : ∃ v, proofing.advance false (Dispatch.popDue .delayed) = (.done none, v) ∧
    v.running = proofing.running.unmark folding.key := ⟨_, rfl, rfl⟩

theorem popDue_restores_proofing :
    let s : Shelf := .memory ⟨[folding]⟩
    proofing.Holds .delayed s ∧
      (∀ f s', s.pop .delayed = (.ok f, s') → s'.FreeFrom f.nextRun) ∧
      ∃ v, proofing.advance false (Dispatch.popDue .delayed) = (.done none, v) ∧
        ∃ s', v.Holds .delayed s' ∧
          ((s'.tasks .delayed).Perm (s.tasks .delayed) ↔
            ∀ f left, s.pop .delayed = (.ok f, left) → left.taken f.nextRun = false) ∧
          ((∀ key, v.running.isRunning key = proofing.running.isRunning key) ↔
            ∀ f left, s.pop .delayed = (.ok f, left) →
              (proofing.running.isRunning f.key = true ↔ QueueName.delayed = .now)) := by
  obtain ⟨v, none, -⟩ := popDue_proofing
  have free (f : Filed) (s' : Shelf)
      (popped : Shelf.pop .delayed (.memory ⟨[folding]⟩) = (.ok f, s')) : s'.FreeFrom f.nextRun := by
    have own : f = folding := (Except.ok.inj (Prod.mk.inj popped).1).symm
    exact ⟨f.nextRun, Int.le_refl _, own ▸ by decide, taken_of_popped proofing_keeps popped⟩
  exact ⟨proofing_holds, free, v, none, popDue_restores proofing_holds free none⟩

/-- A look that hands nothing out can take away the mark of another step that runs under the key. -/
theorem exists_mark_lost :
    proofing.Holds .delayed (.memory ⟨[folding]⟩) ∧
      ∃ v, proofing.advance false (Dispatch.popDue .delayed) = (.done none, v) ∧
        proofing.running.isRunning folding.key = true ∧ v.running.isRunning folding.key = false := by
  obtain ⟨v, none, running⟩ := popDue_proofing
  refine ⟨proofing_holds, v, none, by simp [proofing], ?_⟩
  rw [running, Running.isRunning_unmark]
  simp

end World

end Galley
