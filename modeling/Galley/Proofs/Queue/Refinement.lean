import Galley.Proofs.Queue.Stock
import Galley.World
/-!
# Queues in directories and in memory

What a queue is asked and told, one request after another. A queue in a directory is a faithful
picture of a queue in memory while the directory keeps a record for each task that the memory holds.
Main statement: from empty queues on, both give the same replies and mark the same keys, as long as
every task that is filed finds a free time and has a duration that 64 bits hold.
-/
namespace Galley

namespace Queue

inductive Operation
  | push (f : Filed)
  | pop
  | head
  | get (key : String)
  | remove (key : String)
  | size
  | clear
  | tasks
  deriving DecidableEq, Repr

inductive Value
  | time (t : Int)
  | task (f : Filed)
  | tasks (fs : List Filed)
  | size (n : Nat)
  | done
  deriving DecidableEq, Repr

/-- Whether the numbers of a task that is to be filed have the widths that records keep them with. -/
def Operation.Typed : Operation → Prop
  | .push f => f.InRange ∧ f.trigger.duration.nanos ≤ Text.Numeral.maxU64
  | _ => True

end Queue

theorem Store.openAt_eq {root : String} {q : QueueName} {files files' : Files} {store : Store}
    (h : openAt root q files = (.ok store, files')) :
    store = .directory (Path.join root q.text) := by
  unfold openAt at h
  dsimp only at h
  split at h
  · exact nomatch (Prod.mk.inj h).1
  · exact (Except.ok.inj (Prod.mk.inj h).1).symm

namespace World

open Queue (Operation Value)

/-- Answers a request to a queue. -/
def serve (w : World) (q : QueueName) : Operation → Except QueueError Value × World
  | .push f =>
    let (r, w) := w.push q f
    (r.map .time, w)
  | .pop =>
    let (r, w) := w.pop q
    (r.map .task, w)
  | .head => (((w.stores q).head q w.files).map .task, w)
  | .get key => (((w.stores q).get q w.files key).map .task, w)
  | .remove key =>
    let (r, w) := w.afterStore q ((w.stores q).remove q w.files key)
    (r.map .task, w)
  | .size => (((w.stores q).size w.files).map .size, w)
  | .clear =>
    let (r, w) := w.afterStore q ((w.stores q).clear w.files)
    (r.map fun _ => .done, w)
  | .tasks => (((w.stores q).tasks q w.files).map .tasks, w)

/-- The replies to requests one after another, each with the marks after it. -/
def replies (w : World) (q : QueueName) :
    List Operation → List (Except QueueError Value × Running)
  | [] => []
  | o :: rest =>
    ((w.serve q o).1, (w.serve q o).2.running) :: (w.serve q o).2.replies q rest

/-- Whether every task that is filed finds a free time. -/
def FindsSpace (w : World) (q : QueueName) : List Operation → Prop
  | [] => True
  | o :: rest =>
    (∀ f fs, o = .push f → Queue.check q f = .ok () → (w.stores q).tasks q w.files = .ok fs →
      Queue.HasSpace fs f) ∧ (w.serve q o).2.FindsSpace q rest

/-! ### Pictures of queues in memory -/

/-- A queue in memory and the same queue in the directory at a path, with the same marks. -/
structure Pictures (q : QueueName) (path : String) (w v : World) : Prop where
  running : v.running = w.running
  directory : v.stores q = .directory path
  tasks : ∃ fs es, w.stores q = .memory ⟨fs⟩ ∧ v.files.entries path = .ok es ∧
    QueueDirectory.Keeps q es fs

theorem setStore_self (w : World) (q : QueueName) : w.setStore q (w.stores q) = w := by
  have same : (fun q' => if q' = q then w.stores q else w.stores q') = w.stores := by
    funext q'
    split
    · next h => rw [h]
    · rfl
  unfold setStore
  rw [same]

theorem afterStore_unchanged {α : Type} (w : World) (q : QueueName) (value : Except QueueError α) :
    w.afterStore q ⟨value, w.files, w.stores q⟩ = (value, w) := by
  unfold afterStore
  rw [setStore_self]

/-- Whether an operation gave the same on both sides and left a picture. -/
def Agree {α : Type} (q : QueueName) (path : String) (r s : Except QueueError α × World) : Prop :=
  s.1 = r.1 ∧ Pictures q path r.2 s.2

theorem Agree.map {α β : Type} {q : QueueName} {path : String} {r s : Except QueueError α × World}
    (h : Agree q path r s) (wrap : α → β) :
    Agree q path (r.1.map wrap, r.2) (s.1.map wrap, s.2) :=
  ⟨congrArg (Except.map wrap) h.1, h.2⟩

namespace Pictures

variable {q : QueueName} {path : String} {w v : World} {f : Filed}

/-- An operation that gives the same on both sides and keeps the tasks on both sides. -/
theorem afterStore {α : Type} (h : Pictures q path w v) {es es' : Entries} {fs fs' : List Filed}
    {value : Except QueueError α} {change : Entries → Except QueueError α × Entries}
    (found : v.files.entries path = .ok es) (keeps : QueueDirectory.Keeps q es fs)
    (changed : change es = (value, es')) (keeps' : QueueDirectory.Keeps q es' fs') :
    Agree q path (w.afterStore q ⟨value, w.files, .memory ⟨fs'⟩⟩)
      (v.afterStore q (Store.inDirectory v.files path change)) := by
  obtain ⟨files, done, rewrites⟩ := Store.exists_inDirectory found change
    (keeps.plain.keepsDirectories _)
  rw [changed] at done rewrites
  rw [done]
  refine ⟨rfl, h.running, ?_, fs', es', ?_, rewrites.found, keeps'⟩
  · exact if_pos rfl
  · exact if_pos rfl

/-- What is asked without a change is told in the same way. -/
theorem ask {α : Type} (h : Pictures q path w v) (ofTasks : MemoryQueue → Except QueueError α)
    (ofEntries : Entries → Except QueueError α) (wrap : α → Value)
    (same : ∀ es fs, QueueDirectory.Keeps q es fs → ofEntries es = ofTasks ⟨fs⟩) :
    Agree q path (((w.stores q).ask w.files ofTasks ofEntries).map wrap, w)
      (((v.stores q).ask v.files ofTasks ofEntries).map wrap, v) := by
  obtain ⟨fs, es, memory, found, keeps⟩ := h.tasks
  refine ⟨?_, h⟩
  rw [h.directory, memory, Store.ask, Store.ask, found]
  exact congrArg (Except.map wrap) (same es fs keeps)

theorem mark (h : Pictures q path w v) (key : String) :
    Pictures q path { w with running := w.running.mark key }
      { v with running := v.running.mark key } where
  running := congrArg (Running.mark · key) h.running
  directory := h.directory
  tasks := h.tasks

/-! ### One operation -/

theorem push (h : Pictures q path w v) (range : f.InRange)
    (short : f.trigger.duration.nanos ≤ Text.Numeral.maxU64)
    (space : Queue.check q f = .ok () → ∀ fs, (w.stores q).tasks q w.files = .ok fs →
      Queue.HasSpace fs f) :
    Agree q path (w.push q f) (v.push q f) := by
  obtain ⟨fs, es, memory, found, keeps⟩ := h.tasks
  unfold World.push
  cases hc : Queue.check q f with
  | error e =>
    have left : (w.stores q).push q w.files f = ⟨.error e, w.files, w.stores q⟩ := by
      rw [memory, Store.push, MemoryQueue.push, hc]
      rfl
    have right : (v.stores q).push q v.files f = ⟨.error e, v.files, v.stores q⟩ := by
      rw [h.directory, Store.push, hc]
    rw [left, right, afterStore_unchanged, afterStore_unchanged]
    exact ⟨rfl, h⟩
  | ok _ =>
    obtain ⟨es', pushed, keeps'⟩ := keeps.push ⟨range, hc⟩ (space hc fs (by rw [memory]; rfl))
    -- the duration is short enough for the record to give back the task as it was filed
    have whole : ({ f with nextRun := Queue.timeBeside fs f } : Filed).capped =
      { f with nextRun := Queue.timeBeside fs f } := Filed.capped_eq_self short
    rw [whole] at keeps'
    have changed : Store.unlessFailed es (QueueDirectory.push q es f) =
        (.ok (Queue.timeBeside fs f), es') := by rw [pushed]; rfl
    have left : (w.stores q).push q w.files f = ⟨.ok (Queue.timeBeside fs f), w.files,
        .memory ⟨MemoryQueue.insert { f with nextRun := Queue.timeBeside fs f } fs⟩⟩ := by
      rw [memory, Store.push, MemoryQueue.push, hc]
      rfl
    have right : (v.stores q).push q v.files f = Store.inDirectory v.files path fun es =>
        Store.unlessFailed es (QueueDirectory.push q es f) := by
      rw [h.directory, Store.push, hc]
    rw [left, right]
    exact h.afterStore found keeps changed keeps'

theorem pop (h : Pictures q path w v) : Agree q path (w.pop q) (v.pop q) := by
  obtain ⟨fs, es, memory, found, keeps⟩ := h.tasks
  unfold World.pop
  rw [h.directory, memory, Store.pop, Store.pop]
  cases fs with
  | nil =>
    obtain ⟨told, after⟩ := h.afterStore found keeps keeps.pop_nil keeps
    generalize v.afterStore q _ = r at told after
    obtain ⟨value, v'⟩ := r
    obtain rfl := told
    exact ⟨rfl, after⟩
  | cons f fs =>
    obtain ⟨popped, keeps'⟩ := keeps.pop_cons
    obtain ⟨told, after⟩ := h.afterStore found keeps popped keeps'
    generalize v.afterStore q _ = r at told after
    obtain ⟨value, v'⟩ := r
    obtain rfl := told
    exact ⟨rfl, after.mark f.key⟩

theorem remove (h : Pictures q path w v) (key : String) :
    Agree q path (w.afterStore q ((w.stores q).remove q w.files key))
      (v.afterStore q ((v.stores q).remove q v.files key)) := by
  obtain ⟨fs, es, memory, found, keeps⟩ := h.tasks
  rw [h.directory, memory, Store.remove, Store.remove, MemoryQueue.remove]
  cases hf : fs.find? (·.key = key) with
  | none =>
    have changed : Store.unlessFailed es (QueueDirectory.remove q es key) =
        (.error .notFound, es) := by rw [keeps.remove_none hf]; rfl
    exact h.afterStore found keeps changed keeps
  | some f =>
    obtain ⟨removed, keeps'⟩ := keeps.remove_some hf
    have changed : Store.unlessFailed es (QueueDirectory.remove q es key) =
        (.ok f, es.erase (QueueDirectory.nameOf f.nextRun)) := by rw [removed]; rfl
    exact h.afterStore found keeps changed keeps'

theorem clear (h : Pictures q path w v) :
    Agree q path (w.afterStore q ((w.stores q).clear w.files))
      (v.afterStore q ((v.stores q).clear v.files)) := by
  obtain ⟨fs, es, memory, found, keeps⟩ := h.tasks
  rw [h.directory, memory, Store.clear, Store.clear]
  exact h.afterStore found keeps (congrArg (Prod.mk _) keeps.clear_eq) (.nil q)

/-- Every operation gives the same on both sides and leaves a picture. -/
theorem serve (h : Pictures q path w v) {o : Operation} (typed : o.Typed)
    (space : ∀ f fs, o = .push f → Queue.check q f = .ok () →
      (w.stores q).tasks q w.files = .ok fs → Queue.HasSpace fs f) :
    Agree q path (w.serve q o) (v.serve q o) := by
  cases o with
  | push f => exact (h.push typed.1 typed.2 fun hc fs => space f fs rfl hc).map _
  | pop => exact h.pop.map _
  | head => exact h.ask MemoryQueue.head _ _ fun _ _ keeps => keeps.head_eq
  | get key => exact h.ask (·.get key) _ _ fun _ _ keeps => keeps.get_eq key
  | remove key => exact (h.remove key).map _
  | size => exact h.ask (.ok ·.size) _ _ fun _ _ keeps => congrArg _ keeps.size_eq
  | clear => exact h.clear.map _
  | tasks => exact h.ask (.ok ·.tasks) _ _ fun _ _ keeps => congrArg _ keeps.tasks_eq

theorem replies_eq (h : Pictures q path w v) {operations : List Operation}
    (typed : ∀ o ∈ operations, o.Typed) (space : w.FindsSpace q operations) :
    v.replies q operations = w.replies q operations := by
  induction operations generalizing w v with
  | nil => rfl
  | cons o rest ih =>
    obtain ⟨told, after⟩ := h.serve (typed o List.mem_cons_self) space.1
    have later := ih after (fun o ho => typed o (List.mem_cons_of_mem _ ho)) space.2
    unfold replies
    rw [told, after.running, later]

end Pictures

/-- From empty queues on, a queue in a directory gives the same values and the same errors as a queue
in memory, and the same keys are marked all the time. -/
theorem replies_directory_eq_memory {q : QueueName} {root : String} {files : Files} {w v : World}
    {operations : List Operation} (memory : w.stores q = .memory .empty)
    (opened : Store.openAt root q files = (.ok (v.stores q), v.files))
    (empty : v.files.entries (Path.join root q.text) = .ok []) (running : v.running = w.running)
    (typed : ∀ o ∈ operations, o.Typed) (space : w.FindsSpace q operations) :
    v.replies q operations = w.replies q operations := by
  have start : Pictures q (Path.join root q.text) w v :=
    ⟨running, Store.openAt_eq opened, [], [], memory, empty, .nil q⟩
  exact start.replies_eq typed space

/-! ### A queue for delayed steps -/

def pantry : Files := ⟨.directory [("in", .directory [])], ""⟩

/-- A step that was filed with a delay of a minute. -/
def beating : Filed :=
  { Record.longDelayed with
    task := .step ⟨⟨1, "beat", "eggs", "", [], [], [], [], "in.1.minutes", ""⟩,
      Record.longDelayed.task.job⟩
    trigger := .once (.ofSeconds 60) }

theorem beating_inRange : beating.InRange where
  task := ⟨(by decide : (1 : Nat) ≤ Text.Numeral.maxU32), Record.longDelayed_inRange.task⟩
  options := Options.default_inRange
  early := by decide
  late := by decide

theorem parts_pantry : Path.parts "in" = ["in"] := by decide

theorem openAt_pantry : Store.openAt "" .delayed pantry = (.ok (.directory "in"), pantry) := by
  have path : Path.join "" QueueName.delayed.text = "in" := by decide
  have whole : Path.join "" "in" = "in" := by decide
  have valid : Files.checkPath "in" = .ok () := by decide
  unfold Store.openAt Files.makeDirs
  simp only [path, whole, valid, pantry, parts_pantry]
  rfl

/-- A tree with one directory has the entries of that directory under its name. -/
theorem entries_of_one (es : Entries) :
    (⟨.directory [("in", .directory es)], ""⟩ : Files).entries "in" = .ok es := by
  have whole : Path.join "" "in" = "in" := by decide
  have valid : Files.checkPath "in" = .ok () := by decide
  have led (root : Node) : (⟨root, ""⟩ : Files).walk [] (Path.parts (Path.join "" "in")) =
      .ok ["in"] := by
    simp only [whole, parts_pantry]
    rfl
  exact Files.entries_of_place valid (led _) rfl

theorem entries_pantry : pantry.entries (Path.join "" QueueName.delayed.text) = .ok [] := by
  have path : Path.join "" QueueName.delayed.text = "in" := by decide
  rw [path]
  exact entries_of_one []

def remembering : World := .fresh .start (fun _ => .memory .empty) pantry .empty

def writing : World := { remembering with stores := fun _ => .directory "in" }

/-- The second task finds the nanosecond after the first one. -/
theorem remembering_findsSpace :
    remembering.FindsSpace .delayed [.push beating, .push beating, .pop, .size] := by
  have pops (f : Filed) : Operation.pop ≠ .push f := by simp
  have sizes (f : Filed) : Operation.size ≠ .push f := by simp
  refine ⟨?_, ?_, fun f _ hf => absurd hf (pops f), fun f _ hf => absurd hf (sizes f), trivial⟩
  · intro f fs hf _ ht
    obtain rfl := Operation.push.inj hf
    obtain rfl : [] = fs := Except.ok.inj ht
    exact ⟨-1, by decide, by decide, fun g hg => absurd hg List.not_mem_nil⟩
  · intro f fs hf _ ht
    obtain rfl := Operation.push.inj hf
    have first : [beating] = fs := Except.ok.inj ht
    subst first
    exact ⟨0, by decide, by decide, by decide⟩

theorem replies_writing_eq_remembering :
    remembering.FindsSpace .delayed [.push beating, .push beating, .pop, .size] ∧
      writing.replies .delayed [.push beating, .push beating, .pop, .size] =
        remembering.replies .delayed [.push beating, .push beating, .pop, .size] := by
  have typed : ∀ o ∈ [.push beating, .push beating, .pop, .size], Operation.Typed o := by
    simp only [List.forall_mem_cons]
    have short : beating.trigger.duration.nanos ≤ Text.Numeral.maxU64 := by decide
    exact ⟨⟨beating_inRange, short⟩, ⟨beating_inRange, short⟩, trivial, trivial,
      fun o ho => absurd ho List.not_mem_nil⟩
  exact ⟨remembering_findsSpace, replies_directory_eq_memory rfl openAt_pantry entries_pantry rfl
    typed remembering_findsSpace⟩

end World

end Galley
