import Galley.Proofs.Files.Rewriting
import Galley.Proofs.Queue.Shelf
import Mathlib.Data.List.Basic
import Mathlib.Data.List.Nodup
/-!
# Stocks of queues

The tasks that a queue holds, in the order of their times and no two at one time. In memory they are
kept as they are, and in a directory as one record for each. Main statements: the search for a free
time ends at the first one, if there is one, and what a queue in a directory is asked or told has the
same outcome as in memory.
-/
namespace Galley

/-! ### The search for a free time -/

namespace Queue

theorem le_freeTime (taken : Int → Bool) (fuel : Nat) {t : Int} (late : t ≤ Text.Numeral.maxI64) :
    t ≤ freeTime taken fuel t := by
  induction fuel generalizing t with
  | zero => exact Int.le_refl t
  | succ fuel ih =>
    rw [freeTime]
    split
    · have next := ih (saturate_range (t + 1)).2
      have step : t ≤ Text.Numeral.saturate (t + 1) := by
        unfold Text.Numeral.saturate
        omega
      omega
    · exact Int.le_refl t

theorem freeTime_congr {taken taken' : Int → Bool} (fuel : Nat) {t : Int}
    (same : ∀ u, Text.Numeral.minI64 ≤ u → u ≤ Text.Numeral.maxI64 → taken u = taken' u)
    (early : Text.Numeral.minI64 ≤ t) (late : t ≤ Text.Numeral.maxI64) :
    freeTime taken fuel t = freeTime taken' fuel t := by
  induction fuel generalizing t with
  | zero => rfl
  | succ fuel ih =>
    rw [freeTime, freeTime, same t early late]
    split
    · exact ih (saturate_range _).1 (saturate_range _).2
    · rfl

/-- A task at a time is counted among those from the time on, and not among those after it. -/
theorem countP_after {fs : List Filed} {f : Filed} (hf : f ∈ fs) :
    fs.countP (f.nextRun + 1 ≤ ·.nextRun) < fs.countP (f.nextRun ≤ ·.nextRun) := by
  obtain ⟨before, behind, rfl⟩ := List.append_of_mem hf
  have fewer (gs : List Filed) :
      gs.countP (f.nextRun + 1 ≤ ·.nextRun) ≤ gs.countP (f.nextRun ≤ ·.nextRun) := by
    apply List.countP_mono_left
    intro g _ after
    have := of_decide_eq_true after
    exact decide_eq_true (by omega)
  have first := fewer before
  have last := fewer behind
  have past : decide (f.nextRun + 1 ≤ f.nextRun) = false := decide_eq_false (by omega)
  have here : decide (f.nextRun ≤ f.nextRun) = true := by simp
  simp only [List.countP_append, List.countP_cons, past, here, if_true]
  simp only [Bool.false_eq_true, if_false]
  omega

/-- A search with as many steps as there are tasks from its time on ends at a time that is free, and no
free time is earlier. -/
theorem freeTime_spec {taken : Int → Bool} {fs : List Filed}
    (filed : ∀ u, taken u = true → ∃ f ∈ fs, f.nextRun = u) {fuel : Nat} {t u : Int}
    (early : Text.Numeral.minI64 ≤ t) (before : t ≤ u) (late : u ≤ Text.Numeral.maxI64)
    (free : taken u = false) (few : fs.countP (t ≤ ·.nextRun) ≤ fuel) :
    taken (freeTime taken fuel t) = false ∧ freeTime taken fuel t ≤ u := by
  induction fuel generalizing t with
  | zero =>
    refine ⟨?_, before⟩
    rw [freeTime, Bool.eq_false_iff]
    intro here
    obtain ⟨f, hf, rfl⟩ := filed t here
    have counted := countP_after hf
    omega
  | succ fuel ih =>
    rw [freeTime]
    split
    · next here =>
      obtain ⟨f, hf, rfl⟩ := filed t here
      have counted := countP_after hf
      -- the time is taken, and so is not the free one, and one task fewer lies ahead
      have other : f.nextRun ≠ u := by
        rintro rfl
        exact Bool.noConfusion (here.symm.trans free)
      have next : Text.Numeral.saturate (f.nextRun + 1) = f.nextRun + 1 := by
        apply Text.Numeral.saturate_eq_self <;> omega
      rw [next]
      apply ih <;> omega
    · next here => exact ⟨by simpa using here, before⟩

end Queue

/-! ### Stocks -/

/-- Whether a task may be filed in a queue. -/
structure Filed.Storable (q : QueueName) (f : Filed) : Prop where
  inRange : f.InRange
  check : Queue.check q f = .ok ()

namespace Filed.Storable

variable {q : QueueName} {f : Filed}

theorem withNextRun (h : f.Storable q) {t : Int} (early : Text.Numeral.minI64 ≤ t)
    (late : t ≤ Text.Numeral.maxI64) : { f with nextRun := t }.Storable q where
  inRange := ⟨h.inRange.task, h.inRange.options, early, late⟩
  check := (Queue.check_congr rfl rfl).trans h.check

theorem capped (h : f.Storable q) : f.capped.Storable q where
  inRange := h.inRange.capped
  check := (Queue.check_congr rfl rfl).trans h.check

theorem load_bytes (h : f.Storable q) : QueueDirectory.load q (Record.bytes f) = .ok f.capped := by
  rw [QueueDirectory.load, Record.decode_bytes_of_fits h.inRange (Queue.fits_of_check h.check)]
  simp only [h.capped.check]
  rfl

theorem time (h : f.Storable q) :
    Text.Numeral.minI64 ≤ f.nextRun ∧ f.nextRun ≤ Text.Numeral.maxI64 :=
  ⟨h.inRange.early, h.inRange.late⟩

end Filed.Storable

namespace Queue

/-- Tasks of a queue in the order of their times, no two at one time. -/
structure Stock (q : QueueName) (fs : List Filed) : Prop where
  ordered : fs.Pairwise (·.nextRun < ·.nextRun)
  storable : ∀ f ∈ fs, f.Storable q

namespace Stock

variable {q : QueueName} {fs gs : List Filed} {f : Filed}

theorem nil (q : QueueName) : Stock q [] := ⟨List.Pairwise.nil, fun _ h => nomatch h⟩

theorem sublist (h : Stock q fs) (less : gs.Sublist fs) : Stock q gs :=
  ⟨h.ordered.sublist less, fun f hf => h.storable f (less.mem hf)⟩

theorem tail (h : Stock q (f :: fs)) : Stock q fs := h.sublist (List.sublist_cons_self f fs)

theorem times_nodup (h : Stock q fs) : (fs.map (·.nextRun)).Nodup := by
  rw [List.Nodup, List.pairwise_map]
  exact h.ordered.imp fun before => by omega

/-- Where all tasks come from a stock, other tasks have other times. -/
theorem nextRun_ne_of_perm (h : Stock q fs) (perm : fs.Perm (f :: gs)) {g : Filed} (hg : g ∈ gs) :
    g.nextRun ≠ f.nextRun := by
  have times := (perm.map (·.nextRun)).nodup_iff.mp h.times_nodup
  rw [List.map_cons, List.nodup_cons] at times
  intro same
  exact times.1 (same ▸ List.mem_map_of_mem hg)

theorem insert (h : Stock q fs) (hf : f.Storable q) (new : ∀ g ∈ fs, g.nextRun ≠ f.nextRun) :
    Stock q (MemoryQueue.insert f fs) where
  ordered := by
    induction fs with
    | nil => exact List.pairwise_singleton _ f
    | cons g rest ih =>
      have other := new g List.mem_cons_self
      have behind := List.pairwise_cons.mp h.ordered
      rw [MemoryQueue.insert]
      split
      · next before =>
        refine List.pairwise_cons.mpr ⟨?_, h.ordered⟩
        intro g' hg'
        rcases List.mem_cons.mp hg' with rfl | hg'
        · omega
        · have := behind.1 g' hg'
          omega
      · next after =>
        have inner := ih h.tail fun g' hg' => new g' (List.mem_cons_of_mem g hg')
        refine List.pairwise_cons.mpr ⟨?_, inner⟩
        intro g' hg'
        rcases List.mem_cons.mp ((MemoryQueue.insert_perm f rest).mem_iff.mp hg') with rfl | hg'
        · omega
        · exact behind.1 g' hg'
  storable g hg := by
    rcases List.mem_cons.mp ((MemoryQueue.insert_perm f fs).mem_iff.mp hg) with rfl | hg
    · exact hf
    · exact h.storable g hg

end Stock

/-- The first free time for a task beside those of a stock. -/
def timeBeside (fs : List Filed) (f : Filed) : Int :=
  freeTime (fun t => fs.any (·.nextRun = t)) fs.length f.nextRun

/-- Whether there is a free time for a task from its own time on. -/
def HasSpace (fs : List Filed) (f : Filed) : Prop :=
  ∃ t, f.nextRun ≤ t ∧ t ≤ Text.Numeral.maxI64 ∧ ∀ g ∈ fs, g.nextRun ≠ t

theorem timeBeside_range {q : QueueName} {f : Filed} (hf : f.Storable q) (fs : List Filed) :
    Text.Numeral.minI64 ≤ timeBeside fs f ∧ timeBeside fs f ≤ Text.Numeral.maxI64 :=
  freeTime_range _ _ hf.time.1 hf.time.2

/-- The search ends at the first free time. -/
theorem HasSpace.timeBeside {fs : List Filed} {f : Filed} (h : HasSpace fs f)
    (early : Text.Numeral.minI64 ≤ f.nextRun) :
    (∀ g ∈ fs, g.nextRun ≠ Queue.timeBeside fs f) ∧
      ∀ t, f.nextRun ≤ t → t ≤ Text.Numeral.maxI64 → (∀ g ∈ fs, g.nextRun ≠ t) →
        Queue.timeBeside fs f ≤ t := by
  have filed (u : Int) (hu : (fs.any (·.nextRun = u)) = true) : ∃ f ∈ fs, f.nextRun = u := by
    simpa using hu
  have free (u : Int) (hu : ∀ g ∈ fs, g.nextRun ≠ u) : (fs.any (·.nextRun = u)) = false := by
    simpa using hu
  obtain ⟨t, after, late, none⟩ := h
  have few := List.countP_le_length (p := fun g : Filed => decide (f.nextRun ≤ g.nextRun)) (l := fs)
  constructor
  · intro g hg
    have found := List.any_eq_false.mp (freeTime_spec filed early after late (free t none) few).1 g hg
    exact fun same => found (decide_eq_true same)
  · intro u after late none
    exact (freeTime_spec filed early after late (free u none) few).2

end Queue

/-! ### Records of capped tasks -/

@[simp] theorem Filed.capped_capped (f : Filed) : f.capped.capped = f.capped := by
  have trigger : f.trigger.capped.capped = f.trigger.capped := by
    cases f.trigger <;> simp [Trigger.capped]
  exact congrArg (fun t => { f with trigger := t }) trigger

theorem Filed.capped_eq_self {f : Filed} (h : f.trigger.duration.nanos ≤ Text.Numeral.maxU64) :
    f.capped = f := by
  have duration (d : Duration) (hd : d.nanos ≤ Text.Numeral.maxU64) : d.capped = d :=
    congrArg Duration.mk (Nat.min_eq_left hd)
  have trigger : f.trigger.capped = f.trigger := by
    cases ht : f.trigger with
    | runOnce delay expired => rw [Trigger.capped, duration delay (by rwa [ht] at h)]
    | simple interval => rw [Trigger.capped, duration interval (by rwa [ht] at h)]
  exact congrArg (fun t => { f with trigger := t }) trigger

/-- The part of a trigger's duration beyond 64 bits is not written. -/
theorem Record.bytes_capped (f : Filed) : bytes f.capped = bytes f := by
  have duration (d : Duration) : d.capped.write = d.write := by
    unfold Duration.write
    rw [Duration.capped_capped]
  have trigger : f.trigger.capped.text = f.trigger.text := by
    unfold Trigger.text
    cases f.trigger with
    | runOnce delay expired =>
      rw [Trigger.capped, Trigger.write_runOnce, Trigger.write_runOnce, duration]
    | simple interval => rw [Trigger.capped, Trigger.write_simple, Trigger.write_simple, duration]
  unfold bytes text encode
  simp only [Filed.capped, trigger]

/-! ### Stocks in directories -/

theorem Entries.mem_foldl_erase {es : Entries} {α : Type} {name : α → String} {as : List α}
    {e : String × Node} :
    e ∈ as.foldl (fun es a => es.erase (name a)) es ↔ e ∈ es ∧ ∀ a ∈ as, e.1 ≠ name a := by
  induction as generalizing es with
  | nil => simp
  | cons a as ih =>
    rw [List.foldl_cons, ih, erase, List.mem_filter, List.forall_mem_cons, decide_eq_true_eq,
      and_assoc]

namespace QueueDirectory

/-- The entry of a task. -/
def record (f : Filed) : String × Node := (nameOf f.nextRun, .file (Record.bytes f))

/-- Whether a directory holds a stock: it has a record for each task and nothing else, and the tasks
are as they come back from their records. -/
structure Keeps (q : QueueName) (es : Entries) (fs : List Filed) : Prop where
  stock : Queue.Stock q fs
  perm : es.Perm (fs.map record)
  capped : ∀ f ∈ fs, f.capped = f

namespace Keeps

variable {q : QueueName} {es : Entries} {fs gs : List Filed} {f : Filed}

theorem nil (q : QueueName) : Keeps q [] [] := ⟨.nil q, .refl _, fun _ h => nomatch h⟩

theorem load (h : Keeps q es fs) (hf : f ∈ fs) :
    QueueDirectory.load q (Record.bytes f) = .ok f := by
  rw [(h.stock.storable f hf).load_bytes, h.capped f hf]

theorem entryOf? (h : Keeps q es fs) (hf : f ∈ fs) :
    QueueDirectory.entryOf? (record f) = some (f.nextRun, nameOf f.nextRun, Record.bytes f) := by
  have time := (h.stock.storable f hf).time
  rw [record, QueueDirectory.entryOf?, timeOfName?_nameOf time.1 time.2]
  rfl

/-- The entries in order are the tasks in order. -/
theorem numbered_eq (h : Keeps q es fs) :
    numbered es = fs.map fun f => (f.nextRun, nameOf f.nextRun, Record.bytes f) := by
  have entries : (fs.map record).filterMap QueueDirectory.entryOf? =
      fs.map fun f => (f.nextRun, nameOf f.nextRun, Record.bytes f) := by
    rw [List.filterMap_map, ← List.filterMap_eq_map]
    exact List.filterMap_congr fun f hf => h.entryOf? hf
  have perm := (List.mergeSort_perm (es.filterMap QueueDirectory.entryOf?)
    fun a b => a.1 ≤ b.1).trans (h.perm.filterMap QueueDirectory.entryOf?)
  rw [entries] at perm
  have sorted : (numbered es).Pairwise (·.1 ≤ ·.1) := by
    have := @List.pairwise_mergeSort _ (fun a b : Int × String × List UInt8 => a.1 ≤ b.1)
      (by simp; omega) (by simp; omega) (es.filterMap QueueDirectory.entryOf?)
    unfold numbered
    simpa using this
  have ordered : (fs.map fun f => (f.nextRun, nameOf f.nextRun, Record.bytes f)).Pairwise
      (·.1 ≤ ·.1) := by
    rw [List.pairwise_map]
    exact h.stock.ordered.imp fun before => by simp only; omega
  refine perm.eq_of_pairwise ?_ sorted ordered
  intro a b ha hb before behind
  obtain ⟨f, hf, rfl⟩ := List.mem_map.mp (perm.mem_iff.mp ha)
  obtain ⟨g, hg, rfl⟩ := List.mem_map.mp hb
  have same : f.nextRun = g.nextRun := by simp only at before behind; omega
  have one := List.inj_on_of_nodup_map h.stock.times_nodup hf hg same
  rw [one]

theorem readable_eq (h : Keeps q es fs) :
    readable q es = fs.map fun f => (nameOf f.nextRun, f) := by
  rw [readable, h.numbered_eq, List.filterMap_map, ← List.filterMap_eq_map]
  refine List.filterMap_congr ?_
  intro f hf
  simp only [Function.comp, h.load hf]
  rfl

theorem tasks_eq (h : Keeps q es fs) : tasks q es = fs := by
  rw [tasks, h.readable_eq, List.map_map]
  exact List.map_id fs

/-- Nothing in the directory is a directory. -/
theorem plain (h : Keeps q es fs) : Node.Plain es := by
  intro name inner found
  have mem := h.perm.mem_iff.mp (Entries.mem_of_find? found)
  obtain ⟨f, -, same⟩ := List.mem_map.mp mem
  exact nomatch same

theorem contains_eq (h : Keeps q es fs) {t : Int} (early : Text.Numeral.minI64 ≤ t)
    (late : t ≤ Text.Numeral.maxI64) : es.contains (nameOf t) = fs.any (·.nextRun = t) := by
  rw [Entries.contains, h.perm.any_eq, List.any_map, Bool.eq_iff_iff, List.any_eq_true,
    List.any_eq_true]
  constructor
  · rintro ⟨f, hf, named⟩
    have same : nameOf f.nextRun = nameOf t := of_decide_eq_true named
    have time := (h.stock.storable f hf).time
    exact ⟨f, hf, decide_eq_true (nameOf_injective time ⟨early, late⟩ same)⟩
  · rintro ⟨f, hf, timed⟩
    exact ⟨f, hf, decide_eq_true (congrArg nameOf (of_decide_eq_true timed))⟩

theorem timeBeside_eq (h : Keeps q es fs) (hf : f.Storable q) :
    Queue.freeTime (fun t => es.contains (nameOf t)) es.length f.nextRun =
      Queue.timeBeside fs f := by
  have length : es.length = fs.length := by rw [h.perm.length_eq, List.length_map]
  rw [Queue.timeBeside, length]
  exact Queue.freeTime_congr _ (fun u early late => h.contains_eq early late) hf.time.1 hf.time.2

/-- Where a task is deleted, the others are kept. -/
theorem erase (h : Keeps q es fs) (perm : fs.Perm (f :: gs)) (less : gs.Sublist fs) :
    Keeps q (es.erase (nameOf f.nextRun)) gs where
  stock := h.stock.sublist less
  perm := by
    have all := (h.perm.trans (perm.map record)).filter fun e => decide (e.1 ≠ nameOf f.nextRun)
    have others : (gs.map record).filter (fun e => decide (e.1 ≠ nameOf f.nextRun)) =
        gs.map record := by
      rw [List.filter_eq_self]
      intro e he
      obtain ⟨g, hg, rfl⟩ := List.mem_map.mp he
      have hf : f ∈ fs := perm.mem_iff.mpr List.mem_cons_self
      have other := h.stock.nextRun_ne_of_perm perm hg
      have apart : nameOf g.nextRun ≠ nameOf f.nextRun := fun same =>
        other (nameOf_injective (h.stock.storable g (less.mem hg)).time
          (h.stock.storable f hf).time same)
      exact decide_eq_true apart
    have own : decide ((record f).1 ≠ nameOf f.nextRun) = false := by simp [record]
    rw [List.map_cons, List.filter_cons, own, others] at all
    exact all
  capped g hg := h.capped g (less.mem hg)

theorem not_contains_draft (h : Keeps q es fs) (s : String) :
    es.contains ("." ++ s ++ ".tmp") = false := by
  rw [Entries.contains, h.perm.any_eq, List.any_eq_false]
  intro e he named
  obtain ⟨f, -, rfl⟩ := List.mem_map.mp he
  exact draft_ne_nameOf s f.nextRun (of_decide_eq_true named).symm

/-- A task is filed at the first free time, as it comes back from its record. -/
theorem push (h : Keeps q es fs) (hf : f.Storable q) (space : Queue.HasSpace fs f) :
    ∃ es', QueueDirectory.push q es f = .ok (Queue.timeBeside fs f, es') ∧
      Keeps q es' (MemoryQueue.insert { f with nextRun := Queue.timeBeside fs f }.capped fs) := by
  have range := Queue.timeBeside_range hf fs
  have free := (space.timeBeside hf.time.1).1
  generalize ht : Queue.timeBeside fs f = time at range free
  have storable := hf.withNextRun range.1 range.2
  have room : es.contains (nameOf time) = false := by
    rw [h.contains_eq range.1 range.2, List.any_eq_false]
    exact fun g hg same => free g hg (of_decide_eq_true same)
  have draft := h.not_contains_draft (nameOf time)
  have new : (es.erase ("." ++ nameOf time ++ ".tmp")).put (nameOf time)
      (.file (Record.bytes { f with nextRun := time })) = record { f with nextRun := time } :: es := by
    rw [Entries.erase_of_not_contains draft, Entries.put, if_neg (by simp [room])]
    rfl
  have same : record { f with nextRun := time } = record { f with nextRun := time }.capped :=
    congrArg (fun bytes => (nameOf time, Node.file bytes)) (Record.bytes_capped _).symm
  refine ⟨record { f with nextRun := time } :: es, ?_, ?_, ?_, ?_⟩
  · rw [QueueDirectory.push, hf.check]
    simp only [h.timeBeside_eq hf, ht, bind, Except.bind, Entries.find?_eq_none draft, new]
    rfl
  · exact h.stock.insert storable.capped free
  · refine ((h.perm.cons _).trans ?_).trans
      ((MemoryQueue.insert_perm _ fs).map record).symm
    rw [same]
    exact .refl _
  · intro g hg
    rcases List.mem_cons.mp ((MemoryQueue.insert_perm _ fs).mem_iff.mp hg) with rfl | hg
    · exact Filed.capped_capped _
    · exact h.capped g hg

theorem pop_nil (h : Keeps q es []) : QueueDirectory.pop q es = (.error .notFound, es) := by
  rw [QueueDirectory.pop, h.numbered_eq]
  rfl

theorem pop_cons (h : Keeps q es (f :: fs)) :
    QueueDirectory.pop q es = (.ok f, es.erase (nameOf f.nextRun)) ∧
      Keeps q (es.erase (nameOf f.nextRun)) fs := by
  refine ⟨?_, h.erase (.refl _) (List.sublist_cons_self f fs)⟩
  rw [QueueDirectory.pop, h.numbered_eq, List.map_cons]
  rw [popFrom, h.load List.mem_cons_self]

theorem head_eq (h : Keeps q es fs) : head q es = MemoryQueue.head ⟨fs⟩ := by
  rw [head, h.readable_eq]
  cases fs <;> rfl

theorem find?_readable (h : Keeps q es fs) (key : String) :
    (readable q es).find? (·.2.key = key) =
      (fs.find? (·.key = key)).map fun f => (nameOf f.nextRun, f) := by
  rw [h.readable_eq, List.find?_map]
  rfl

theorem get_eq (h : Keeps q es fs) (key : String) :
    get q es key = MemoryQueue.get ⟨fs⟩ key := by
  rw [get, h.find?_readable, MemoryQueue.get]
  cases fs.find? (·.key = key) <;> rfl

theorem remove_none (h : Keeps q es fs) {key : String} (none : fs.find? (·.key = key) = none) :
    remove q es key = .error .notFound := by
  rw [remove, h.find?_readable, none]
  rfl

theorem remove_some (h : Keeps q es fs) {key : String} (found : fs.find? (·.key = key) = some f) :
    remove q es key = .ok (f, es.erase (nameOf f.nextRun)) ∧
      Keeps q (es.erase (nameOf f.nextRun)) (fs.eraseP (·.key = key)) := by
  refine ⟨?_, h.erase (MemoryQueue.find?_eraseP_perm found) List.eraseP_sublist⟩
  rw [remove, h.find?_readable, found]
  rfl

theorem size_eq (h : Keeps q es fs) : size es = fs.length := by
  rw [size, h.numbered_eq, List.length_map]

theorem clear_eq (h : Keeps q es fs) : clear es = [] := by
  rw [clear, h.numbered_eq, List.foldl_map, List.eq_nil_iff_forall_not_mem]
  intro e he
  have ⟨mem, left⟩ := Entries.mem_foldl_erase.mp he
  obtain ⟨f, hf, rfl⟩ := List.mem_map.mp (h.perm.mem_iff.mp mem)
  exact left f hf rfl

end Keeps

end QueueDirectory

/-! ### Stocks on shelves -/

namespace Shelf

/-- The task that is found on a shelf where one was put. -/
def stored : Shelf → Filed → Filed
  | memory _, f => f
  | directory _, f => f.capped

/-- Whether a shelf holds a stock, whose tasks are stored in the given way. -/
def Keeps (q : QueueName) (stored : Filed → Filed) (s : Shelf) (fs : List Filed) : Prop :=
  s.stored = stored ∧ match s with
    | memory queue => queue.tasks = fs ∧ Queue.Stock q fs
    | directory es => QueueDirectory.Keeps q es fs

variable {q : QueueName} {stored : Filed → Filed} {s : Shelf} {fs : List Filed} {f : Filed}

theorem isEmpty.keeps (h : s.isEmpty) : s.Keeps q s.stored [] := by
  cases s with
  | memory queue =>
    obtain rfl := h
    exact ⟨rfl, rfl, .nil q⟩
  | directory es =>
    obtain rfl := h
    exact ⟨rfl, .nil q⟩

@[simp] theorem nextRun_stored (s : Shelf) (f : Filed) : (s.stored f).nextRun = f.nextRun := by
  cases s <;> rfl

theorem stored_eq_self (s : Shelf) {f : Filed}
    (h : f.trigger.duration.nanos ≤ Text.Numeral.maxU64) : s.stored f = f := by
  cases s with
  | memory queue => rfl
  | directory es => exact Filed.capped_eq_self h

@[simp] theorem stored_withNextRun (s : Shelf) (f : Filed) (t : Int) :
    s.stored { s.stored f with nextRun := t } = s.stored { f with nextRun := t } := by
  cases s with
  | memory queue => rfl
  | directory es => exact Filed.capped_capped { f with nextRun := t }

/-- Whatever comes of a push, the shelf stays of its kind. -/
@[simp] theorem stored_push (s : Shelf) (q : QueueName) (f : Filed) :
    (s.push q f).2.stored = s.stored := by
  cases s with
  | memory queue =>
    rw [push]
    cases queue.push q f <;> rfl
  | directory es =>
    rw [push]
    cases QueueDirectory.push q es f <;> rfl

theorem push_error {e : QueueError} (hc : Queue.check q f = .error e) :
    s.push q f = (.error e, s) := by
  cases s with
  | memory queue =>
    rw [Shelf.push, MemoryQueue.push, hc]
    rfl
  | directory es =>
    rw [Shelf.push, QueueDirectory.push, hc]
    rfl

namespace Keeps

theorem stored_eq (h : s.Keeps q stored fs) : s.stored = stored := h.1

theorem stock (h : s.Keeps q stored fs) : Queue.Stock q fs := by
  cases s with
  | memory queue => exact h.2.2
  | directory es => exact h.2.stock

theorem tasks_eq (h : s.Keeps q stored fs) : s.tasks q = fs := by
  cases s with
  | memory queue => exact h.2.1
  | directory es => exact h.2.tasks_eq

theorem timeFor_eq (h : s.Keeps q stored fs) (hf : f.Storable q) :
    s.timeFor f = Queue.timeBeside fs f := by
  cases s with
  | memory queue =>
    obtain ⟨-, rfl, -⟩ := h
    rfl
  | directory es => exact h.2.timeBeside_eq hf

theorem taken_eq (h : s.Keeps q stored fs) {t : Int} (early : Text.Numeral.minI64 ≤ t)
    (late : t ≤ Text.Numeral.maxI64) : s.taken t = fs.any (·.nextRun = t) := by
  cases s with
  | memory queue =>
    obtain ⟨-, rfl, -⟩ := h
    rfl
  | directory es => exact h.2.contains_eq early late

/-- Where the search for a free time comes to an end, there is one. -/
theorem hasSpace (h : s.Keeps q stored fs) (hf : f.Storable q) (room : s.HasRoom f) :
    Queue.HasSpace fs f := by
  have range := Queue.timeBeside_range hf fs
  have free : fs.any (·.nextRun = Queue.timeBeside fs f) = false := by
    rw [← h.taken_eq range.1 range.2, ← h.timeFor_eq hf]
    exact room
  refine ⟨Queue.timeBeside fs f, Queue.le_freeTime _ _ hf.time.2, range.2, ?_⟩
  intro g hg same
  exact List.any_eq_false.mp free g hg (decide_eq_true same)

theorem pop_nil (h : s.Keeps q stored []) : s.pop q = (.error .notFound, s) := by
  cases s with
  | memory queue =>
    obtain ⟨-, none, -⟩ := h
    rw [Shelf.pop, MemoryQueue.pop, none]
    rfl
  | directory es => rw [Shelf.pop, h.2.pop_nil]

theorem pop_cons (h : s.Keeps q stored (f :: fs)) :
    ∃ s', s.pop q = (.ok f, s') ∧ s'.Keeps q stored fs := by
  cases s with
  | memory queue =>
    obtain ⟨same, all, stock⟩ := h
    refine ⟨memory ⟨fs⟩, ?_, same, rfl, stock.tail⟩
    rw [Shelf.pop, MemoryQueue.pop, all]
    rfl
  | directory es =>
    obtain ⟨popped, keeps⟩ := h.2.pop_cons
    refine ⟨directory (es.erase (QueueDirectory.nameOf f.nextRun)), ?_, h.1, keeps⟩
    rw [Shelf.pop, popped]

/-- A task is filed at its time or later. -/
theorem push_ok (h : s.Keeps q stored fs) (hf : f.Storable q) (room : s.HasRoom f) :
    ∃ t s', s.push q f = (.ok t, s') ∧ f.nextRun ≤ t ∧
      s'.Keeps q stored (MemoryQueue.insert (stored { f with nextRun := t }) fs) := by
  have space := h.hasSpace hf room
  have late : f.nextRun ≤ Queue.timeBeside fs f := Queue.le_freeTime _ _ hf.time.2
  cases s with
  | memory queue =>
    obtain ⟨rfl, rfl, stock⟩ := h
    have range := Queue.timeBeside_range hf queue.tasks
    have free := (space.timeBeside hf.time.1).1
    have storable := hf.withNextRun range.1 range.2
    refine ⟨Queue.timeBeside queue.tasks f, memory ⟨MemoryQueue.insert _ queue.tasks⟩, ?_, late,
      rfl, rfl, stock.insert storable free⟩
    rw [Shelf.push, MemoryQueue.push, hf.check]
    rfl
  | directory es =>
    obtain ⟨es', pushed, keeps⟩ := h.2.push hf space
    obtain rfl := h.1
    exact ⟨_, directory es', by rw [Shelf.push, pushed, outcome], late, rfl, keeps⟩

end Keeps

end Shelf

end Galley
