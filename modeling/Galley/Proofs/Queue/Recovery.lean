import Galley.Proofs.Queue.Directory
import Mathlib.Data.List.Basic
/-!
# Recovery of a queue

What a restart leaves of a directory with nothing but the queue's own records. Main statement: the
look through it never fails and leaves such a directory, with the tasks that have not expired.
-/
namespace Galley.QueueDirectory

def loaded (q : QueueName) (entries : List (Int × String × List UInt8)) : List Filed :=
  entries.filterMap fun e => (load q e.2.2).toOption

theorem tasks_eq_loaded (q : QueueName) (es : Entries) : tasks q es = loaded q (numbered es) := by
  unfold tasks readable loaded
  rw [List.map_filterMap]
  refine List.filterMap_congr fun e _ => ?_
  obtain ⟨t, name, bytes⟩ := e
  dsimp only
  cases load q bytes <;> rfl

theorem loaded_cons_of_load {q : QueueName} {bytes : List UInt8} {f : Filed}
    (h : load q bytes = .ok f) (name : String) (t : Int)
    (rest : List (Int × String × List UInt8)) :
    loaded q ((t, name, bytes) :: rest) = f :: loaded q rest := by
  unfold loaded
  rw [List.filterMap_cons_some]
  rw [h]
  rfl

theorem loaded_cons {q : QueueName} {f : Filed} (h : f.Proper q) (name : String) (t : Int)
    (rest : List (Int × String × List UInt8)) :
    loaded q ((t, name, Record.bytes f) :: rest) = f.capped :: loaded q rest :=
  loaded_cons_of_load (load_bytes h) name t rest

theorem mem_tasks_of_record {q : QueueName} {es : Entries} {f : Filed} (h : f.Proper q)
    (mem : (nameOf f.nextRun, Node.file (Record.bytes f)) ∈ es) : f.capped ∈ tasks q es :=
  (tasks_perm q es).mem_iff.mpr
    (List.mem_map.mpr ⟨_, List.mem_filterMap.mpr ⟨_, mem, read?_record h⟩, rfl⟩)

/-- Entries that are records of the directory, each under a name of its own. -/
structure Listed (q : QueueName) (es : Entries)
    (entries : List (Int × String × List UInt8)) : Prop where
  nodup : (entries.map (·.2.1)).Nodup
  records : ∀ e ∈ entries, ∃ f : Filed, f.Proper q ∧
    (nameOf f.nextRun, Node.file (Record.bytes f)) ∈ es ∧
    e = (f.nextRun, nameOf f.nextRun, Record.bytes f)

variable {q : QueueName} {es : Entries}

theorem Listed.tail {e : Int × String × List UInt8} {rest : List (Int × String × List UInt8)}
    (h : Listed q es (e :: rest)) : Listed q es rest where
  nodup := (List.nodup_cons.mp h.nodup).2
  records d hd := h.records d (List.mem_cons_of_mem _ hd)

/-- The entries behind one that is deleted stay. -/
theorem Listed.erase {e : Int × String × List UInt8} {rest : List (Int × String × List UInt8)}
    (h : Listed q es (e :: rest)) : Listed q (es.erase e.2.1) rest where
  nodup := h.tail.nodup
  records d hd := by
    obtain ⟨f, proper, mem, rfl⟩ := h.tail.records d hd
    have other : nameOf f.nextRun ≠ e.2.1 := fun same =>
      (List.nodup_cons.mp h.nodup).1 (List.mem_map.mpr ⟨_, hd, same⟩)
    exact ⟨f, proper, List.mem_filter.mpr ⟨mem, by simpa using other⟩, rfl⟩

theorem Tidy.listed (h : Tidy q es) : Listed q es (numbered es) where
  nodup := by
    have names : (es.filterMap entryOf?).map (·.2.1) = es.map Prod.fst := by
      rw [List.map_filterMap, ← List.filterMap_eq_map]
      refine List.filterMap_congr fun e he => ?_
      obtain ⟨f, proper, rfl⟩ := h.records e he
      rw [entryOf?_record proper]
      rfl
    have perm : (numbered es).Perm (es.filterMap entryOf?) := List.mergeSort_perm _ _
    rw [(perm.map _).nodup_iff, names]
    exact h.nodup
  records d hd := by
    obtain ⟨e, he, hr⟩ := List.mem_filterMap.mp ((List.mergeSort_perm _ _).mem_iff.mp hd)
    obtain ⟨f, proper, rfl⟩ := h.records e he
    exact ⟨f, proper, he, Option.some.inj (hr.symm.trans (entryOf?_record proper))⟩

/-- A look through some entries deletes those of them that have expired. -/
theorem Tidy.recoverFrom (h : Tidy q es) {rest : List (Int × String × List UInt8)}
    (listed : Listed q es rest) (report : Recovery) :
    ∃ report' es', QueueDirectory.recoverFrom q es report rest = (.ok report', es') ∧ Tidy q es' ∧
      (tasks q es).Perm ((loaded q rest).filter (·.trigger.isExpired) ++ tasks q es') := by
  induction rest generalizing es report with
  | nil => exact ⟨report, es, rfl, h, .refl _⟩
  | cons e rest ih =>
    obtain ⟨f, proper, mem, rfl⟩ := listed.records e List.mem_cons_self
    rw [loaded_cons proper]
    by_cases expired : f.capped.trigger.isExpired = true
    · obtain ⟨tidy, perm⟩ := h.erase mem (read?_record proper)
      obtain ⟨report', es', hr, tidy', perm'⟩ :=
        ih tidy listed.erase { report with removed := report.removed + 1 }
      refine ⟨report', es', ?_, tidy', ?_⟩
      · rw [QueueDirectory.recoverFrom, recoverEntry]
        simp only [load_bytes proper, if_pos expired]
        exact hr
      · rw [List.filter_cons_of_pos (by simpa using expired), List.cons_append]
        exact perm.trans (perm'.cons _)
    · obtain ⟨report', es', hr, tidy', perm'⟩ :=
        ih h listed.tail { report with kept := report.kept + 1 }
      refine ⟨report', es', ?_, tidy', ?_⟩
      · have same : f.capped.nextRun = f.nextRun := rfl
        rw [QueueDirectory.recoverFrom, recoverEntry]
        simp only [load_bytes proper, if_neg expired, if_pos same]
        exact hr
      · rw [List.filter_cons_of_neg (by simpa using expired)]
        exact perm'

/-- A restart keeps the tasks that have not expired. -/
theorem Tidy.recover (h : Tidy q es) :
    ∃ report es', QueueDirectory.recover q es = (.ok report, es') ∧ Tidy q es' ∧
      ∀ f, f ∈ tasks q es' ↔ f ∈ tasks q es ∧ f.trigger.isExpired = false := by
  obtain ⟨report, es', hr, tidy, perm⟩ := h.recoverFrom h.listed ⟨0, 0⟩
  refine ⟨report, es', hr, tidy, fun f => ?_⟩
  rw [← tasks_eq_loaded] at perm
  have split := List.filter_append_perm (·.trigger.isExpired) (tasks q es)
  have left : (tasks q es').Perm ((tasks q es).filter fun f => !f.trigger.isExpired) :=
    (List.perm_append_left_iff _).mp (perm.symm.trans split.symm)
  rw [left.mem_iff, List.mem_filter, Bool.not_eq_true']

end Galley.QueueDirectory
