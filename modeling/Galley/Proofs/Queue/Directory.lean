import Galley.Proofs.Queue.Proper
import Galley.Queue.Directory
/-!
# Directories of records

A directory that only the queue itself has written to holds one record for each name, and every name
is the time of its record. In such a directory every entry is readable, and each operation of the
queue changes the tasks by the one it is about.
-/
namespace Galley

/-! ### Entries with distinct names -/

namespace Entries

theorem erase_of_not_contains {es : Entries} {name : String} (h : es.contains name = false) :
    es.erase name = es := by
  rw [erase, List.filter_eq_self]
  intro e he
  simpa using List.any_eq_false.mp h e he

theorem find?_eq_none {es : Entries} {name : String} (h : es.contains name = false) :
    es.find? name = none := by
  rw [find?, Option.map_eq_none_iff, List.find?_eq_none]
  exact List.any_eq_false.mp h

theorem mem_of_find? {es : Entries} {name : String} {node : Node} (h : es.find? name = some node) :
    (name, node) ∈ es := by
  obtain ⟨e, found, rfl⟩ := Option.map_eq_some_iff.mp h
  have named : e.1 = name := by simpa using List.find?_some found
  subst named
  exact List.mem_of_find?_eq_some found

theorem perm_erase {es : Entries} (nodup : (es.map Prod.fst).Nodup) {e : String × Node}
    (h : e ∈ es) : es.Perm (e :: es.erase e.1) := by
  induction es with
  | nil => exact absurd h List.not_mem_nil
  | cons d es ih =>
    rw [List.map_cons, List.nodup_cons] at nodup
    rcases List.mem_cons.mp h with rfl | h
    · have others : contains es e.1 = false := by
        rw [contains, List.any_eq_false]
        intro e' he' hn
        exact nodup.1 (List.mem_map.mpr ⟨e', he', by simpa using hn⟩)
      have same := erase_of_not_contains others
      rw [erase] at same ⊢
      rw [List.filter_cons_of_neg (by simp), same]
    · have other : d.1 ≠ e.1 := fun hd => nodup.1 (hd ▸ List.mem_map_of_mem h)
      have rest := ih nodup.2 h
      rw [erase] at rest ⊢
      rw [List.filter_cons_of_pos (by simpa using other)]
      exact (rest.cons d).trans (.swap e d _)

end Entries

/-! ### Names of entries -/

namespace Text.Numeral

theorem head?_signed (n : Int) : ∃ c cs, signed n = c :: cs ∧ (c = '-' ∨ c.isDigit = true) := by
  obtain ⟨c, cs, h, hc, -⟩ := exists_decimal_eq_cons n.natAbs
  unfold signed
  split
  · exact ⟨'-', _, rfl, .inl rfl⟩
  · exact ⟨c, cs, h, .inr hc⟩

theorem integer?_signed {n : Int} (early : minI64 ≤ n) (late : n ≤ maxI64) :
    integer? (signed n) = some n := by
  unfold signed
  split
  · next h =>
    have value : -(n.natAbs : Int) = n := by omega
    simp only [integer?, digits?_decimal]
    change (some (-(n.natAbs : Int))).filter (minI64 ≤ ·) = some n
    rw [value]
    exact if_pos (decide_eq_true early)
  · next h =>
    obtain ⟨c, cs, hd, hc, -⟩ := exists_decimal_eq_cons n.natAbs
    have minus : c ≠ '-' := by
      rintro rfl
      exact absurd hc (by decide)
    have plus : c ≠ '+' := by
      rintro rfl
      exact absurd hc (by decide)
    have bound : n.natAbs ≤ maxI64.toNat := by
      simp only [maxI64] at late ⊢
      omega
    have value : (n.natAbs : Int) = n := by omega
    have read := digits?_decimal n.natAbs
    rw [hd] at read ⊢
    simp [integer?, count?, minus, plus, read, bound, value, Option.filter]

end Text.Numeral

namespace QueueDirectory

theorem timeOfName?_nameOf {t : Int} (early : Text.Numeral.minI64 ≤ t)
    (late : t ≤ Text.Numeral.maxI64) : timeOfName? (nameOf t) = some t := by
  obtain ⟨c, cs, hs, hc⟩ := Text.Numeral.head?_signed t
  have visible : (nameOf t).toList.head? ≠ some '.' := by
    rw [nameOf, String.toList_append, String.toList_ofList, hs]
    rcases hc with rfl | hc
    · simp
    · rintro h
      obtain rfl := Option.some.inj h
      exact absurd hc (by decide)
  have letters : (nameOf t).toList = Text.Numeral.signed t ++ ".json".toList := by
    rw [nameOf, String.toList_append, String.toList_ofList]
  have ends : ".json".toList.isSuffixOf (Text.Numeral.signed t ++ ".json".toList) = true :=
    List.isSuffixOf_iff_suffix.mpr (List.suffix_append _ _)
  unfold timeOfName?
  simp only [if_neg visible]
  rw [letters, ends, if_pos rfl, List.length_append, Nat.add_sub_cancel, List.take_left]
  exact Text.Numeral.integer?_signed early late

theorem nameOf_injective {t u : Int} (ht : Text.Numeral.minI64 ≤ t ∧ t ≤ Text.Numeral.maxI64)
    (hu : Text.Numeral.minI64 ≤ u ∧ u ≤ Text.Numeral.maxI64) (h : nameOf t = nameOf u) : t = u := by
  have read := timeOfName?_nameOf ht.1 ht.2
  rw [h, timeOfName?_nameOf hu.1 hu.2] at read
  exact (Option.some.inj read).symm

/-- The name under which a record is written first is no name of a record. -/
theorem draft_ne_nameOf (s : String) (t : Int) : "." ++ s ++ ".tmp" ≠ nameOf t := by
  intro h
  obtain ⟨c, cs, hs, hc⟩ := Text.Numeral.head?_signed t
  have first := congrArg (fun n => n.toList.head?) h
  simp only [nameOf, String.toList_append, String.toList_ofList, hs] at first
  have dot : '.' = c := by simpa using first
  subst dot
  rcases hc with hc | hc
  · exact absurd hc (by decide)
  · exact absurd hc (by decide)

/-! ### Directories of the queue's own records -/

def read? (q : QueueName) (e : String × Node) : Option (String × Filed) :=
  (entryOf? e).bind fun (_, name, bytes) => (load q bytes).toOption.map (name, ·)

theorem readable_perm (q : QueueName) (es : Entries) :
    (readable q es).Perm (es.filterMap (read? q)) := by
  have sorted : (numbered es).Perm (es.filterMap entryOf?) := List.mergeSort_perm _ _
  have reads := sorted.filterMap fun (e : Int × String × List UInt8) =>
    (load q e.2.2).toOption.map (e.2.1, ·)
  rw [List.filterMap_filterMap] at reads
  exact reads

theorem tasks_perm (q : QueueName) (es : Entries) :
    (tasks q es).Perm ((es.filterMap (read? q)).map (·.2)) :=
  (readable_perm q es).map _

/-- A directory with nothing but records of the queue, each under its time. -/
structure Tidy (q : QueueName) (es : Entries) : Prop where
  nodup : (es.map Prod.fst).Nodup
  records : ∀ e ∈ es, ∃ f : Filed, f.Proper q ∧ e = (nameOf f.nextRun, .file (Record.bytes f))

theorem tidy_nil (q : QueueName) : Tidy q [] := ⟨List.nodup_nil, fun _ h => nomatch h⟩

theorem load_bytes {q : QueueName} {f : Filed} (h : f.Proper q) :
    load q (Record.bytes f) = .ok f.capped := by
  rw [load, Record.decode_bytes_of_fits h.inRange h.fits]
  simp only [h.capped.check]
  rfl

theorem entryOf?_nameOf {t : Int} (early : Text.Numeral.minI64 ≤ t) (late : t ≤ Text.Numeral.maxI64)
    (bytes : List UInt8) : entryOf? (nameOf t, .file bytes) = some (t, nameOf t, bytes) := by
  rw [entryOf?, timeOfName?_nameOf early late]
  rfl

theorem entryOf?_record {q : QueueName} {f : Filed} (h : f.Proper q) :
    entryOf? (nameOf f.nextRun, .file (Record.bytes f)) =
      some (f.nextRun, nameOf f.nextRun, Record.bytes f) :=
  entryOf?_nameOf h.inRange.early h.inRange.late _

theorem read?_record {q : QueueName} {f : Filed} (h : f.Proper q) :
    read? q (nameOf f.nextRun, .file (Record.bytes f)) = some (nameOf f.nextRun, f.capped) := by
  rw [read?, entryOf?_record h, Option.bind_some]
  simp only [load_bytes h]
  rfl

namespace Tidy

variable {q : QueueName} {es : Entries}

theorem proper (h : Tidy q es) {f : Filed} (hf : f ∈ tasks q es) : f.Proper q := by
  obtain ⟨⟨name, g⟩, hg, rfl⟩ := List.mem_map.mp ((tasks_perm q es).mem_iff.mp hf)
  obtain ⟨e, he, hr⟩ := List.mem_filterMap.mp hg
  obtain ⟨f, proper, rfl⟩ := h.records e he
  rw [read?_record proper] at hr
  obtain rfl := (Prod.mk.inj (Option.some.inj hr)).2
  exact proper.capped

/-- Taking out a record leaves the others. -/
theorem erase (h : Tidy q es) {e : String × Node} (he : e ∈ es) {name : String} {f : Filed}
    (hr : read? q e = some (name, f)) :
    Tidy q (es.erase name) ∧ (tasks q es).Perm (f :: tasks q (es.erase name)) := by
  obtain ⟨g, proper, rfl⟩ := h.records e he
  obtain ⟨rfl, rfl⟩ := Prod.mk.inj (Option.some.inj ((read?_record proper).symm.trans hr))
  have split := Entries.perm_erase h.nodup he
  have kept : (es.erase (nameOf g.nextRun)).Sublist es := List.filter_sublist
  refine ⟨⟨h.nodup.sublist (kept.map _), fun e he => h.records e (kept.mem he)⟩, ?_⟩
  have reads := (split.filterMap (read? q)).map (·.2)
  rw [List.filterMap_cons_some hr, List.map_cons] at reads
  exact (tasks_perm q es).trans (reads.trans ((tasks_perm q _).symm.cons _))

theorem pop (h : Tidy q es) :
    (tasks q es = [] ∧ QueueDirectory.pop q es = (.error .notFound, es)) ∨
      ∃ f es', QueueDirectory.pop q es = (.ok f, es') ∧ Tidy q es' ∧
        (tasks q es).Perm (f :: tasks q es') := by
  unfold QueueDirectory.pop
  cases hn : numbered es with
  | nil =>
    left
    refine ⟨?_, rfl⟩
    rw [tasks, readable, hn]
    rfl
  | cons first rest =>
    right
    have mem : first ∈ es.filterMap entryOf? :=
      (List.mergeSort_perm _ _).mem_iff.mp (hn ▸ List.mem_cons_self : first ∈ numbered es)
    obtain ⟨e, he, hf⟩ := List.mem_filterMap.mp mem
    obtain ⟨f, proper, rfl⟩ := h.records e he
    obtain rfl := Option.some.inj ((entryOf?_record proper).symm.trans hf)
    obtain ⟨tidy, perm⟩ := h.erase he (read?_record proper)
    refine ⟨f.capped, es.erase (nameOf f.nextRun), ?_, tidy, perm⟩
    rw [popFrom, load_bytes proper]

theorem remove (h : Tidy q es) (key : String) :
    ((∀ f ∈ tasks q es, f.key ≠ key) ∧
        QueueDirectory.remove q es key = .error .notFound) ∨
      ∃ f es', f.key = key ∧ QueueDirectory.remove q es key = .ok (f, es') ∧ Tidy q es' ∧
        (tasks q es).Perm (f :: tasks q es') := by
  unfold QueueDirectory.remove
  cases hn : (readable q es).find? (·.2.key = key) with
  | none =>
    left
    refine ⟨fun f hf hk => ?_, rfl⟩
    obtain ⟨r, hr, rfl⟩ := List.mem_map.mp hf
    exact List.find?_eq_none.mp hn r hr (by simpa using hk)
  | some r =>
    right
    have mem := (readable_perm q es).mem_iff.mp (List.mem_of_find?_eq_some hn)
    obtain ⟨e, he, hr⟩ := List.mem_filterMap.mp mem
    obtain ⟨tidy, perm⟩ := h.erase he hr
    exact ⟨r.2, es.erase r.1, by simpa using List.find?_some hn, rfl, tidy, perm⟩

theorem find?_draft (h : Tidy q es) (s : String) : es.contains ("." ++ s ++ ".tmp") = false := by
  rw [Entries.contains, List.any_eq_false]
  intro e he hn
  obtain ⟨f, -, rfl⟩ := h.records e he
  have same : nameOf f.nextRun = "." ++ s ++ ".tmp" := by simpa using hn
  exact draft_ne_nameOf s f.nextRun same.symm

/-- A task is filed under a time that nothing is filed under, and read back as far as its record
holds it. -/
theorem push (h : Tidy q es) {f : Filed} (hf : f.Proper q) {time : Int}
    (ht : time = Queue.freeTime (fun t => es.contains (nameOf t)) es.length f.nextRun)
    (room : es.contains (nameOf time) = false) (early : Text.Numeral.minI64 ≤ time)
    (late : time ≤ Text.Numeral.maxI64) :
    ∃ es', QueueDirectory.push q es f = .ok (time, es') ∧ Tidy q es' ∧
      (tasks q es').Perm ({ f with nextRun := time }.capped :: tasks q es) := by
  have proper := hf.withNextRun early late
  have draft := h.find?_draft (nameOf time)
  have new : (es.erase ("." ++ nameOf time ++ ".tmp")).put (nameOf time)
      (.file (Record.bytes { f with nextRun := time })) =
      (nameOf time, .file (Record.bytes { f with nextRun := time })) :: es := by
    rw [Entries.erase_of_not_contains draft, Entries.put, if_neg (by simp [room])]
  refine ⟨(nameOf time, .file (Record.bytes { f with nextRun := time })) :: es, ?_, ⟨?_, ?_⟩, ?_⟩
  · rw [QueueDirectory.push, hf.check]
    simp only [← ht, bind, Except.bind, Entries.find?_eq_none draft, new]
    rfl
  · rw [List.map_cons, List.nodup_cons]
    refine ⟨fun hm => ?_, h.nodup⟩
    obtain ⟨e, he, hn⟩ := List.mem_map.mp hm
    exact List.any_eq_false.mp room e he (by simpa using hn)
  · rw [List.forall_mem_cons]
    exact ⟨⟨_, proper, rfl⟩, h.records⟩
  · refine (tasks_perm q _).trans ?_
    rw [List.filterMap_cons_some (read?_record proper), List.map_cons]
    exact (tasks_perm q es).symm.cons _

end Tidy

end QueueDirectory

end Galley
