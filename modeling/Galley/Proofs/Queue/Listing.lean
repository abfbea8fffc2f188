import Galley.Proofs.Queue.Recovery
import Galley.Proofs.Queue.Stock
import Mathlib.Data.List.Basic
import Mathlib.Data.List.Nodup
/-!
# Directories with anything in them

A directory of a queue in which others may have put what they like: records that do not decode, files
with other names, directories. Nothing is known of it but that it lists each name once. Main
statements: what a pop, a removal and a push make of the entries in their order, whatever else is there.
-/
namespace Galley

/-! ### Sorting and filtering -/

section Lists

variable {α : Type}

/-- A list can be cut in one way only into elements with a property and elements without it. -/
theorem cut_unique {p : α → Bool} {as bs cs ds : List α} (h : as ++ bs = cs ++ ds)
    (has : ∀ a ∈ as, p a = true) (hbs : ∀ b ∈ bs, p b = false) (hcs : ∀ c ∈ cs, p c = true)
    (hds : ∀ d ∈ ds, p d = false) : as = cs ∧ bs = ds := by
  have first {xs ys : List α} (hx : ∀ x ∈ xs, p x = true) (hy : ∀ y ∈ ys, p y = false) :
      (xs ++ ys).filter p = xs := by
    rw [List.filter_append, List.filter_eq_self.mpr hx,
      List.filter_eq_nil_iff.mpr fun y h => by simp [hy y h], List.append_nil]
  have same : as = cs := by rw [← first has hbs, h, first hcs hds]
  exact ⟨same, List.append_cancel_left (same ▸ h)⟩

/-- What is left out does not matter to the order of what is kept. -/
theorem filter_mergeSort {le : α → α → Bool}
    (trans : ∀ a b c, le a b = true → le b c = true → le a c = true)
    (total : ∀ a b, (le a b || le b a) = true) (p : α → Bool) (as : List α) :
    (as.mergeSort le).filter p = (as.filter p).mergeSort le := by
  induction as with
  | nil => simp
  | cons a as ih =>
    obtain ⟨before, behind, whole, rest, less⟩ := List.mergeSort_cons trans total a as
    rw [rest, List.filter_append] at ih
    by_cases ha : p a = true
    · obtain ⟨before', behind', whole', rest', less'⟩ :=
        List.mergeSort_cons trans total a (as.filter p)
      -- both sides are cut where the new element comes in
      have ordered := List.pairwise_mergeSort trans total (a :: as)
      have ordered' := List.pairwise_mergeSort trans total (a :: as.filter p)
      rw [whole] at ordered
      rw [whole'] at ordered'
      have more := (List.pairwise_cons.mp (List.pairwise_append.mp ordered).2.1).1
      have more' := (List.pairwise_cons.mp (List.pairwise_append.mp ordered').2.1).1
      rw [rest'] at ih
      obtain ⟨first, last⟩ := cut_unique (p := fun b => !le a b) ih
        (fun b hb => less b (List.mem_of_mem_filter hb))
        (fun b hb => by simp [more b (List.mem_of_mem_filter hb)]) less'
        (fun b hb => by simp [more' b hb])
      rw [whole, List.filter_append, List.filter_cons_of_pos ha, List.filter_cons_of_pos ha, whole',
        first, last]
    · rw [whole, List.filter_append, List.filter_cons_of_neg ha, List.filter_cons_of_neg ha, ih]

end Lists

namespace Entries

/-- Whether each name is listed once. -/
def Distinct (es : Entries) : Prop := (es.map Prod.fst).Nodup

theorem Distinct.sublist {es es' : Entries} (h : es.Distinct) (less : es'.Sublist es) :
    es'.Distinct :=
  List.Nodup.sublist (less.map Prod.fst) h

theorem Distinct.find?_eq_some {es : Entries} (names : es.Distinct) {e : String × Node} (he : e ∈ es) :
    es.find? e.1 = some e.2 := by
  unfold find?
  cases found : List.find? (·.1 = e.1) es with
  | none => exact absurd (decide_eq_true rfl) (List.find?_eq_none.mp found e he)
  | some e' =>
    have named : e'.1 = e.1 := by simpa using List.find?_some found
    have same : e' = e := List.inj_on_of_nodup_map names (List.mem_of_find?_eq_some found) he named
    rw [same]
    rfl

theorem foldl_erase {α : Type} (name : α → String) (as : List α) (es : Entries) :
    as.foldl (fun es a => es.erase (name a)) es = es.filter fun e => ∀ a ∈ as, e.1 ≠ name a := by
  induction as generalizing es with
  | nil => simp
  | cons a as ih =>
    rw [List.foldl_cons, ih, erase, List.filter_filter]
    refine List.filter_congr fun e _ => ?_
    simp only [List.forall_mem_cons, Bool.decide_and, Bool.and_comm]

end Entries

theorem Node.Plain.sublist {es es' : Entries} (h : Plain es) (names : es.Distinct)
    (less : es'.Sublist es) : Plain es' := by
  intro name inner found
  have mem := less.mem (Entries.mem_of_find? found)
  exact h name inner (names.find?_eq_some mem)

namespace QueueDirectory

/-! ### Entries in order -/

/-- An entry with its number, its name and its bytes. -/
abbrev Entry := Int × String × List UInt8

variable {q : QueueName} {es : Entries}

theorem name_eq_of_entry {e : String × Node} {d : Entry} (h : entryOf? e = some d) : d.2.1 = e.1 := by
  unfold entryOf? at h
  split at h
  · obtain ⟨t, -, rfl⟩ := Option.map_eq_some_iff.mp h
    rfl
  · exact nomatch h

theorem numbered_perm (es : Entries) : (numbered es).Perm (es.filterMap entryOf?) :=
  List.mergeSort_perm _ _

theorem number_trans (a b c : Entry) (h : decide (a.1 ≤ b.1) = true)
    (h' : decide (b.1 ≤ c.1) = true) : decide (a.1 ≤ c.1) = true := by
  simp only [decide_eq_true_eq] at h h' ⊢
  exact Int.le_trans h h'

theorem number_total (a b : Entry) : (decide (a.1 ≤ b.1) || decide (b.1 ≤ a.1)) = true := by
  simp only [Bool.or_eq_true, decide_eq_true_eq]
  exact Int.le_total _ _

/-- What is left without some entries. -/
def without (es : Entries) (ds : List Entry) : Entries :=
  es.filter fun e => ∀ d ∈ ds, entryOf? e ≠ some d

theorem without_sublist (es : Entries) (ds : List Entry) : (without es ds).Sublist es :=
  List.filter_sublist

/-- The other entries stay in their order. -/
theorem numbered_without (es : Entries) (ds : List Entry) :
    numbered (without es ds) = (numbered es).filter (· ∉ ds) := by
  unfold numbered without
  rw [filter_mergeSort number_trans number_total, List.filterMap_filter, List.filter_filterMap]
  refine congrArg (List.mergeSort · _) (List.filterMap_congr fun e _ => ?_)
  cases entryOf? e with
  | none => simp
  | some d => simp [Option.filter, List.forall_mem_ne]

/-- A new entry comes somewhere among the others. -/
theorem numbered_cons {e : String × Node} {d : Entry} (h : entryOf? e = some d) (es : Entries) :
    ∃ before behind, numbered (e :: es) = before ++ d :: behind ∧
      numbered es = before ++ behind := by
  obtain ⟨before, behind, whole, rest, -⟩ :=
    List.mergeSort_cons number_trans number_total d (es.filterMap entryOf?)
  refine ⟨before, behind, ?_, rest⟩
  rw [numbered, List.filterMap_cons_some h]
  exact whole

theorem numbered_names_nodup (names : es.Distinct) : ((numbered es).map (·.2.1)).Nodup := by
  rw [((numbered_perm es).map _).nodup_iff]
  have kept : ((es.filterMap entryOf?).map (·.2.1)).Sublist (es.map Prod.fst) := by
    clear names
    induction es with
    | nil => exact .slnil
    | cons e es ih =>
      cases he : entryOf? e with
      | none =>
        rw [List.filterMap_cons_none he]
        exact ih.cons _
      | some d =>
        rw [List.filterMap_cons_some he, List.map_cons, List.map_cons, name_eq_of_entry he]
        exact ih.cons_cons _
  exact List.Nodup.sublist kept names

theorem numbered_nodup (names : es.Distinct) : (numbered es).Nodup :=
  (numbered_names_nodup names).of_map _

/-- Where each name is listed once, a name stands for its entry. -/
theorem erase_eq_without (names : es.Distinct) {d : Entry} (hd : d ∈ numbered es) :
    es.erase d.2.1 = without es [d] := by
  obtain ⟨e, he, hed⟩ := List.mem_filterMap.mp ((numbered_perm es).mem_iff.mp hd)
  refine List.filter_congr fun e' he' => ?_
  have same : e'.1 = d.2.1 ↔ entryOf? e' = some d := by
    constructor
    · intro named
      rw [name_eq_of_entry hed] at named
      rw [List.inj_on_of_nodup_map names he' he named, hed]
    · exact fun h => (name_eq_of_entry h).symm
  simp [same]

theorem foldl_erase_eq_without (names : es.Distinct) {ds : List Entry}
    (hds : ∀ d ∈ ds, d ∈ numbered es) :
    ds.foldl (fun es d => es.erase d.2.1) es = without es ds := by
  rw [Entries.foldl_erase]
  refine List.filter_congr fun e he => ?_
  have same (d : Entry) (hd : d ∈ ds) : e.1 ≠ d.2.1 ↔ entryOf? e ≠ some d := by
    have one := congrArg (e ∈ ·) (erase_eq_without names (hds d hd))
    simpa [Entries.erase, without, he] using one
  rw [decide_eq_decide]
  exact forall₂_congr same

/-! ### Records that are passed over -/

/-- Whether an entry's record does not decode or holds a task that may not be in the queue. -/
def Spoilt (q : QueueName) (d : Entry) : Prop := ∃ e, load q d.2.2 = .error e

/-- The entries up to the first one that is not spoilt. -/
theorem exists_first (q : QueueName) (ds : List Entry) :
    (∀ d ∈ ds, Spoilt q d) ∨ ∃ before d behind f, ds = before ++ d :: behind ∧
      (∀ b ∈ before, Spoilt q b) ∧ load q d.2.2 = .ok f := by
  induction ds with
  | nil => exact .inl fun _ h => nomatch h
  | cons d ds ih =>
    cases hd : load q d.2.2 with
    | ok f => exact .inr ⟨[], d, ds, f, rfl, by simp, hd⟩
    | error e =>
      rcases ih with all | ⟨before, d', behind, f, rfl, spoilt, hf⟩
      · exact .inl (List.forall_mem_cons.mpr ⟨⟨e, hd⟩, all⟩)
      · exact .inr ⟨d :: before, d', behind, f, rfl, List.forall_mem_cons.mpr ⟨⟨e, hd⟩, spoilt⟩, hf⟩

theorem loaded_of_spoilt {ds : List Entry} (h : ∀ d ∈ ds, Spoilt q d) : loaded q ds = [] := by
  rw [loaded, List.filterMap_eq_nil_iff]
  intro d hd
  obtain ⟨e, he⟩ := h d hd
  rw [he]
  rfl

theorem loaded_append (q : QueueName) (ds ds' : List Entry) :
    loaded q (ds ++ ds') = loaded q ds ++ loaded q ds' :=
  List.filterMap_append

theorem popFrom_append {before : List Entry} (h : ∀ d ∈ before, Spoilt q d) (es : Entries)
    (rest : List Entry) : popFrom q es (before ++ rest) =
      popFrom q (before.foldl (fun es d => es.erase d.2.1) es) rest := by
  induction before generalizing es with
  | nil => rfl
  | cons d before ih =>
    obtain ⟨⟨e, he⟩, spoilt⟩ := List.forall_mem_cons.mp h
    rw [List.cons_append, popFrom]
    simp only [he]
    exact ih spoilt _

/-- A pop of a directory where every record is spoilt finds nothing and deletes all of them. -/
theorem pop_of_spoilt (names : es.Distinct) (h : ∀ d ∈ numbered es, Spoilt q d) :
    pop q es = (.error .notFound, without es (numbered es)) := by
  have all := popFrom_append h es []
  rw [List.append_nil, foldl_erase_eq_without names fun d hd => hd] at all
  exact all

/-- A pop gives the first record that is not spoilt and deletes it and those before it. -/
theorem pop_of_load (names : es.Distinct) {before behind : List Entry} {d : Entry} {f : Filed}
    (whole : numbered es = before ++ d :: behind) (spoilt : ∀ b ∈ before, Spoilt q b)
    (hf : load q d.2.2 = .ok f) : pop q es = (.ok f, without es (before ++ [d])) := by
  have listed (b : Entry) (hb : b ∈ before ++ [d]) : b ∈ numbered es := by
    rw [whole, List.append_cons]
    exact List.mem_append_left behind hb
  rw [pop, whole, popFrom_append spoilt, popFrom]
  simp only [hf]
  rw [← foldl_erase_eq_without names listed, List.foldl_append]
  rfl

theorem numbered_without_append (names : es.Distinct) {before taken behind : List Entry}
    (whole : numbered es = before ++ (taken ++ behind)) :
    numbered (without es taken) = before ++ behind := by
  have nodup := numbered_nodup names
  rw [whole, List.nodup_append] at nodup
  obtain ⟨-, inner, apart⟩ := nodup
  have first : before.filter (· ∉ taken) = before := by
    rw [List.filter_eq_self]
    intro d hd
    exact decide_eq_true fun hd' => apart d hd d (List.mem_append_left _ hd') rfl
  have last : behind.filter (· ∉ taken) = behind := by
    rw [List.filter_eq_self]
    intro d hd
    exact decide_eq_true fun hd' => (List.nodup_append.mp inner).2.2 d hd' d hd rfl
  rw [numbered_without, whole, List.filter_append, List.filter_append, first, last,
    List.filter_eq_nil_iff.mpr (by simp), List.nil_append]

theorem head_eq (q : QueueName) (es : Entries) :
    head q es = match tasks q es with
      | [] => .error .notFound
      | f :: _ => .ok f := by
  unfold head tasks
  cases readable q es <;> rfl

/-- A removal finds nothing or deletes a record with a task under the key. -/
theorem remove_cases (names : es.Distinct) (q : QueueName) (key : String) :
    ((∀ f ∈ tasks q es, f.key ≠ key) ∧ remove q es key = .error .notFound) ∨
      ∃ d f, d ∈ numbered es ∧ load q d.2.2 = .ok f ∧ f.key = key ∧
        remove q es key = .ok (f, without es [d]) := by
  unfold remove
  cases hr : (readable q es).find? (·.2.key = key) with
  | none =>
    left
    refine ⟨fun f hf same => ?_, rfl⟩
    obtain ⟨r, hm, rfl⟩ := List.mem_map.mp hf
    exact List.find?_eq_none.mp hr r hm (by simpa using same)
  | some r =>
    right
    have keyed : r.2.key = key := by simpa using List.find?_some hr
    obtain ⟨d, hd, read⟩ := List.mem_filterMap.mp (List.mem_of_find?_eq_some hr)
    cases hf : load q d.2.2 with
    | error e => simp [hf, Except.toOption] at read
    | ok f =>
      obtain rfl : (d.2.1, f) = r := by simpa [hf, Except.toOption] using read
      refine ⟨d, f, hd, hf, keyed, ?_⟩
      rw [← erase_eq_without names hd]

/-! ### Records that come in -/

theorem entryOf?_draft (time : Int) (node : Node) :
    entryOf? ("." ++ nameOf time ++ ".tmp", node) = none := by
  have hidden : timeOfName? ("." ++ nameOf time ++ ".tmp") = none := by
    unfold timeOfName?
    exact if_pos (by simp [String.toList_append])
  unfold entryOf?
  cases node with
  | file bytes => simp [hidden]
  | directory inner => rfl

theorem numbered_erase_draft (es : Entries) (time : Int) :
    numbered (es.erase ("." ++ nameOf time ++ ".tmp")) = numbered es := by
  unfold numbered Entries.erase
  rw [List.filterMap_filter]
  refine congrArg (List.mergeSort · _) (List.filterMap_congr fun e _ => ?_)
  split
  · rfl
  · next same =>
    have draft : e.1 = "." ++ nameOf time ++ ".tmp" := by simpa using same
    rw [← entryOf?_draft time e.2, ← draft]

/-- The directory when the record of a task was put under a time that was free, in the place of its draft. -/
def withRecord (es : Entries) (f : Filed) (time : Int) : Entries :=
  (nameOf time, .file (Record.bytes { f with nextRun := time })) ::
    es.erase ("." ++ nameOf time ++ ".tmp")

section Record

variable {f : Filed} {time : Int}

theorem contains_erase {name : String} (room : es.contains name = false) (other : String) :
    (es.erase other).contains name = false := by
  rw [Entries.contains, List.any_eq_false] at room ⊢
  exact fun e he => room e (List.mem_of_mem_filter he)

theorem withRecord_distinct (names : es.Distinct) (room : es.contains (nameOf time) = false) :
    (withRecord es f time).Distinct := by
  refine List.nodup_cons.mpr ⟨fun hm => ?_, names.sublist List.filter_sublist⟩
  obtain ⟨e, he, hn⟩ := List.mem_map.mp hm
  exact List.any_eq_false.mp (contains_erase room _) e he (by simpa using hn)

theorem find?_withRecord (es : Entries) (f : Filed) (time : Int) (name : String) :
    (withRecord es f time).find? name =
      if name = nameOf time then some (.file (Record.bytes { f with nextRun := time }))
      else if name = "." ++ nameOf time ++ ".tmp" then none
      else es.find? name := by
  rw [withRecord, Entries.find?_cons, Entries.find?_erase]
  simp only [eq_comm]

theorem numbered_withRecord (es : Entries) (f : Filed) (early : Text.Numeral.minI64 ≤ time)
    (late : time ≤ Text.Numeral.maxI64) :
    ∃ before behind, numbered es = before ++ behind ∧ numbered (withRecord es f time) =
      before ++ (time, nameOf time, Record.bytes { f with nextRun := time }) :: behind := by
  obtain ⟨before, behind, whole, old⟩ :=
    numbered_cons (entryOf?_nameOf early late _) (es.erase ("." ++ nameOf time ++ ".tmp"))
  rw [numbered_erase_draft] at old
  exact ⟨before, behind, old, whole⟩

/-- A push that finds a free time fails only where the draft cannot be written. -/
theorem push_eq (hf : f.Storable q)
    (ht : time = Queue.freeTime (fun t => es.contains (nameOf t)) es.length f.nextRun)
    (room : es.contains (nameOf time) = false) :
    (∃ inner, es.find? ("." ++ nameOf time ++ ".tmp") = some (.directory inner)) ∧
        push q es f = .error (.io .isDirectory) ∨
      (∀ inner, es.find? ("." ++ nameOf time ++ ".tmp") ≠ some (.directory inner)) ∧
        push q es f = .ok (time, withRecord es f time) := by
  unfold push
  rw [hf.check]
  simp only [← ht, bind, Except.bind]
  split
  · next inner found => exact .inl ⟨⟨inner, found⟩, rfl⟩
  · next noDirectory =>
    rw [Entries.put, if_neg (by simp [contains_erase room])]
    exact .inr ⟨noDirectory, rfl⟩

/-- What is pushed is one task among the others. -/
theorem push_cases (names : es.Distinct) (hf : f.Storable q)
    (ht : time = Queue.freeTime (fun t => es.contains (nameOf t)) es.length f.nextRun)
    (room : es.contains (nameOf time) = false) :
    push q es f = .error (.io .isDirectory) ∨
      ∃ es' before behind, push q es f = .ok (time, es') ∧ es'.Distinct ∧
        tasks q es = before ++ behind ∧
        tasks q es' = before ++ { f with nextRun := time }.capped :: behind := by
  have range := Queue.freeTime_range (fun t => es.contains (nameOf t)) es.length hf.time.1 hf.time.2
  rw [← ht] at range
  refine (push_eq hf ht room).imp And.right ?_
  rintro ⟨-, pushed⟩
  obtain ⟨before, behind, old, whole⟩ := numbered_withRecord es f range.1 range.2
  refine ⟨_, loaded q before, loaded q behind, pushed, withRecord_distinct names room, ?_, ?_⟩
  · rw [tasks_eq_loaded, old, loaded_append]
  · rw [tasks_eq_loaded, whole, loaded_append,
      loaded_cons_of_load (hf.withNextRun range.1 range.2).load_bytes]

end Record

end QueueDirectory

/-! ### Shelves with anything on them -/

theorem MemoryQueue.exists_insert (f : Filed) (fs : List Filed) :
    ∃ before behind, fs = before ++ behind ∧ insert f fs = before ++ f :: behind := by
  induction fs with
  | nil => exact ⟨[], [], rfl, rfl⟩
  | cons g rest ih =>
    rw [insert]
    split
    · exact ⟨[], g :: rest, rfl, rfl⟩
    · obtain ⟨before, behind, whole, new⟩ := ih
      exact ⟨g :: before, behind, congrArg _ whole, congrArg _ new⟩

namespace Shelf

/-- Whether what lies on a shelf has names of its own. -/
def Named : Shelf → Prop
  | memory _ => True
  | directory es => es.Distinct

variable {q : QueueName} {s : Shelf}

/-- A removal finds nothing or takes out a task under the key. -/
theorem Named.remove (h : s.Named) (q : QueueName) (key : String) :
    (s.remove q key = (.error .notFound, s) ∧ ∀ f ∈ s.tasks q, f.key ≠ key) ∨
      ∃ f s', s.remove q key = (.ok f, s') ∧ s'.Named ∧
        (s'.tasks q).filter (·.key ≠ key) = (s.tasks q).filter (·.key ≠ key) := by
  cases s with
  | memory queue =>
    rw [Shelf.remove, MemoryQueue.remove]
    cases found : queue.tasks.find? (·.key = key) with
    | none =>
      left
      refine ⟨rfl, fun f hf own => ?_⟩
      exact List.find?_eq_none.mp found f hf (by simpa using own)
    | some f =>
      right
      refine ⟨f, _, rfl, trivial, ?_⟩
      have same := MemoryQueue.filter_eraseP (fun g : Filed => decide (g.key = key)) queue.tasks
      simp only [← decide_not] at same
      exact same
  | directory es =>
    rw [Shelf.remove]
    rcases QueueDirectory.remove_cases h q key with ⟨others, hr⟩ | ⟨d, f, hd, hf, own, hr⟩
    · left
      rw [hr]
      exact ⟨rfl, others⟩
    · right
      rw [hr]
      refine ⟨f, _, rfl, h.sublist (QueueDirectory.without_sublist es [d]), ?_⟩
      obtain ⟨before, behind, whole⟩ := List.append_of_mem hd
      have cut : QueueDirectory.numbered es = before ++ ([d] ++ behind) := whole
      have left := QueueDirectory.numbered_without_append h cut
      change (QueueDirectory.tasks q _).filter _ = (QueueDirectory.tasks q _).filter _
      rw [QueueDirectory.tasks_eq_loaded, QueueDirectory.tasks_eq_loaded, left, whole,
        QueueDirectory.loaded_append, QueueDirectory.loaded_append,
        QueueDirectory.loaded_cons_of_load hf, List.filter_append, List.filter_append,
        List.filter_cons_of_neg (by simpa using own)]

/-- A push fails only where a directory is in the way, and otherwise puts the task at its time or later
among the others. -/
theorem Named.push (h : s.Named) {f : Filed} (hf : f.Storable q) (room : s.HasRoom f) :
    s.push q f = (.error (.io .isDirectory), s) ∨
      ∃ t s' before behind, s.push q f = (.ok t, s') ∧ f.nextRun ≤ t ∧
        t ≤ Text.Numeral.maxI64 ∧ s'.Named ∧ s.tasks q = before ++ behind ∧
        s'.tasks q = before ++ s.stored { f with nextRun := t } :: behind := by
  have late (taken : Int → Bool) (fuel : Nat) := Queue.le_freeTime taken fuel hf.time.2
  have last (taken : Int → Bool) (fuel : Nat) :=
    (Queue.freeTime_range taken fuel hf.time.1 hf.time.2).2
  cases s with
  | memory queue =>
    right
    obtain ⟨before, behind, whole, new⟩ := MemoryQueue.exists_insert
      { f with nextRun := (memory queue).timeFor f } queue.tasks
    refine ⟨(memory queue).timeFor f, memory ⟨MemoryQueue.insert _ queue.tasks⟩, before, behind,
      ?_, late _ _, last _ _, trivial, whole, new⟩
    rw [Shelf.push, MemoryQueue.push, hf.check]
    rfl
  | directory es =>
    rw [Shelf.push]
    rcases QueueDirectory.push_cases h hf rfl room with
      failed | ⟨es', before, behind, pushed, names, whole, new⟩
    · left
      rw [failed]
      rfl
    · right
      rw [pushed]
      exact ⟨_, directory es', before, behind, rfl, late _ _, last _ _, names, whole, new⟩

end Shelf

end Galley
