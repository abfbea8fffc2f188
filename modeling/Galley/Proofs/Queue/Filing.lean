import Galley.Proofs.Queue.Normalisation
import Mathlib.Data.Int.LeastGreatest
import Mathlib.Order.Bounds.Basic
/-!
# Tasks filed among files of any names

A record may be read under many names: `7`, `07`, `+7` and `7.json` all tell the time 7. The search for a
free time looks for `7.json` alone. Main statement: a push into a directory of files takes the least time
whose own name is free, adds one record and leaves everything else. That is also the least time that no
entry tells, unless one on the way to it is told under other names only; then the push ends at that time
and two entries tell it.
-/
namespace Galley

namespace QueueDirectory

variable {q : QueueName} {es es' : Entries} {f : Filed}

/-! ### Times that are free -/

/-- The times from a given one on that no entry tells. -/
def untold (es : Entries) (t : Int) : Set Int :=
  {u | t ≤ u ∧ ∀ d ∈ numbered es, d.1 ≠ u}

/-- The times from a given one on whose own names are free. -/
def unnamed (es : Entries) (t : Int) : Set Int :=
  {u | t ≤ u ∧ es.contains (nameOf u) = false}

/-- Among files every name of a time belongs to an entry. -/
theorem exists_entry_of_contains (plain : Node.Plain es) {t : Int} (early : Text.Numeral.minI64 ≤ t)
    (late : t ≤ Text.Numeral.maxI64) (there : es.contains (nameOf t) = true) :
    ∃ d ∈ numbered es, d.1 = t := by
  cases found : es.find? (nameOf t) with
  | none =>
    rw [Entries.find?, Option.map_eq_none_iff, List.find?_eq_none] at found
    obtain ⟨e, he, named⟩ := List.any_eq_true.mp there
    exact absurd named (found e he)
  | some node =>
    cases node with
    | directory inner => exact absurd found (plain (nameOf t) inner)
    | file bytes =>
      refine ⟨(t, nameOf t, bytes), (numbered_perm es).mem_iff.mpr ?_, rfl⟩
      exact List.mem_filterMap.mpr ⟨_, Entries.mem_of_find? found, entryOf?_nameOf early late bytes⟩

/-- Among files a time that no entry tells has a free name. -/
theorem unnamed_of_untold (plain : Node.Plain es) {t u : Int} (early : Text.Numeral.minI64 ≤ t)
    (h : u ∈ untold es t) (late : u ≤ Text.Numeral.maxI64) : u ∈ unnamed es t := by
  obtain ⟨after, none⟩ := h
  refine ⟨after, Bool.eq_false_iff.mpr fun there => ?_⟩
  obtain ⟨d, hd, told⟩ := exists_entry_of_contains plain (Int.le_trans early after) late there
  exact none d hd told

/-- The least time that no entry tells is the least one with a free name exactly when every time before it
that an entry tells has its own name in the directory too. -/
theorem least_unnamed_eq_iff (plain : Node.Plain es) {t u s : Int} (early : Text.Numeral.minI64 ≤ t)
    (named : IsLeast (unnamed es t) u) (told : IsLeast (untold es t) s)
    (late : s ≤ Text.Numeral.maxI64) :
    u = s ↔ ∀ d ∈ numbered es, t ≤ d.1 → d.1 < s → es.contains (nameOf d.1) = true := by
  have before : u ≤ s := named.2 (unnamed_of_untold plain early told.1 late)
  constructor
  · rintro rfl d - after less
    by_contra unused
    have := named.2 ⟨after, Bool.eq_false_iff.mpr unused⟩
    omega
  · intro owned
    by_contra other
    -- an earlier time with a free name is told by an entry, whose own name would have to be there
    have apart : u ∉ untold es t := fun free => other (Int.le_antisymm before (told.2 free))
    obtain ⟨d, hd, same⟩ : ∃ d ∈ numbered es, d.1 = u := by
      by_contra none
      exact apart ⟨named.1.1, fun d hd same => none ⟨d, hd, same⟩⟩
    have there := owned d hd (by have := named.1.1; omega) (by omega)
    rw [same, named.1.2] at there
    exact Bool.false_ne_true there

theorem exists_least_untold {t u : Int} (free : u ∈ untold es t) :
    ∃ s, IsLeast (untold es t) s := by
  obtain ⟨s, here, least⟩ := Int.exists_least_of_bdd ⟨t, fun _ h => h.1⟩ ⟨u, free⟩
  exact ⟨s, here, least⟩

/-! ### What a push leaves -/

/-- What the filing of a task under a time makes of a directory: the time is the least one whose own name
is free, one record is added under that name, a left-over draft of it goes, and what is under any other
name stays. -/
structure FiledUnder (q : QueueName) (es : Entries) (f : Filed) (t : Int) (es' : Entries) : Prop where
  least : IsLeast (unnamed es f.nextRun) t
  late : t ≤ Text.Numeral.maxI64
  names : es'.Distinct
  entries : (numbered es').Perm ((t, nameOf t, Record.bytes { f with nextRun := t }) :: numbered es)
  loads : load q (Record.bytes { f with nextRun := t }) = .ok { f with nextRun := t }.capped
  found : ∀ name, es'.find? name =
    if name = nameOf t then some (.file (Record.bytes { f with nextRun := t }))
    else if name = "." ++ nameOf t ++ ".tmp" then none
    else es.find? name

theorem FiledUnder.plain {t : Int} (h : FiledUnder q es f t es') (plain : Node.Plain es) :
    Node.Plain es' := by
  intro name inner there
  rw [h.found] at there
  split at there
  · cases there
  · split at there
    · cases there
    · exact plain name inner there

/-- A push among files is never refused where a time is free. -/
theorem exists_filedUnder (names : es.Distinct) (plain : Node.Plain es) (hf : f.Storable q)
    (free : FreeFrom es f.nextRun) :
    ∃ t, push q es f = .ok (t, withRecord es f t) ∧ FiledUnder q es f t (withRecord es f t) := by
  obtain ⟨u, after, last, unused⟩ := free
  have room := (Queue.freeTime_first hf.time.1 after last unused).1
  have least (v : Int) (hv : v ∈ unnamed es f.nextRun) (inside : v ≤ Text.Numeral.maxI64) :=
    (Queue.freeTime_first hf.time.1 hv.1 inside hv.2).2
  have late := Queue.le_freeTime (fun v => es.contains (nameOf v)) es.length hf.time.2
  have range := Queue.freeTime_range (fun v => es.contains (nameOf v)) es.length hf.time.1 hf.time.2
  generalize ht : Queue.freeTime (fun v => es.contains (nameOf v)) es.length f.nextRun = t at *
  refine ⟨t, ?_, ⟨⟨late, room⟩, fun v hv => ?_⟩, range.2, withRecord_distinct names room, ?_, ?_,
    find?_withRecord es f t⟩
  · rcases push_eq hf ht.symm room with ⟨⟨inner, found⟩, -⟩ | ⟨-, pushed⟩
    · exact absurd found (plain _ inner)
    · exact pushed
  · rcases Int.le_total v Text.Numeral.maxI64 with inside | outside
    · exact least v hv inside
    · exact Int.le_trans range.2 outside
  · obtain ⟨before, behind, old, whole⟩ := numbered_withRecord es f range.1 range.2
    rw [whole, old]
    exact List.perm_middle
  · exact (hf.withNextRun range.1 range.2).load_bytes

end QueueDirectory

namespace World

open QueueDirectory

variable {w : World} {q : QueueName} {path : String} {es : Entries} {f : Filed}

/-- Where a time is free, a push into a directory of files files the task and does nothing else. -/
theorem push_files (directory : w.stores q = .directory path) (found : w.files.entries path = .ok es)
    (names : es.Distinct) (plain : Node.Plain es) (hf : f.Storable q) (free : FreeFrom es f.nextRun) :
    ∃ t v es', w.push q f = (.ok t, v) ∧ w.Leaves path es' [] v ∧ FiledUnder q es f t es' := by
  obtain ⟨t, pushed, filed⟩ := exists_filedUnder names plain hf free
  obtain ⟨v, done, leaves⟩ := afterStore_leaves directory found
    (fun es => Store.unlessFailed es (QueueDirectory.push q es f)) (by rw [pushed]; rfl)
    (plain.keepsDirectories (withRecord es f t))
  refine ⟨t, v, withRecord es f t, ?_, leaves, filed⟩
  rw [World.push, directory, Store.push, hf.check]
  exact done

/-- A push into a directory of files files the task under the least time from its own on whose own name is
free, and does nothing else. That time is no later than the least time that no entry tells, and it is the
same exactly when every time before it that is told from the task's own on has its own name there too. -/
theorem push_directory (directory : w.stores q = .directory path)
    (found : w.files.entries path = .ok es) (names : es.Distinct) (plain : Node.Plain es)
    (hf : f.Storable q) (free : ∃ u ∈ untold es f.nextRun, u ≤ Text.Numeral.maxI64) :
    ∃ t s v es', w.push q f = (.ok t, v) ∧ w.Leaves path es' [] v ∧ FiledUnder q es f t es' ∧
      IsLeast (untold es f.nextRun) s ∧ t ≤ s ∧
      (t = s ↔ ∀ d ∈ numbered es, f.nextRun ≤ d.1 → d.1 < s → es.contains (nameOf d.1) = true) := by
  obtain ⟨u, told, last⟩ := free
  obtain ⟨s, least⟩ := exists_least_untold told
  have late : s ≤ Text.Numeral.maxI64 := Int.le_trans (least.2 told) last
  have unused := unnamed_of_untold plain hf.time.1 least.1 late
  obtain ⟨t, v, es', pushed, leaves, filed⟩ :=
    push_files directory found names plain hf ⟨s, least.1.1, late, unused.2⟩
  exact ⟨t, s, v, es', pushed, leaves, filed, least, filed.least.2 unused,
    least_unnamed_eq_iff plain hf.time.1 filed.least least late⟩

/-! ### An entry without its ending -/

/-- A directory with one entry, which tells a time and does not have that time's own name. -/
def loose : Entries := [("77", .file [])]

def hoarding : World :=
  { writing with files := ⟨.directory [("in", .directory loose)], ""⟩ }

/-- A step that is to be filed under the time of that entry. -/
def folding : Filed := { beating with nextRun := 77 }

theorem loose_distinct : loose.Distinct := List.nodup_singleton _

theorem loose_plain : Node.Plain loose := by
  intro name inner found
  rw [loose, Entries.find?_cons] at found
  split at found
  · cases found
  · cases found

theorem folding_storable : folding.Storable .delayed where
  inRange := ⟨beating_inRange.task, beating_inRange.options, by decide, by decide⟩
  check := by decide

theorem numbered_loose : numbered loose = [(77, "77", [])] := by
  have entries : loose.filterMap entryOf? = [(77, "77", [])] := rfl
  rw [numbered, entries]
  exact List.mergeSort_singleton _

theorem untold_loose : 78 ∈ untold loose folding.nextRun := by
  refine ⟨by decide, fun d hd => ?_⟩
  rw [numbered_loose, List.mem_singleton] at hd
  subst hd
  decide

theorem push_directory_hoarding :
    hoarding.stores .delayed = .directory "in" ∧ hoarding.files.entries "in" = .ok loose ∧
      loose.Distinct ∧ Node.Plain loose ∧ folding.Storable .delayed ∧
      (∃ u ∈ untold loose folding.nextRun, u ≤ Text.Numeral.maxI64) ∧
      ∃ t s v es', hoarding.push .delayed folding = (.ok t, v) ∧ hoarding.Leaves "in" es' [] v ∧
        FiledUnder .delayed loose folding t es' ∧ IsLeast (untold loose folding.nextRun) s ∧ t ≤ s ∧
        (t = s ↔ ∀ d ∈ numbered loose, folding.nextRun ≤ d.1 → d.1 < s →
          loose.contains (nameOf d.1) = true) := by
  have free : ∃ u ∈ untold loose folding.nextRun, u ≤ Text.Numeral.maxI64 :=
    ⟨78, untold_loose, by decide⟩
  have found := entries_of_one loose
  exact ⟨rfl, found, loose_distinct, loose_plain, folding_storable, free,
    push_directory rfl found loose_distinct loose_plain folding_storable free⟩

/-- A push next to an entry without its ending ends at the time that the entry tells, though a later time
is told by none. -/
theorem exists_time_told_twice :
    hoarding.stores .delayed = .directory "in" ∧ hoarding.files.entries "in" = .ok loose ∧
      loose.Distinct ∧ Node.Plain loose ∧ folding.Storable .delayed ∧
      78 ∈ untold loose folding.nextRun ∧
      ∃ v, hoarding.push .delayed folding = (.ok 77, v) ∧ 77 ∉ untold loose folding.nextRun := by
  have found := entries_of_one loose
  have free : loose.contains (nameOf folding.nextRun) = false := by decide
  obtain ⟨t, v, es', pushed, -, filed⟩ := push_files (w := hoarding) rfl found loose_distinct
    loose_plain folding_storable ⟨_, Int.le_refl _, by decide, free⟩
  have own : t = 77 :=
    Int.le_antisymm (filed.least.2 ⟨Int.le_refl _, free⟩) filed.least.1.1
  refine ⟨rfl, found, loose_distinct, loose_plain, folding_storable, untold_loose, v, own ▸ pushed, ?_⟩
  rintro ⟨-, none⟩
  exact none (77, "77", []) (by rw [numbered_loose]; exact List.mem_singleton_self _) rfl

end World

end Galley
