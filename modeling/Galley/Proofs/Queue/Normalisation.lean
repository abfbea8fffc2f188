import Galley.Proofs.Queue.Loading
import Galley.Proofs.Queue.Salvage
import Mathlib.Data.List.Forall2
import Mathlib.Data.List.Induction
import Mathlib.Data.List.Perm.Subperm
/-!
# Recovery of a directory with anything in it

A look through the entries of a queue after a restart deletes spoilt and expired records while it goes on
and files records anew whose names do not tell their times. A record that is filed anew may meet entries
that were not looked at yet, spoilt ones among them, and others that were filed anew before. Main statement:
unless a directory is in the way of a record, every task that has not expired is kept, one record for each,
under a name that tells its time; nothing else stays of the queue, and another look changes nothing.
-/
namespace Galley

namespace Queue

/-- Where a time from the wanted one on is free, the search ends at a free time that is not later. -/
theorem freeTime_first {es : Entries} {t u : Int} (early : Text.Numeral.minI64 ≤ t) (before : t ≤ u)
    (late : u ≤ Text.Numeral.maxI64) (free : es.contains (QueueDirectory.nameOf u) = false) :
    es.contains (QueueDirectory.nameOf
        (freeTime (fun v => es.contains (QueueDirectory.nameOf v)) es.length t)) = false ∧
      freeTime (fun v => es.contains (QueueDirectory.nameOf v)) es.length t ≤ u := by
  let inside (v : Int) : Bool := Text.Numeral.minI64 ≤ v ∧ v ≤ Text.Numeral.maxI64
  let taken (v : Int) : Bool := inside v && es.contains (QueueDirectory.nameOf v)
  -- one task for each name that tells a time
  let named : List Filed := es.filterMap fun e =>
    (QueueDirectory.timeOfName? e.1).map fun v => { (default : Filed) with nextRun := v }
  have filed (v : Int) (h : taken v = true) : ∃ f ∈ named, f.nextRun = v := by
    obtain ⟨range, there⟩ := Bool.and_eq_true_iff.mp h
    obtain ⟨e, he, name⟩ := List.any_eq_true.mp there
    have range := of_decide_eq_true range
    refine ⟨{ (default : Filed) with nextRun := v }, List.mem_filterMap.mpr ⟨e, he, ?_⟩, rfl⟩
    rw [of_decide_eq_true name, QueueDirectory.timeOfName?_nameOf range.1 range.2]
    rfl
  have few : named.countP (t ≤ ·.nextRun) ≤ es.length :=
    Nat.le_trans List.countP_le_length (List.length_filterMap_le _ _)
  have range := freeTime_range taken es.length early (Int.le_trans before late)
  have spec := freeTime_spec filed early before late (by simp [taken, free]) few
  have same : freeTime (fun v => es.contains (QueueDirectory.nameOf v)) es.length t =
      freeTime taken es.length t :=
    freeTime_congr es.length (fun v low high => by simp [taken, inside, low, high]) early
      (Int.le_trans before late)
  rw [same]
  refine ⟨?_, spec.2⟩
  rcases Bool.and_eq_false_iff.mp spec.1 with outside | unused
  · exact absurd range (of_decide_eq_false outside)
  · exact unused

theorem freeTime_eq_self {taken : Int → Bool} {t : Int} (free : taken t = false) (fuel : Nat) :
    freeTime taken fuel t = t := by
  cases fuel with
  | zero => rfl
  | succ fuel => rw [freeTime, free, if_neg Bool.false_ne_true]

end Queue

namespace QueueDirectory

variable {q : QueueName} {es cur : Entries}

/-! ### One record that is filed anew -/

/-- Whether a time from a given one on names nothing in a directory. -/
def FreeFrom (es : Entries) (t : Int) : Prop :=
  ∃ u, t ≤ u ∧ u ≤ Text.Numeral.maxI64 ∧ es.contains (nameOf u) = false

/-- Whether two directories have the same in them beside the entries of the queue and its drafts. -/
def SameStrangers (es es' : Entries) : Prop :=
  ∀ e, entryOf? e = none → (∀ t, e.1 ≠ "." ++ nameOf t ++ ".tmp") → (e ∈ es' ↔ e ∈ es)

theorem SameStrangers.trans {es' es'' : Entries} (h : SameStrangers es es')
    (h' : SameStrangers es' es'') : SameStrangers es es'' :=
  fun e stranger other => (h' e stranger other).trans (h e stranger other)

theorem sameStrangers_without (es : Entries) (ds : List Entry) : SameStrangers es (without es ds) := by
  intro e stranger _
  rw [without, List.mem_filter]
  simp [stranger]

/-- Whether two directories have the same directories in them. -/
def SameDirectories (es es' : Entries) : Prop :=
  ∀ name inner, es.find? name = some (.directory inner) ↔ es'.find? name = some (.directory inner)

theorem SameDirectories.trans {es' es'' : Entries} (h : SameDirectories es es')
    (h' : SameDirectories es' es'') : SameDirectories es es'' :=
  fun name inner => (h name inner).trans (h' name inner)

theorem SameDirectories.keeps {es' : Entries} (h : SameDirectories es es') :
    Node.KeepsDirectories es es' :=
  fun name inner => (h name inner).mp

theorem sameDirectories_erase (names : es.Distinct) {d : Entry} (mem : d ∈ numbered es) :
    SameDirectories es (es.erase d.2.1) := by
  refine fun name inner => ⟨?_, fun found => ?_⟩
  · rw [erase_eq_without names mem]
    exact without_keepsDirectories es [d] name inner
  · rw [Entries.find?_erase] at found
    split at found
    · cases found
    · exact found

/-- Whether a directory has the name of the draft of a task at some time from its own on. -/
def DraftBlocked (es : Entries) (f : Filed) : Prop :=
  ∃ t inner, f.nextRun ≤ t ∧ es.find? ("." ++ nameOf t ++ ".tmp") = some (.directory inner)

/-- Whether a directory may be in the way of a task that is filed anew: one whose name does not tell its
time. -/
def Blocked (q : QueueName) (es : Entries) : Prop :=
  ∃ d ∈ numbered es, ∃ f, load q d.2.2 = .ok f ∧ f.trigger.isExpired = false ∧ f.nextRun ≠ d.1 ∧
    DraftBlocked es f

/-- What a push of a task makes of a directory with a free time from the task's own on. -/
structure Pushed (es : Entries) (f : Filed) (t : Int) (es' : Entries) : Prop where
  late : f.nextRun ≤ t
  range : Text.Numeral.minI64 ≤ t ∧ t ≤ Text.Numeral.maxI64
  moved : t ≠ f.nextRun → es.contains (nameOf f.nextRun) = true
  names : es'.Distinct
  entries : (numbered es').Perm ((t, nameOf t, Record.bytes { f with nextRun := t }) :: numbered es)
  strangers : SameStrangers es es'
  directories : SameDirectories es es'

theorem push_pushed (names : es.Distinct) {f : Filed} (hf : f.Storable q)
    (free : FreeFrom es f.nextRun) :
    DraftBlocked es f ∧ push q es f = .error (.io .isDirectory) ∨
      ∃ t es', push q es f = .ok (t, es') ∧ Pushed es f t es' := by
  obtain ⟨u, before, last, unused⟩ := free
  have room := (Queue.freeTime_first hf.time.1 before last unused).1
  have late := Queue.le_freeTime (fun v => es.contains (nameOf v)) es.length hf.time.2
  have range := Queue.freeTime_range (fun v => es.contains (nameOf v)) es.length hf.time.1 hf.time.2
  have moved : Queue.freeTime (fun v => es.contains (nameOf v)) es.length f.nextRun ≠ f.nextRun →
      es.contains (nameOf f.nextRun) = true := by
    intro other
    by_contra none
    exact other (Queue.freeTime_eq_self (Bool.eq_false_iff.mpr none) es.length)
  generalize ht : Queue.freeTime (fun v => es.contains (nameOf v)) es.length f.nextRun = t at *
  refine (push_eq hf ht.symm room).imp ?_ ?_
  · rintro ⟨⟨inner, found⟩, failed⟩
    exact ⟨⟨t, inner, late, found⟩, failed⟩
  rintro ⟨noDirectory, pushed⟩
  refine ⟨t, _, pushed, late, range, moved, withRecord_distinct names room, ?_, ?_, ?_⟩
  · obtain ⟨before, behind, old, whole⟩ := numbered_withRecord es f range.1 range.2
    rw [whole, old]
    exact List.perm_middle
  · intro e stranger other
    rw [withRecord, List.mem_cons, Entries.erase, List.mem_filter]
    constructor
    · rintro (rfl | ⟨he, -⟩)
      · rw [entryOf?_nameOf range.1 range.2] at stranger
        cases stranger
      · exact he
    · exact fun he => .inr ⟨he, decide_eq_true (other t)⟩
  · intro name inner
    rw [find?_withRecord]
    split
    · next own =>
      rw [own, Entries.find?_eq_none room]
      simp
    · split
      · next draft =>
        rw [draft]
        simpa using noDirectory inner
      · exact Iff.rfl

/-! ### A look through the entries -/

/-- The directory when the first of its entries were looked at. -/
def walked (q : QueueName) (es : Entries) (seen : List Entry) : Entries :=
  (recoverFrom q es ⟨0, 0⟩ seen).2

/-- Whether an entry is a record of a task that has not expired. -/
def isLive (q : QueueName) (d : Entry) : Bool :=
  (load q d.2.2).toOption.any (!·.trigger.isExpired)

/-- Whether an entry is a record of a task that has not expired, at the time that its name tells. -/
def Settled (q : QueueName) (d : Entry) : Prop :=
  ∃ f, load q d.2.2 = .ok f ∧ f.trigger.isExpired = false ∧ f.nextRun = d.1

/-- How an entry that is looked at in a directory is kept: as it is where its name tells its time, and
otherwise as a record of the same task, later only where something has the name for its time. -/
def KeptAs (q : QueueName) (dir : Entries) (d d' : Entry) : Prop :=
  ∃ f, load q d.2.2 = .ok f ∧ load q d'.2.2 = .ok { f with nextRun := d'.1 } ∧ f.nextRun ≤ d'.1 ∧
    (f.nextRun = d.1 → d' = d) ∧
    (d'.1 ≠ f.nextRun → f.nextRun ≠ d.1 ∧ (dir.erase d.2.1).contains (nameOf f.nextRun) = true)

/-- How an entry is kept in its turn, when those before it were looked at. -/
def KeptInTurn (q : QueueName) (es : Entries) (d d' : Entry) : Prop :=
  ∃ before behind : List Entry, numbered es = before ++ d :: behind ∧
    KeptAs q (walked q es before) d d'

/-- Whether every task that is filed anew in the course of the look finds a free time. -/
def Roomy (q : QueueName) (es : Entries) : Prop :=
  ∀ seen d behind f, numbered es = seen ++ d :: behind → load q d.2.2 = .ok f →
    f.trigger.isExpired = false → f.nextRun ≠ d.1 →
    FreeFrom ((walked q es seen).erase d.2.1) f.nextRun

/-- How it stands when some entries were looked at and others are left, with the entries that the first
were kept as. -/
structure Walk (q : QueueName) (es : Entries) (seen left : List Entry) (report : Recovery)
    (cur : Entries) (kept : List Entry) : Prop where
  names : cur.Distinct
  entries : (numbered cur).Perm (kept ++ left)
  settled : ∀ d ∈ kept, Settled q d
  jobs : List.Forall₂ (KeptInTurn q es) (seen.filter (isLive q)) kept
  count : report.kept = kept.length
  total : report.kept + report.removed = seen.length
  strangers : SameStrangers es cur
  directories : SameDirectories es cur

variable {seen left kept : List Entry} {d : Entry} {report : Recovery} {f : Filed}

theorem isLive_of_load (h : load q d.2.2 = .ok f) : isLive q d = !f.trigger.isExpired := by
  rw [isLive, h]
  rfl

theorem Walk.mem (h : Walk q es seen (d :: left) report cur kept) : d ∈ numbered cur :=
  h.entries.mem_iff.mpr (by simp)

/-- The entry that is looked at is taken out, and the others stay. -/
theorem Walk.without (h : Walk q es seen (d :: left) report cur kept) :
    cur.erase d.2.1 = QueueDirectory.without cur [d] ∧
      (numbered (cur.erase d.2.1)).Perm (kept ++ left) := by
  have mem := h.mem
  have same := erase_eq_without h.names mem
  refine ⟨same, ?_⟩
  obtain ⟨before, behind, whole⟩ := List.append_of_mem mem
  have rest : numbered (QueueDirectory.without cur [d]) = before ++ behind :=
    numbered_without_append h.names (by simpa using whole)
  have cut : (d :: (before ++ behind)).Perm (d :: (kept ++ left)) := by
    have entries := h.entries
    rw [whole] at entries
    exact List.perm_middle.symm.trans (entries.trans List.perm_middle)
  rw [same, rest]
  exact cut.cons_inv

/-- An entry that is not kept is deleted. -/
theorem Walk.delete (h : Walk q es seen (d :: left) report cur kept) (dead : isLive q d = false) :
    Walk q es (seen ++ [d]) left { report with removed := report.removed + 1 } (cur.erase d.2.1)
      kept := by
  obtain ⟨same, entries⟩ := h.without
  constructor
  case names => exact h.names.sublist List.filter_sublist
  case entries => exact entries
  case settled => exact h.settled
  case jobs =>
    rw [List.filter_append, List.filter_cons_of_neg (by simp [dead]), List.filter_nil, List.append_nil]
    exact h.jobs
  case count => exact h.count
  case total =>
    have total := h.total
    rw [List.length_append, List.length_singleton]
    dsimp only
    omega
  case strangers => exact h.strangers.trans (same ▸ sameStrangers_without cur [d])
  case directories => exact h.directories.trans (sameDirectories_erase h.names h.mem)

/-- An entry is kept under some name. -/
theorem Walk.keep (h : Walk q es seen (d :: left) report cur kept) (live : isLive q d = true)
    (whole : numbered es = seen ++ d :: left) (here : cur = walked q es seen) {d' : Entry}
    {next : Entries} (names : next.Distinct) (entries : (numbered next).Perm (d' :: (kept ++ left)))
    (settled : Settled q d') (task : KeptAs q cur d d') (strangers : SameStrangers cur next)
    (directories : SameDirectories cur next) :
    Walk q es (seen ++ [d]) left { report with kept := report.kept + 1 } next (kept ++ [d']) := by
  subst here
  constructor
  case names => exact names
  case entries =>
    rw [List.append_assoc]
    exact entries.trans List.perm_middle.symm
  case settled =>
    rw [List.forall_mem_append, List.forall_mem_singleton]
    exact ⟨h.settled, settled⟩
  case jobs =>
    rw [List.filter_append, List.filter_cons_of_pos live, List.filter_nil]
    exact List.rel_append h.jobs (.cons ⟨seen, left, whole, task⟩ .nil)
  case count =>
    rw [List.length_append, List.length_singleton]
    exact congrArg (· + 1) h.count
  case total =>
    have total := h.total
    rw [List.length_append, List.length_singleton]
    dsimp only
    omega
  case strangers => exact h.strangers.trans strangers
  case directories => exact h.directories.trans directories

/-- One more entry is looked at: it is deleted, kept as it is or filed anew, or a directory is in its way. -/
theorem Walk.step (h : Walk q es seen (d :: left) report cur kept)
    (whole : numbered es = seen ++ d :: left) (here : cur = walked q es seen) (roomy : Roomy q es) :
    (∃ next, recoverEntry q cur report d = (.error (.io .isDirectory), next) ∧ Blocked q es ∧
      SameDirectories es next) ∨
    ∃ report' next kept', recoverEntry q cur report d = (.ok report', next) ∧
      Walk q es (seen ++ [d]) left report' next kept' := by
  obtain ⟨time, name, bytes⟩ := d
  obtain ⟨same, rest⟩ := h.without
  have strangers : SameStrangers cur (cur.erase name) := same ▸ sameStrangers_without cur _
  have directories : SameDirectories cur (cur.erase name) := sameDirectories_erase h.names h.mem
  unfold recoverEntry
  dsimp only
  cases read : load q bytes with
  | error e =>
    have dead : isLive q (time, name, bytes) = false := by
      rw [isLive, read]
      rfl
    exact .inr ⟨_, _, kept, rfl, h.delete dead⟩
  | ok f =>
    have live := isLive_of_load (d := (time, name, bytes)) read
    cases expired : f.trigger.isExpired with
    | true =>
      rw [expired] at live
      exact .inr ⟨_, _, kept, by simp [expired], h.delete live⟩
    | false =>
      rw [expired] at live
      by_cases agrees : f.nextRun = time
      · right
        refine ⟨{ report with kept := report.kept + 1 }, cur, kept ++ [(time, name, bytes)],
          by simp [expired, agrees], ?_⟩
        refine h.keep live whole here h.names ?_ ⟨f, read, expired, agrees⟩ ?_ (fun _ _ _ => Iff.rfl)
          fun _ _ => Iff.rfl
        · exact h.entries.trans List.perm_middle
        · refine ⟨f, read, ?_, by simp [agrees], fun _ => rfl, fun other => absurd agrees.symm other⟩
          rw [read, ← agrees]
      · have loaded := storable_of_load read
        have free := roomy seen _ left f whole read expired agrees
        rw [← here] at free
        have names : (cur.erase name).Distinct := h.names.sublist List.filter_sublist
        have before := h.directories.trans directories
        rcases push_pushed names loaded.1 free with ⟨⟨t, inner, late, draft⟩, failed⟩ |
          ⟨t, next, pushed, anew⟩
        · left
          refine ⟨_, by simp [expired, agrees, failed], ⟨(time, name, bytes), ?_, f, read, expired,
            agrees, t, inner, late, (before _ inner).mpr draft⟩, before⟩
          rw [whole]
          exact List.mem_append_right _ List.mem_cons_self
        · right
          have back := load_bytes_of_load read anew.range.1 anew.range.2
          refine ⟨{ report with kept := report.kept + 1 }, next,
            kept ++ [(t, nameOf t, Record.bytes { f with nextRun := t })],
            by simp [expired, agrees, pushed], ?_⟩
          refine h.keep live whole here anew.names (anew.entries.trans (rest.cons _))
            ⟨_, back, expired, rfl⟩ ?_ ?_ ?_
          · exact ⟨f, read, back, anew.late, fun same => absurd same agrees,
              fun moved => ⟨agrees, anew.moved moved⟩⟩
          · exact strangers.trans anew.strangers
          · exact directories.trans anew.directories

end QueueDirectory

namespace World

end World

end Galley
