import Galley.Proofs.Step.View
import Galley.Proofs.Text.Slug
/-!
# What lines leave behind

What the lines of a step come to when they are handled one after another: the variables that they
announce, the records in the log and the content of the cached files. Main statements: where the files can
be read, every line that is not blank gets one record, and a cached file has the last payload that replaced
it, or what it had before, and after that all that was appended later.
-/
namespace Galley

/-! ### Commands by their words -/

namespace Command

/-- No word of a command starts with another one. -/
theorem eq_of_shorter_word {c c' : Command} (h : c.word.toList <+: c'.word.toList) : c = c' := by
  revert h
  cases c <;> cases c' <;> decide

theorem parse?_eq_some_iff {line payload : String} {c : Command} :
    parse? line = some (c, payload) ↔ line.after? c.word = some payload := by
  constructor
  · intro h
    obtain ⟨c', -, found⟩ := List.exists_of_findSome?_eq_some h
    obtain ⟨_, after, ⟨⟩⟩ := Option.map_eq_some_iff.mp found
    exact after
  · intro h
    have starts {c' : Command} {rest : String} (after : line.after? c'.word = some rest) :
        c'.word.toList <+: line.toList := by
      obtain ⟨_, cut, -⟩ := Option.map_eq_some_iff.mp after
      exact ⟨_, (Text.eq_append_of_after? cut).symm⟩
    cases found : parse? line with
    | none =>
      have none := List.findSome?_eq_none_iff.mp found c (mem_all c)
      rw [h] at none
      exact nomatch none
    | some order =>
      obtain ⟨c', -, one⟩ := List.exists_of_findSome?_eq_some found
      obtain ⟨rest, after, rfl⟩ := Option.map_eq_some_iff.mp one
      obtain rfl : c = c' := by
        rcases List.prefix_or_prefix_of_prefix (starts h) (starts after) with shorter | shorter
        · exact eq_of_shorter_word shorter
        · exact (eq_of_shorter_word shorter).symm
      rw [h] at after
      rw [Option.some.inj after]

end Command

/-- The message of a line that reports a failure. -/
def failure? (text : String) : Option String :=
  (text.trimBlanks.after? "lemc.err;").map String.trimBlanks

/-- The variable that a line announces. -/
def announced? (text : String) : Option String :=
  ((text.trimBlanks.after? "lemc.env;").map String.trimBlanks).filter (· ≠ "")

section Commands

variable {text payload : String} {c : Command}

theorem failure?_of_command (h : Command.parse? text.trimBlanks = some (c, payload)) :
    failure? text = if c = .err then some payload.trimBlanks else none := by
  have starts := Command.parse?_eq_some_iff.mp h
  unfold failure?
  cases after : text.trimBlanks.after? "lemc.err;" with
  | none =>
    have other : c ≠ .err := by
      rintro rfl
      rw [Command.word, after] at starts
      exact nomatch starts
    rw [if_neg other]
    rfl
  | some rest =>
    obtain ⟨rfl, rfl⟩ := Prod.mk.inj (Option.some.inj
      (h.symm.trans (Command.parse?_eq_some_iff (c := .err).mpr after)))
    rfl

theorem announced?_of_command (h : Command.parse? text.trimBlanks = some (c, payload)) :
    announced? text = if c = .env ∧ payload.trimBlanks ≠ "" then some payload.trimBlanks else none := by
  have starts := Command.parse?_eq_some_iff.mp h
  unfold announced?
  cases after : text.trimBlanks.after? "lemc.env;" with
  | none =>
    have other : c ≠ .env := by
      rintro rfl
      rw [Command.word, after] at starts
      exact nomatch starts
    rw [if_neg fun both => other both.1]
    rfl
  | some rest =>
    obtain ⟨rfl, rfl⟩ := Prod.mk.inj (Option.some.inj
      (h.symm.trans (Command.parse?_eq_some_iff (c := .env).mpr after)))
    simp [Option.filter_some]

theorem of_no_command (h : Command.parse? text.trimBlanks = none) :
    failure? text = none ∧ announced? text = none := by
  have none (c : Command) : text.trimBlanks.after? c.word = none := by
    cases after : text.trimBlanks.after? c.word with
    | none => rfl
    | some rest => exact nomatch h.symm.trans (Command.parse?_eq_some_iff.mpr after)
  have noFailure : text.trimBlanks.after? "lemc.err;" = Option.none := none .err
  have noVariable : text.trimBlanks.after? "lemc.env;" = Option.none := none .env
  rw [failure?, announced?, noFailure, noVariable]
  exact ⟨rfl, rfl⟩

end Commands

/-! ### What the handling of a line makes of the output -/

namespace Output

variable {o : Output} {files : Files} {instant : Nat} {c : Command} {payload : String}

/-- Whether what comes of a command is an output with the same log and source, some more variables and an
outcome. -/
structure Comes (o : Output) (h : Handled) (announced : Option String) (failure : Option String) :
    Prop where
  log : h.output.log = o.log
  source : h.output.source = o.source
  env : h.output.env = o.env ++ announced.toList
  outcome : h.outcome = match failure with
    | some message => .failed message
    | none => .continue

theorem forward_comes : o.Comes (o.forward files instant c payload) none none := by
  unfold forward
  split
  · split <;> exact ⟨rfl, rfl, (List.append_nil _).symm, rfl⟩
  · exact ⟨rfl, rfl, (List.append_nil _).symm, rfl⟩

/-- A command announces its payload or reports it, or does neither, whatever becomes of the files. -/
theorem obey_comes (o : Output) (files : Files) (instant : Nat) (c : Command) (payload : String) :
    o.Comes (o.obey files instant c payload)
    (if c = .env ∧ payload.trimBlanks ≠ "" then some payload.trimBlanks else none)
    (if c = .err then some payload.trimBlanks else none) := by
  cases hw : c.cacheWrite? with
  | some w =>
    have other : c ≠ .env ∧ c ≠ .err := by
      constructor <;> rintro rfl <;> cases hw
    rw [if_neg fun env => other.1 env.1, if_neg other.2]
    -- the file cannot be written, or the command is passed on
    have passed : ∃ files', o.obey files instant c payload = ⟨o, files', .continue, none⟩ ∨
        o.obey files instant c payload = o.forward files' instant c payload := by
      cases c with
      | env => exact absurd rfl other.1
      | err => exact absurd rfl other.2
      | _ =>
        obtain rfl := Option.some.inj hw
        simp only [obey, Command.cacheWrite?]
        split
        · exact ⟨_, .inl rfl⟩
        · exact ⟨_, .inr rfl⟩
    obtain ⟨files', failed | wrote⟩ := passed
    · rw [failed]
      exact ⟨rfl, rfl, (List.append_nil _).symm, rfl⟩
    · rw [wrote]
      exact forward_comes
  | none =>
    cases c with
    | env =>
      by_cases blank : payload.trimBlanks = ""
      · rw [if_neg fun both => both.2 blank]
        refine ⟨?_, ?_, ?_, rfl⟩ <;> simp [obey, blank]
      · rw [if_pos ⟨rfl, blank⟩]
        refine ⟨?_, ?_, ?_, rfl⟩ <;> simp [obey, blank]
    | err => exact ⟨rfl, rfl, (List.append_nil _).symm, rfl⟩
    | _ => cases hw

end Output

/-! ### Records in the log -/

namespace StepLog

variable {log : StepLog} {files : Files} {text : List UInt8}

/-- The record of a message: one line with the time, where the message comes from, and the message. -/
def record (log : StepLog) (now : Int) (source : LineSource) (message : String) : List UInt8 :=
  let time := Calendar.text (Calendar.seconds now)
  (s!"[{time}] [image:{source.imageHash}] [name:{source.imageName}] [event:{log.event}] " ++
    s!"[step:{source.step}] {message}\n").utf8

/-- The parts in which a line is written make up the record of its message. -/
theorem flatMap_lineParts (log : StepLog) (now : Int) (source : LineSource) (message : String) :
    (log.lineParts now source message).flatMap String.utf8 = log.record now source message := by
  have whole (parts : List String) :
      parts.flatMap String.utf8 = Text.Utf8.encode (parts.flatMap String.toList) := by
    rw [Text.Utf8.encode, List.flatMap_assoc]
    rfl
  have same (s : String) : toString s = s := rfl
  rw [whole, record, String.utf8]
  simp [lineParts, same]

/-- Whether a text is in the file of a log, but for the end of it that is held back. -/
structure Holds (log : StepLog) (files : Files) (text : List UInt8) : Prop where
  below : files.place log.path ≠ .ok []
  text : ∃ written, files.read log.path = .ok written ∧ text = written ++ log.held.utf8

theorem append_overwrites {written : List UInt8} (found : files.read log.path = .ok written)
    (below : files.place log.path ≠ .ok []) (text : String) :
    files.Overwrites log.path (written ++ text.utf8) (log.append text files) := by
  obtain ⟨place, hp, file⟩ := Files.read_eq_ok.mp found
  have there : files.exist log.path = true := by
    rw [Files.exist, Files.get]
    simp only [hp, file, bind, Except.bind]
  obtain rfl | ⟨above, name, rfl⟩ := place.eq_nil_or_concat'
  · exact absurd hp below
  obtain ⟨files', eq, wrote⟩ : ∃ files', files.append log.path text.utf8 = .ok files' ∧
      files.Overwrites log.path (written ++ text.utf8) files' :=
    Files.exists_overwrites hp file rfl
  rw [append, if_pos there, eq]
  exact wrote

/-- What is held back gets into the file. -/
theorem Holds.flush (h : log.Holds files text) :
    (log.flush files).1.Holds (log.flush files).2 text ∧
      (log.flush files).2.read log.path = .ok text := by
  obtain ⟨written, found, rfl⟩ := h.text
  have wrote := append_overwrites found h.below log.held
  refine ⟨⟨?_, _, wrote.found, (List.append_nil _).symm⟩, wrote.found⟩
  rw [StepLog.flush, wrote.place]
  exact h.below

theorem Holds.writePart (h : log.Holds files text) (part : String) :
    (log.writePart files part).1.Holds (log.writePart files part).2 (text ++ part.utf8) := by
  unfold StepLog.writePart
  -- a part that goes into the file at once finds nothing held back before it
  have first : ∃ next : StepLog × Files, next = (if capacity < log.held.utf8ByteSize + part.utf8ByteSize
      then log.flush files else (log, files)) ∧ next.1.Holds next.2 text ∧
      (capacity ≤ part.utf8ByteSize → next.1.held = "") := by
    refine ⟨_, rfl, ?_⟩
    split
    · exact ⟨h.flush.1, fun _ => rfl⟩
    · next room =>
      refine ⟨h, fun big => ?_⟩
      have none : log.held.utf8ByteSize = 0 := by omega
      exact String.utf8ByteSize_eq_zero_iff.mp none
  obtain ⟨next, eq, holds, empty⟩ := first
  rw [← eq]
  obtain ⟨log', files'⟩ := next
  dsimp only at holds empty ⊢
  obtain ⟨written, found, rfl⟩ := holds.text
  split
  · next big =>
    have wrote := append_overwrites found holds.below part
    refine ⟨?_, _, wrote.found, ?_⟩
    · rw [wrote.place]
      exact holds.below
    · rw [empty big]
      simp [String.utf8]
  · exact ⟨holds.below, written, found, by simp [String.utf8, List.append_assoc]⟩

theorem writePart_event (log : StepLog) (files : Files) (part : String) :
    (log.writePart files part).1.event = log.event := by
  unfold StepLog.writePart
  have first : (if capacity < log.held.utf8ByteSize + part.utf8ByteSize then log.flush files
      else (log, files)).1.event = log.event := by
    split <;> rfl
  generalize (if capacity < _ then log.flush files else (log, files)) = next at first ⊢
  obtain ⟨log', files'⟩ := next
  dsimp only
  split <;> exact first

/-- A written message is one record more. -/
theorem Holds.write (h : log.Holds files text) (now : Int) (source : LineSource) (message : String) :
    (log.write now source message files).1.Holds (log.write now source message files).2
      (text ++ log.record now source message) := by
  rw [← flatMap_lineParts]
  unfold StepLog.write
  generalize log.lineParts now source message = parts
  induction parts generalizing log files text with
  | nil => simpa using h
  | cons part rest ih =>
    rw [List.flatMap_cons, ← List.append_assoc]
    exact ih (h.writePart part)

theorem write_event (log : StepLog) (now : Int) (source : LineSource) (message : String)
    (files : Files) : (log.write now source message files).1.event = log.event := by
  unfold StepLog.write
  generalize log.lineParts now source message = parts
  induction parts generalizing log files with
  | nil => rfl
  | cons part rest ih =>
    rw [List.foldl_cons]
    exact (ih _ _).trans (log.writePart_event files part)

end StepLog

/-! ### The log of a recipe -/

/-- The log of a recipe is none of the cached files. -/
theorem Layout.place_logFile_ne {files : Files} {content : List UInt8} {dir : String} {k : CacheKind}
    (layout : Layout) (recipe : String) (readable : files.read (Cache.path dir k) = .ok content) :
    files.place (layout.logFile recipe) ≠ files.place (Cache.path dir k) := by
  intro same
  obtain ⟨place, hp, -⟩ := Files.read_eq_ok.mp readable
  obtain ⟨above, rfl⟩ := Cache.place_path hp
  obtain ⟨name, path, chars⟩ : ∃ name, layout.logFile recipe = Path.join layout.logDir name ∧
      name.toList = ((s!"page-{layout.pageId}".slug.toList ++ ['-']) ++ recipe.slug.toList) ++
        ".log".toList := ⟨_, rfl, by simp only [String.toList_append]; rfl⟩
  have whole : '/' ∉ name.toList := by
    rw [chars]
    simp [Text.Slug.slash_not_mem_slug]
  have ne {other : String} (h : other.toList.getLast? ≠ some 'g') : name ≠ other := by
    rintro rfl
    apply h
    rw [chars, List.getLast?_append]
    rfl
  have relative : name.toList.head? ≠ some '/' := fun h => whole (List.mem_of_head? h)
  rw [path] at same
  obtain ⟨above', eq⟩ := Files.place_join relative whole ⟨ne (by decide), ne (by decide)⟩
    (ne (by decide)) (same.trans hp)
  have last : k.fileName = name := (List.append_singleton_inj.mp eq).2
  refine ne ?_ last.symm
  cases k <;> decide

/-! ### One line -/

namespace Output

variable {o : Output} {files : Files} {content : CacheKind → List UInt8} {text : List UInt8}

/-- The record of a line, which is none for a blank one. -/
def record (o : Output) (l : Heard) : List UInt8 :=
  if l.text.trimBlanks = "" then [] else o.log.record l.now o.source l.text.trimBlanks

theorem record_congr {o' : Output} (event : o'.log.event = o.log.event) (source : o'.source = o.source) :
    o'.record = o.record := by
  funext l
  unfold record StepLog.record
  rw [event, source]

theorem handle_comes (o : Output) (files : Files) (l : Heard) :
    (o.handle files l.text l.now l.instant).output.env = o.env ++ (announced? l.text).toList ∧
    (o.handle files l.text l.now l.instant).output.record = o.record ∧
    (o.handle files l.text l.now l.instant).outcome = match failure? l.text with
      | some message => .failed message
      | none => .continue := by
  unfold handle
  dsimp only
  split
  · next blank =>
    have none : Command.parse? l.text.trimBlanks = none := by
      rw [blank]
      decide
    obtain ⟨noFailure, noVariable⟩ := of_no_command none
    rw [noFailure, noVariable]
    exact ⟨(List.append_nil _).symm, rfl, rfl⟩
  have event := o.log.write_event l.now o.source l.text.trimBlanks files
  generalize o.log.write l.now o.source l.text.trimBlanks files = after at event
  obtain ⟨log, files'⟩ := after
  dsimp only at event ⊢
  cases h : Command.parse? l.text.trimBlanks with
  | none =>
    obtain ⟨noFailure, noVariable⟩ := of_no_command h
    rw [noFailure, noVariable]
    exact ⟨(List.append_nil _).symm, record_congr event rfl, rfl⟩
  | some order =>
    obtain ⟨c, payload⟩ := order
    rw [failure?_of_command h, announced?_of_command h]
    have comes := obey_comes { o with log } files' l.instant c payload
    exact ⟨comes.env, record_congr ((congrArg StepLog.event comes.log).trans event) comes.source,
      comes.outcome⟩

/-- The files that a command leaves have the log as it was, where it is not one of the cached files. -/
theorem obey_holds {c : Command} {payload : String} {instant : Nat}
    (readable : ∀ k, files.read (Cache.path o.cacheDir k) = .ok (content k))
    (apart : ∀ k, files.place o.log.path ≠ files.place (Cache.path o.cacheDir k))
    (h : o.log.Holds files text) : o.log.Holds (o.obey files instant c payload).files text := by
  cases hw : c.cacheWrite? with
  | some w =>
    obtain ⟨files', written, wrote⟩ := Cache.exists_write (readable w.kind) payload
    have same : (o.obey files instant c payload).files = files' := by
      rw [obey_of_write hw written]
      unfold forward
      split
      · split <;> rfl
      · rfl
    obtain ⟨kept, found, eq⟩ := h.text
    rw [same]
    refine ⟨?_, kept, wrote.other _ _ (apart w.kind) found, eq⟩
    rw [wrote.place]
    exact h.below
  | none =>
    cases c with
    | env | err => exact h
    | _ => exact nomatch hw

theorem handle_holds (readable : ∀ k, files.read (Cache.path o.cacheDir k) = .ok (content k))
    (apart : ∀ k, files.place o.log.path ≠ files.place (Cache.path o.cacheDir k))
    (h : o.log.Holds files text) (l : Heard) :
    (o.handle files l.text l.now l.instant).output.log.Holds
      (o.handle files l.text l.now l.instant).files (text ++ o.record l) := by
  unfold handle record
  dsimp only
  split
  · rw [List.append_nil]
    exact h
  have logged := o.log.write_writes l.now o.source l.text.trimBlanks files
  have held := h.write l.now o.source l.text.trimBlanks
  generalize o.log.write l.now o.source l.text.trimBlanks files = after at logged held
  obtain ⟨log, files'⟩ := after
  dsimp only at held ⊢
  cases Command.parse? l.text.trimBlanks with
  | none => exact held
  | some order =>
    obtain ⟨c, payload⟩ := order
    have comes := obey_comes { o with log } files' l.instant c payload
    rw [comes.log]
    have read (k : CacheKind) : files'.read (Cache.path o.cacheDir k) = .ok (content k) :=
      logged.spares.other _ _ (Ne.symm (apart k)) (readable k)
    refine obey_holds (o := { o with log }) read (fun k => ?_) held
    rw [logged.spares.place, logged.path]
    exact apart k

end Output

/-! ### All lines -/

namespace Watched

variable {o : Output} {content : CacheKind → List UInt8} {text : List UInt8}

theorem run_nil (u : Watched) : u.run [] = u := rfl

theorem run_cons (u : Watched) (l : Heard) (lines : List Heard) :
    u.run (l :: lines) = (u.hear l).run lines := by
  rw [run, run, List.foldl_cons]

/-- The variables that lines announce are kept in order. -/
theorem run_env (u : Watched) (lines : List Heard) :
    (u.run lines).output.env = u.output.env ++ lines.filterMap (announced? ·.text) := by
  induction lines generalizing u with
  | nil => exact (List.append_nil _).symm
  | cons l rest ih =>
    rw [run_cons, ih, hear_output, (u.output.handle_comes u.files l).1, List.filterMap_cons,
      List.append_assoc]
    cases announced? l.text <;> rfl

/-- Every line that is not blank has its record in the log, one after another. -/
theorem Shows.holds {u : Watched} (h : Shows o content u) (held : u.output.log.Holds u.files text)
    (lines : List Heard) :
    (u.run lines).output.log.Holds (u.run lines).files (text ++ lines.flatMap u.output.record) := by
  induction lines generalizing u content text with
  | nil =>
    rw [List.flatMap_nil, List.append_nil]
    exact held
  | cons l rest ih =>
    have read (k : CacheKind) : u.files.read (Cache.path u.output.cacheDir k) = .ok (content k) := by
      rw [h.continues.cacheDir]
      exact h.read k
    have apart (k : CacheKind) :
        u.files.place u.output.log.path ≠ u.files.place (Cache.path u.output.cacheDir k) := by
      rw [h.continues.cacheDir, h.continues.log]
      exact h.apart k
    have handled := Output.handle_holds read apart held l
    have source := (u.output.handle_comes u.files l).2.1
    rw [← hear_output] at handled source
    rw [← hear_files] at handled
    have next := ih (h.hear l) handled
    rw [source, List.append_assoc] at next
    rw [run_cons, List.flatMap_cons]
    exact next

end Watched

/-! ### Cached files in the end -/

namespace Heard

/-- The payload by which a line replaces the content of a cached file. -/
def replacement? (l : Heard) (k : CacheKind) : Option String :=
  l.command?.bind fun (c, payload) => if c.cacheWrite? = some (.replace k) then some payload else none

/-- What a line appends to a cached file. -/
def appendix (l : Heard) (k : CacheKind) : List UInt8 :=
  l.command?.elim [] fun (c, payload) =>
    if c.cacheWrite? = some (.append k) then (payload ++ "\n").utf8 else []

/-- A line replaces the content of a cached file by its payload, or it appends to it. -/
theorem effect_eq (l : Heard) (k : CacheKind) :
    (∃ payload, l.replacement? k = some payload ∧ ∀ content, l.effect k content = payload.utf8) ∨
      (l.replacement? k = none ∧ ∀ content, l.effect k content = content ++ l.appendix k) := by
  cases hc : l.command? with
  | none =>
    right
    rw [replacement?, appendix, (of_no_command hc).1, hc]
    exact ⟨rfl, fun content => (List.append_nil content).symm⟩
  | some order =>
    obtain ⟨c, payload⟩ := order
    simp only [replacement?, appendix, hc, Option.bind_some, Option.elim_some, effect_of_command hc,
      Command.effect]
    cases hw : c.cacheWrite? with
    | none => exact .inr ⟨by simp, fun content => by simp⟩
    | some w =>
      by_cases same : w.kind = k
      · subst same
        cases w with
        | replace k => exact .inl ⟨payload, by simp [CacheWrite.kind], fun content => if_pos rfl⟩
        | append k =>
          right
          simp [CacheWrite.kind, CacheWrite.contentAfter]
      · right
        have other : w ≠ .replace k ∧ w ≠ .append k := by
          constructor <;> rintro rfl <;> exact same rfl
        simp [same, other]

/-- Whether a content is the last payload by which lines replaced that of a cached file, or else the initial
one, with all that was appended later behind it. -/
def Leave (k : CacheKind) (initial : List UInt8) (lines : List Heard) (content : List UInt8) : Prop :=
  (∀ l ∈ lines, l.replacement? k = none) ∧ content = initial ++ lines.flatMap (appendix · k) ∨
    ∃ before l after payload, lines = before ++ l :: after ∧ l.replacement? k = some payload ∧
      (∀ l' ∈ after, l'.replacement? k = none) ∧
      content = payload.utf8 ++ after.flatMap (appendix · k)

theorem leave_effects (k : CacheKind) (initial : List UInt8) (lines : List Heard) :
    Leave k initial lines (effects lines k initial) := by
  induction lines using List.reverseRecOn with
  | nil => exact .inl ⟨by simp, (List.append_nil initial).symm⟩
  | append_singleton lines l ih =>
    have last : effects (lines ++ [l]) k initial = l.effect k (effects lines k initial) :=
      List.foldl_concat ..
    rcases l.effect_eq k with ⟨payload, replaces, eq⟩ | ⟨keeps, eq⟩
    · exact .inr ⟨lines, l, [], payload, rfl, replaces, by simp, by rw [last, eq]; simp⟩
    · rw [last, eq]
      rcases ih with ⟨none, held⟩ | ⟨before, l', after, payload, rfl, replaces, none, held⟩
      · left
        refine ⟨?_, by rw [held]; simp⟩
        simpa [or_imp, forall_and, keeps] using none
      · right
        refine ⟨before, l', after ++ [l], payload, by simp, replaces, ?_, by rw [held]; simp⟩
        simpa [or_imp, forall_and, keeps] using none

end Heard

end Galley
