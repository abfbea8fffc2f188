import Galley.Proofs.Files.Overwriting
import Galley.Proofs.Text.Blank
import Galley.Step.Output
/-!
# One line of a step's output

What the handling of a line leaves in the cached files and what it tells those who watch. Main
statement: where the files can be read and the log is none of them, a command is written as it says, and
it is told unless it empties a part of the page and another one that did was told shortly before.
-/
namespace Galley

/-! ### Logs -/

namespace StepLog

variable {log : StepLog} {files : Files}

/-- Writing to a log changes no file but the log's own. -/
structure Writes (log : StepLog) (files : Files) (after : StepLog × Files) : Prop where
  path : after.1.path = log.path
  spares : files.Spares log.path after.2

theorem Writes.refl (log : StepLog) (files : Files) : log.Writes files (log, files) :=
  ⟨rfl, .refl files log.path⟩

theorem Writes.trans {next last : StepLog × Files} (h : log.Writes files next)
    (h' : next.1.Writes next.2 last) : log.Writes files last where
  path := h'.path.trans h.path
  spares := h.spares.trans (h.path ▸ h'.spares)

theorem append_spares (log : StepLog) (text : String) (files : Files) :
    files.Spares log.path (log.append text files) := by
  unfold append
  split
  · next there => exact Files.append_spares there text.utf8
  · exact .refl files log.path

theorem writePart_writes (log : StepLog) (files : Files) (part : String) :
    log.Writes files (log.writePart files part) := by
  unfold writePart
  have first : log.Writes files (if capacity < log.held.utf8ByteSize + part.utf8ByteSize
      then log.flush files else (log, files)) := by
    split
    · exact ⟨rfl, log.append_spares log.held files⟩
    · exact .refl log files
  generalize (if capacity < _ then log.flush files else (log, files)) = next at first ⊢
  obtain ⟨log', files'⟩ := next
  dsimp only
  split
  · exact first.trans ⟨rfl, log'.append_spares part files'⟩
  · exact ⟨first.path, first.spares⟩

theorem write_writes (log : StepLog) (now : Int) (source : LineSource) (message : String)
    (files : Files) : log.Writes files (log.write now source message files) := by
  unfold write
  generalize log.lineParts now source message = parts
  induction parts generalizing log files with
  | nil => exact .refl log files
  | cons part rest ih => exact (log.writePart_writes files part).trans (ih _ _)

end StepLog

/-! ### Cached files -/

namespace Cache

variable {dir : String} {files : Files} {content : List UInt8} {k : CacheKind}

theorem place_path {place : List String} (hp : files.place (path dir k) = .ok place) :
    ∃ above, place = above ++ [k.fileName] := by
  refine Files.place_join ?_ ?_ ?_ ?_ hp
  all_goals cases k <;> decide

/-- The files of one directory are different ones. -/
theorem place_ne {k' : CacheKind} (readable : files.read (path dir k) = .ok content) (h : k' ≠ k) :
    files.place (path dir k') ≠ files.place (path dir k) := by
  intro same
  obtain ⟨place, hp, -⟩ := Files.read_eq_ok.mp readable
  obtain ⟨above, rfl⟩ := place_path hp
  obtain ⟨above', eq⟩ := place_path (same.trans hp)
  have name : k.fileName = k'.fileName := (List.append_singleton_inj.mp eq).2
  revert name
  cases k <;> cases k' <;> first | exact absurd rfl h | decide

/-- A file that can be read can be written, and it has what the write makes of its content. -/
theorem exists_write {w : CacheWrite} (readable : files.read (path dir w.kind) = .ok content)
    (payload : String) :
    ∃ files', write dir w payload files = (.ok (), files') ∧
      files.Overwrites (path dir w.kind) (w.contentAfter payload content) files' := by
  obtain ⟨place, hp, found⟩ := Files.read_eq_ok.mp readable
  obtain ⟨above, rfl⟩ := place_path hp
  cases w with
  | replace k =>
    obtain ⟨files', eq, wrote⟩ : ∃ files', files.write (path dir k) payload.utf8 = .ok files' ∧
        files.Overwrites (path dir k) payload.utf8 files' := Files.exists_overwrites hp found rfl
    exact ⟨files', by simp only [write, replace, FileWork.step, eq], wrote⟩
  | append k =>
    obtain ⟨files', eq, wrote⟩ : ∃ files',
        files.append (path dir k) (payload ++ "\n").utf8 = .ok files' ∧
          files.Overwrites (path dir k) (content ++ (payload ++ "\n").utf8) files' :=
      Files.exists_overwrites hp found rfl
    exact ⟨files', by simp only [write, append, FileWork.step, eq], wrote⟩

end Cache

/-! ### Commands -/

namespace Command

theorem parse?_eq_some {line payload : String} {c : Command} (h : parse? line = some (c, payload)) :
    line.toList = c.word.toList ++ payload.toList := by
  obtain ⟨_, -, found⟩ := List.exists_of_findSome?_eq_some h
  obtain ⟨_, after, ⟨⟩⟩ := Option.map_eq_some_iff.mp found
  obtain ⟨rest, cut, rfl⟩ := Option.map_eq_some_iff.mp after
  rw [String.toList_ofList]
  exact Text.eq_append_of_after? cut

theorem payload_blank_iff {text payload : String} {c : Command}
    (h : parse? text.trimBlanks = some (c, payload)) : payload.trimBlanks = "" ↔ payload = "" := by
  refine ⟨fun blank => ?_, fun empty => by rw [empty]; rfl⟩
  have line := parse?_eq_some h
  rw [String.trimBlanks, String.toList_ofList] at line
  have all : ∀ d ∈ payload.toList, Text.isBlank d = true :=
    Text.isBlank_of_trim_eq_nil (String.ofList_injective (blank.trans rfl))
  cases last : payload.toList.getLast? with
  | none => exact String.ext (List.getLast?_eq_none_iff.mp last)
  | some d =>
    have ends : (Text.trim text.toList).getLast? = some d := by
      rw [line, List.getLast?_append, last]
      rfl
    have solid := (Text.trimmed_trim _).last _ ends
    exact absurd (all d (List.mem_of_getLast? last)) (by simp [solid])

/-- The command with a word. -/
def ofWord? (word : String) : Option Command :=
  all.find? (·.word = word)

theorem ofWord?_word (c : Command) : ofWord? c.word = some c := by
  cases c <;> decide

/-- What a command with a payload makes of the content of a cached file. -/
def effect (c : Command) (payload : String) (k : CacheKind) (content : List UInt8) : List UInt8 :=
  match c.cacheWrite? with
  | some w => if w.kind = k then w.contentAfter payload content else content
  | none => content

end Command

/-! ### One line -/

/-- A line of a container, with the time and the instant at which it is handled. -/
structure Heard where
  text : String
  now : Int
  instant : Nat
  deriving DecidableEq, Repr

namespace Heard

@[irreducible]
def command? (l : Heard) : Option (Command × String) :=
  Command.parse? l.text.trimBlanks

/-- What the line makes of the content of a cached file. -/
def effect (l : Heard) (k : CacheKind) (content : List UInt8) : List UInt8 :=
  l.command?.elim content fun (c, payload) => c.effect payload k content

/-- The message that tells of the line. An announced variable is not told. -/
def message? (l : Heard) (o : Output) : Option Progress :=
  l.command?.bind fun (c, payload) => if c = .env then none else some (o.progress c payload)

/-- Whether the line empties a part of the page. -/
def clears (l : Heard) : Bool :=
  l.command?.any fun (c, payload) => c.isTrunc && payload = ""

/-- Whether the line makes its payload the whole content of a file. -/
def Replaces (l : Heard) (k : CacheKind) : Prop :=
  ∃ c payload, l.command? = some (c, payload) ∧ c.cacheWrite? = some (.replace k)

section Parsed

variable {l : Heard} {c : Command} {payload : String} (h : l.command? = some (c, payload))

include h

theorem effect_of_command (k : CacheKind) (content : List UInt8) :
    l.effect k content = c.effect payload k content := by
  rw [effect, h]
  rfl

theorem message_of_command (o : Output) :
    l.message? o = if c = .env then none else some (o.progress c payload) := by
  rw [message?, h]
  rfl

theorem clears_of_command : l.clears = (c.isTrunc && decide (payload = "")) := by
  rw [clears, h]
  rfl

/-- A payload at the end of a trimmed line is not blank unless it is empty. -/
theorem blank_of_command : payload.trimBlanks = "" ↔ payload = "" := by
  unfold command? at h
  exact Command.payload_blank_iff h

theorem replaces_of_command (k : CacheKind) :
    l.Replaces k ↔ c.cacheWrite? = some (.replace k) := by
  simp [Replaces, h]

end Parsed

/-- A line without a command does nothing. -/
theorem of_no_command {l : Heard} (h : l.command? = none) :
    (∀ k, l.effect k = id) ∧ (∀ o, l.message? o = none) ∧ l.clears = false := by
  unfold effect message? clears
  rw [h]
  exact ⟨fun _ => rfl, fun _ => rfl, rfl⟩

end Heard

namespace Output

variable {o : Output} {files files' : Files} {content : CacheKind → List UInt8} {l : Heard}
  {c : Command} {payload : String}

/-- Whether an output is another one of the same step and the same files. -/
structure Continues (o o' : Output) : Prop where
  progress : o'.progress = o.progress
  cacheDir : o'.cacheDir = o.cacheDir
  log : o'.log.path = o.log.path

theorem Continues.trans {o' o'' : Output} (h : o.Continues o') (h' : o'.Continues o'') :
    o.Continues o'' :=
  ⟨h'.progress.trans h.progress, h'.cacheDir.trans h.cacheDir, h'.log.trans h.log⟩

theorem Continues.message {o' : Output} (h : o.Continues o') (l : Heard) :
    l.message? o' = l.message? o := by
  unfold Heard.message?
  rw [h.progress]

/-- What the handling of a line comes to where the cached files can be read. -/
structure Handles (o : Output) (files : Files) (content : CacheKind → List UInt8) (l : Heard)
    (h : Handled) : Prop where
  continues : o.Continues h.output
  place : h.files.place = files.place
  read : ∀ k, h.files.read (Cache.path o.cacheDir k) = .ok (l.effect k (content k))
  sent : h.sent = if l.clears ∧ ¬ o.clearAllowed l.instant then none else l.message? o
  lastClear : h.output.lastClear =
    if l.clears ∧ o.clearAllowed l.instant then some l.instant else o.lastClear

/-- A line without a command has no effect but on the log. -/
theorem handles_of_none (h : l.command? = none) (log : StepLog) (same : log.path = o.log.path)
    (place : files'.place = files.place)
    (read : ∀ k, files'.read (Cache.path o.cacheDir k) = .ok (content k)) :
    o.Handles files content l ⟨{ o with log }, files', .continue, none⟩ where
  continues := ⟨rfl, rfl, same⟩
  place := place
  read k := by
    rw [(Heard.of_no_command h).1]
    exact read k
  sent := by simp [Heard.of_no_command h]
  lastClear := by simp [Heard.of_no_command h]

theorem forward_handles (h : l.command? = some (c, payload)) (told : c ≠ .env)
    (place : files'.place = files.place)
    (read : ∀ k, files'.read (Cache.path o.cacheDir k) = .ok (l.effect k (content k))) :
    o.Handles files content l (o.forward files' l.instant c payload) := by
  have clears : l.clears = true ↔ c.isTrunc ∧ payload.trimBlanks = "" := by
    simp [Heard.clears_of_command h, Heard.blank_of_command h]
  have message : l.message? o = some (o.progress c payload) := by
    rw [Heard.message_of_command h, if_neg told]
  unfold forward
  by_cases hc : l.clears = true
  · rw [if_pos (clears.mp hc)]
    by_cases allowed : o.clearAllowed l.instant = true
    · rw [if_pos allowed]
      exact ⟨⟨rfl, rfl, rfl⟩, place, read, by simp [allowed, message], by simp [hc, allowed]⟩
    · rw [if_neg allowed]
      exact ⟨⟨rfl, rfl, rfl⟩, place, read, by simp [hc, allowed], by simp [allowed]⟩
  · rw [if_neg (mt clears.mpr hc)]
    exact ⟨⟨rfl, rfl, rfl⟩, place, read, by simp [hc, message], by simp [hc]⟩

theorem obey_of_write {w : CacheWrite} (hw : c.cacheWrite? = some w) {instant : Nat}
    (written : Cache.write o.cacheDir w payload files = (.ok (), files')) :
    o.obey files instant c payload = o.forward files' instant c payload := by
  cases c with
  | env => exact nomatch hw
  | err => exact nomatch hw
  | _ =>
    obtain rfl := Option.some.inj hw
    simp only [obey, Command.cacheWrite?, written]

theorem obey_handles (h : l.command? = some (c, payload))
    (readable : ∀ k, files.read (Cache.path o.cacheDir k) = .ok (content k)) :
    o.Handles files content l (o.obey files l.instant c payload) := by
  cases hw : c.cacheWrite? with
  | some w =>
    obtain ⟨files', written, wrote⟩ := Cache.exists_write (readable w.kind) payload
    rw [obey_of_write hw written]
    refine forward_handles h (fun env => nomatch env ▸ hw) wrote.place fun k => ?_
    have effect : l.effect k (content k) =
        if w.kind = k then w.contentAfter payload (content k) else content k := by
      simp only [Heard.effect_of_command h, Command.effect, hw]
    rw [effect]
    by_cases same : w.kind = k
    · subst same
      rw [if_pos rfl]
      exact wrote.found
    · rw [if_neg same]
      exact wrote.other _ _ (Cache.place_ne (readable w.kind) (Ne.symm same)) (readable k)
  | none =>
    have effect (k : CacheKind) : l.effect k (content k) = content k := by
      simp only [Heard.effect_of_command h, Command.effect, hw]
    have read (k : CacheKind) : files.read (Cache.path o.cacheDir k) = .ok (l.effect k (content k)) :=
      (effect k).symm ▸ readable k
    cases c with
    | env =>
      have announced : (o.obey files l.instant .env payload).output.lastClear = o.lastClear ∧
          o.Continues (o.obey files l.instant .env payload).output := by
        simp only [obey]
        split <;> exact ⟨rfl, rfl, rfl, rfl⟩
      exact ⟨announced.2, rfl, read, by simp [obey, Heard.message_of_command h],
        announced.1.trans (by simp [Heard.clears_of_command h, Command.isTrunc])⟩
    | err =>
      exact ⟨⟨rfl, rfl, rfl⟩, rfl, read,
        by simp [obey, Heard.clears_of_command h, Heard.message_of_command h, Command.isTrunc],
        by simp [obey, Heard.clears_of_command h, Command.isTrunc]⟩
    | _ => exact nomatch hw

/-- A line changes the cached files as its command says. It is told unless it clears a part of the page
too early. -/
theorem handle_handles (readable : ∀ k, files.read (Cache.path o.cacheDir k) = .ok (content k))
    (apart : ∀ k, files.place o.log.path ≠ files.place (Cache.path o.cacheDir k)) (l : Heard) :
    o.Handles files content l (o.handle files l.text l.now l.instant) := by
  unfold handle
  dsimp only
  split
  · next blank =>
    have h : l.command? = none := by rw [Heard.command?, blank]; decide
    exact handles_of_none h o.log rfl rfl readable
  have logged := o.log.write_writes l.now o.source l.text.trimBlanks files
  generalize o.log.write l.now o.source l.text.trimBlanks files = after at logged
  obtain ⟨log, files'⟩ := after
  dsimp only
  have read (k : CacheKind) : files'.read (Cache.path o.cacheDir k) = .ok (content k) :=
    logged.spares.other _ _ (Ne.symm (apart k)) (readable k)
  have place : files'.place = files.place := logged.spares.place
  rw [← Heard.command?]
  cases h : l.command? with
  | none => exact handles_of_none h log logged.path place read
  | some order =>
    obtain ⟨c, payload⟩ := order
    have begun : o.Continues { o with log } := ⟨rfl, rfl, logged.path⟩
    have done := obey_handles (o := { o with log }) h read
    refine ⟨begun.trans done.continues, done.place.trans place, done.read, ?_, done.lastClear⟩
    rw [← begun.message l]
    exact done.sent

end Output

end Galley
