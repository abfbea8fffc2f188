import Galley.Proofs.Step.Handling
import Mathlib.Data.List.Induction
/-!
# What a step's output shows

Those who watch a page do with every sent command what was done with the cached files, and those who
come later start from the files. A command that empties a part of the page is written and yet not sent
when another one was sent shortly before. Main statement: no other command of a file is withheld, and the
watchers see the content of a file unless a withheld command cleared what they saw and no later command
that was sent replaced it.
-/
namespace Galley

/-! ### Messages -/

namespace Progress

/-- What those who get the message make of what they see of a file. -/
def seen (m : Progress) (k : CacheKind) (content : List UInt8) : List UInt8 :=
  match Command.ofWord? m.command with
  | some c => c.effect m.payload k content
  | none => content

def clears (m : Progress) : Bool :=
  (Command.ofWord? m.command).any (·.isTrunc) && m.payload = ""

end Progress

namespace Heard

variable {l : Heard} {o : Output} {m : Progress}

/-- A message says what its line does. -/
theorem of_message (h : l.message? o = some m) :
    m.clears = l.clears ∧ ∀ k, m.seen k = l.effect k := by
  obtain ⟨⟨c, payload⟩, hc, told⟩ := Option.bind_eq_some_iff.mp h
  dsimp only at told
  split at told
  · exact nomatch told
  obtain rfl := Option.some.inj told
  refine ⟨?_, fun k => funext fun content => ?_⟩
  · rw [clears_of_command hc, Progress.clears, Output.progress, Command.ofWord?_word]
    rfl
  · rw [effect_of_command hc, Progress.seen, Output.progress, Command.ofWord?_word]

/-- A line without a message changes nothing. -/
theorem of_no_message (h : l.message? o = none) :
    l.clears = false ∧ ∀ k, l.effect k = id := by
  cases hc : l.command? with
  | none => exact ⟨(of_no_command hc).2.2, (of_no_command hc).1⟩
  | some order =>
    obtain ⟨c, payload⟩ := order
    rw [message_of_command hc] at h
    split at h
    · next env =>
      refine ⟨by simp [clears_of_command hc, env, Command.isTrunc], fun k => funext fun content => ?_⟩
      rw [effect_of_command hc, env]
      rfl
    · cases h

/-- What lines make of the content of a cached file one after another. -/
def effects (lines : List Heard) (k : CacheKind) (content : List UInt8) : List UInt8 :=
  lines.foldl (fun content l => l.effect k content) content

/-- A line replaces the content of a file, or it adds something to it. One that clears leaves nothing
of its own. -/
theorem effect_cases (l : Heard) (k : CacheKind) :
    (l.Replaces k ∧ ∃ b, (l.clears → b = []) ∧ ∀ content, l.effect k content = b) ∨
      (¬ l.Replaces k ∧ ∃ more, (l.clears → more = []) ∧
        ∀ content, l.effect k content = content ++ more) := by
  cases hc : l.command? with
  | none =>
    refine .inr ⟨?_, [], fun _ => rfl, fun content => ?_⟩
    · rintro ⟨c, payload, h, -⟩
      cases hc.symm.trans h
    · rw [(of_no_command hc).1, List.append_nil, id]
  | some order =>
  obtain ⟨c, payload⟩ := order
  have clears : l.clears → c.isTrunc ∧ payload = "" := by simp [clears_of_command hc]
  simp only [replaces_of_command hc, effect_of_command hc, Command.effect]
  cases hw : c.cacheWrite? with
  | none =>
    refine .inr ⟨?_, [], fun _ => rfl, fun content => (List.append_nil content).symm⟩
    rintro ⟨⟩
  | some w =>
    by_cases same : w.kind = k
    · subst same
      cases w with
      | replace k =>
        refine .inl ⟨rfl, payload.utf8, fun h => ?_, fun content => if_pos rfl⟩
        rw [(clears h).2]
        rfl
      | append k =>
        refine .inr ⟨?_, (payload ++ "\n").utf8, fun h => ?_, fun content => if_pos rfl⟩
        · rintro ⟨⟩
        · have trunc := (clears h).1
          cases c <;> simp [Command.isTrunc, Command.cacheWrite?] at trunc hw
    · refine .inr ⟨?_, [], fun _ => rfl, fun content => ?_⟩
      · rintro ⟨⟩
        exact same rfl
      · exact (if_neg same).trans (List.append_nil content).symm

end Heard

/-! ### All lines -/

/-- When the last message that empties a part of the page was sent. -/
def lastCleared (sent : List (Nat × Progress)) : Option Nat :=
  (sent.reverse.find? (·.2.clears)).map (·.1)

theorem lastCleared_concat (sent : List (Nat × Progress)) (instant : Nat) (m : Progress) :
    lastCleared (sent ++ [(instant, m)]) =
      if m.clears then some instant else lastCleared sent := by
  unfold lastCleared
  rw [List.reverse_concat, List.find?_cons]
  cases m.clears <;> rfl

/-- What handling the lines of a container has come to, with the messages that were sent and when. -/
structure Watched where
  output : Output
  files : Files
  sent : List (Nat × Progress)

namespace Watched

def hear (u : Watched) (l : Heard) : Watched :=
  let h := u.output.handle u.files l.text l.now l.instant
  ⟨h.output, h.files, u.sent ++ (h.sent.map (l.instant, ·)).toList⟩

def run (u : Watched) (lines : List Heard) : Watched :=
  lines.foldl hear u

/-- What those who watched from the start see of a file that had some content then. -/
def view (u : Watched) (k : CacheKind) (initial : List UInt8) : List UInt8 :=
  u.sent.foldl (fun content message => message.2.seen k content) initial

/-- Whether a line is not told because it empties a part of the page too soon after another one that
was sent. -/
def Withholds (u : Watched) (l : Heard) : Prop :=
  l.clears ∧ ∃ last, lastCleared u.sent = some last ∧ l.instant < last + Output.clearSpacing

/-- Whether the watchers miss a change of a file: a line cleared it untold while they saw something, and
no later line that was told replaced it. -/
def Misses (u : Watched) (k : CacheKind) (initial : List UInt8) (lines : List Heard) : Prop :=
  ∃ before l after, lines = before ++ l :: after ∧ l.Replaces k ∧ (u.run before).Withholds l ∧
    (u.run before).view k initial ≠ [] ∧
    ∀ between l' rest, after = between ++ l' :: rest → l'.Replaces k →
      (u.run (before ++ l :: between)).Withholds l'

section Hear

variable (u : Watched) (l : Heard)

theorem hear_output :
    (u.hear l).output = (u.output.handle u.files l.text l.now l.instant).output := rfl

theorem hear_files :
    (u.hear l).files = (u.output.handle u.files l.text l.now l.instant).files := rfl

theorem hear_sent : (u.hear l).sent = u.sent ++
    ((u.output.handle u.files l.text l.now l.instant).sent.map (l.instant, ·)).toList := rfl

end Hear

theorem run_concat (u : Watched) (lines : List Heard) (l : Heard) :
    u.run (lines ++ [l]) = (u.run lines).hear l :=
  List.foldl_concat ..

/-- How it stands with the files, whose content is known, after some lines. -/
structure Shows (o : Output) (content : CacheKind → List UInt8) (u : Watched) : Prop where
  continues : o.Continues u.output
  cleared : u.output.lastClear = lastCleared u.sent
  apart : ∀ k, u.files.place o.log.path ≠ u.files.place (Cache.path o.cacheDir k)
  read : ∀ k, u.files.read (Cache.path o.cacheDir k) = .ok (content k)

variable {o : Output} {content : CacheKind → List UInt8} {u : Watched} {k : CacheKind}
  {initial : List UInt8}

theorem Shows.withholds_iff (h : Shows o content u) (l : Heard) :
    u.Withholds l ↔ l.clears ∧ ¬ u.output.clearAllowed l.instant := by
  unfold Withholds Output.clearAllowed
  rw [h.cleared]
  refine and_congr_right fun _ => ?_
  cases lastCleared u.sent with
  | none => simp
  | some last =>
    simp only [Option.some.injEq, exists_eq_left', decide_eq_true_eq]
    unfold Output.clearSpacing
    omega

theorem Shows.handles (h : Shows o content u) (l : Heard) :
    u.output.Handles u.files content l (u.output.handle u.files l.text l.now l.instant) := by
  have same (k : CacheKind) : Cache.path u.output.cacheDir k = Cache.path o.cacheDir k :=
    congrArg (Cache.path · k) h.continues.cacheDir
  refine Output.handle_handles (fun k => same k ▸ h.read k) (fun k => ?_) l
  rw [same, h.continues.log]
  exact h.apart k

theorem Shows.sent_of_withholds (h : Shows o content u) {l : Heard} (held : u.Withholds l) :
    (u.hear l).sent = u.sent := by
  have none := (h.handles l).sent
  rw [if_pos ((h.withholds_iff l).mp held)] at none
  rw [hear_sent, none]
  exact List.append_nil u.sent

theorem Shows.sent_of_not_withholds (h : Shows o content u) {l : Heard} (told : ¬ u.Withholds l) :
    (u.hear l).sent = u.sent ++ ((l.message? o).map (l.instant, ·)).toList := by
  have sent := (h.handles l).sent
  rw [if_neg (mt (h.withholds_iff l).mpr told), h.continues.message l] at sent
  rw [hear_sent, sent]

theorem Shows.view_of_withholds (h : Shows o content u) {l : Heard} (held : u.Withholds l) :
    (u.hear l).view k initial = u.view k initial := by
  rw [view, h.sent_of_withholds held]
  rfl

theorem Shows.view_of_not_withholds (h : Shows o content u) {l : Heard} (told : ¬ u.Withholds l) :
    (u.hear l).view k initial = l.effect k (u.view k initial) := by
  rw [view, h.sent_of_not_withholds told, List.foldl_append]
  cases hm : l.message? o with
  | none =>
    rw [(Heard.of_no_message hm).2]
    rfl
  | some m =>
    rw [← (Heard.of_message hm).2]
    rfl

/-- One more line changes the content of the files as its command says. -/
theorem Shows.hear (h : Shows o content u) (l : Heard) :
    Shows o (fun k => l.effect k (content k)) (u.hear l) where
  continues := by
    rw [hear_output]
    exact h.continues.trans (h.handles l).continues
  cleared := by
    rw [hear_output, (h.handles l).lastClear]
    by_cases told : u.Withholds l
    · obtain ⟨clears, early⟩ := (h.withholds_iff l).mp told
      rw [h.sent_of_withholds told, if_neg (fun ⟨_, allowed⟩ => early allowed), h.cleared]
    · rw [h.sent_of_not_withholds told]
      cases hm : l.message? o with
      | none =>
        rw [if_neg (by simp [(Heard.of_no_message hm).1]), h.cleared]
        simp
      | some m =>
        rw [Option.map_some, Option.toList_some, lastCleared_concat, (Heard.of_message hm).1, h.cleared]
        by_cases clears : l.clears = true
        · have allowed : u.output.clearAllowed l.instant = true :=
            Decidable.of_not_not fun early => told ((h.withholds_iff l).mpr ⟨clears, early⟩)
          rw [if_pos ⟨clears, allowed⟩, if_pos clears]
        · rw [if_neg (fun ⟨h, _⟩ => clears h), if_neg clears]
  apart k := by
    rw [hear_files, (h.handles l).place]
    exact h.apart k
  read k := by
    rw [hear_files, ← h.continues.cacheDir]
    exact (h.handles l).read k

theorem Shows.run (h : Shows o content u) (lines : List Heard) :
    Shows o (fun k => Heard.effects lines k (content k)) (u.run lines) := by
  induction lines generalizing u content with
  | nil => exact h
  | cons l rest ih =>
    rw [Watched.run, List.foldl_cons]
    simp only [Heard.effects, List.foldl_cons]
    exact ih (h.hear l)

/-- With one more line a change is missed if that line clears what is seen untold, or if a change was
missed before unless the line is told and replaces the content. -/
theorem misses_concat (u : Watched) (k : CacheKind) (initial : List UInt8) (lines : List Heard)
    (l : Heard) : u.Misses k initial (lines ++ [l]) ↔
      (l.Replaces k ∧ (u.run lines).Withholds l ∧ (u.run lines).view k initial ≠ []) ∨
        (u.Misses k initial lines ∧ (l.Replaces k → (u.run lines).Withholds l)) := by
  constructor
  · rintro ⟨before, l', after, split, replaces, held, seen, later⟩
    obtain rfl | ⟨after, last, rfl⟩ := after.eq_nil_or_concat'
    · obtain ⟨rfl, one⟩ := List.append_inj' split rfl
      obtain rfl := List.singleton_injective one
      exact .inl ⟨replaces, held, seen⟩
    · rw [← List.cons_append, ← List.append_assoc] at split
      obtain ⟨rfl, one⟩ := List.append_inj' split rfl
      obtain rfl := List.singleton_injective one
      refine .inr ⟨⟨before, l', after, rfl, replaces, held, seen, fun between next rest hs => ?_⟩,
        later after l [] rfl⟩
      exact later between next (rest ++ [l]) (by rw [hs]; simp)
  · rintro (⟨replaces, held, seen⟩ | ⟨⟨before, l', after, rfl, replaces, held, seen, later⟩, last⟩)
    · exact ⟨lines, l, [], rfl, replaces, held, seen, fun between _ _ h => by simp at h⟩
    · refine ⟨before, l', after ++ [l], by simp, replaces, held, seen, fun between next rest hs => ?_⟩
      obtain rfl | ⟨rest, last', rfl⟩ := rest.eq_nil_or_concat'
      · obtain ⟨rfl, one⟩ := List.append_inj' hs rfl
        obtain rfl := List.singleton_injective one
        exact last
      · rw [← List.cons_append, ← List.append_assoc] at hs
        obtain ⟨rfl, -⟩ := List.append_inj' hs rfl
        exact later between next rest rfl

/-- What is seen of a file ends with its content, and what comes before it is there when a change was
missed. -/
theorem Shows.exists_ahead (h : Shows o content u) (fresh : u.sent = []) (k : CacheKind)
    (lines : List Heard) :
    ∃ ahead, (u.run lines).view k (content k) = ahead ++ Heard.effects lines k (content k) ∧
      (ahead = [] ↔ ¬ u.Misses k (content k) lines) := by
  -- What is ahead changes in two ways: an untold clearing puts all that was seen there, and a told
  -- replacement takes it away.
  induction lines using List.reverseRecOn with
  | nil =>
    refine ⟨[], ?_, fun _ ⟨before, l, after, split, _⟩ => ?_, fun _ => rfl⟩
    · rw [view, Watched.run, List.foldl_nil, fresh]
      rfl
    · simp at split
  | append_singleton lines l ih =>
    obtain ⟨ahead, seen, missed⟩ := ih
    have stand := h.run lines
    rw [run_concat, Heard.effects, List.foldl_concat, ← Heard.effects, misses_concat]
    generalize Heard.effects lines k (content k) = held at seen ⊢
    by_cases told : (u.run lines).Withholds l
    · rw [stand.view_of_withholds told]
      obtain ⟨replaces, b, empty, eq⟩ | ⟨keeps, more, empty, eq⟩ := l.effect_cases k
      · refine ⟨ahead ++ held, by rw [eq, empty told.1, seen, List.append_nil], ?_⟩
        simp only [seen, replaces, told, true_and, forall_const, and_true, ne_eq, not_or, not_not]
        exact ⟨fun none => ⟨none, missed.mp (List.append_eq_nil_iff.mp none).1⟩, fun h => h.1⟩
      · refine ⟨ahead, by rw [eq, empty told.1, seen, List.append_nil], ?_⟩
        simp only [keeps, false_and, false_or, false_implies, and_true]
        exact missed
    · rw [stand.view_of_not_withholds told]
      obtain ⟨replaces, b, empty, eq⟩ | ⟨keeps, more, empty, eq⟩ := l.effect_cases k
      · refine ⟨[], by rw [eq, eq, List.nil_append], ?_⟩
        simp [replaces, told]
      · refine ⟨ahead, by rw [eq, eq, seen, List.append_assoc], ?_⟩
        simp only [keeps, false_and, false_or, false_implies, and_true]
        exact missed

/-- A step before its first line. -/
def start (o : Output) (files : Files) : Watched :=
  ⟨o, files, []⟩

theorem shows_start {files : Files} (fresh : o.lastClear = none)
    (readable : ∀ k, files.read (Cache.path o.cacheDir k) = .ok (content k))
    (apart : ∀ k, files.place o.log.path ≠ files.place (Cache.path o.cacheDir k)) :
    Shows o content (start o files) :=
  ⟨⟨rfl, rfl, rfl⟩, fresh, apart, readable⟩

/-- Where the cached files can be read and the log is none of them, every line is written as its command
says, and told unless it clears a part of the page less than ten milliseconds after the last one told
that did. What is seen of a file is its content exactly when no change is missed. -/
theorem view_eq_content_iff {files : Files} {initial : CacheKind → List UInt8}
    (fresh : o.lastClear = none)
    (readable : ∀ k, files.read (Cache.path o.cacheDir k) = .ok (initial k))
    (apart : ∀ k, files.place o.log.path ≠ files.place (Cache.path o.cacheDir k))
    (lines : List Heard) :
    let u := (start o files).run lines
    (∀ l, (u.Withholds l → (u.hear l).sent = u.sent) ∧
      (¬ u.Withholds l → (u.hear l).sent = u.sent ++ ((l.message? o).map (l.instant, ·)).toList)) ∧
    ∀ k, u.files.read (Cache.path o.cacheDir k) = .ok (Heard.effects lines k (initial k)) ∧
      (u.view k (initial k) = Heard.effects lines k (initial k) ↔
        ¬ (start o files).Misses k (initial k) lines) := by
  have begun := shows_start fresh readable apart
  have stand := begun.run lines
  refine ⟨fun l => ⟨stand.sent_of_withholds, stand.sent_of_not_withholds⟩, fun k => ?_⟩
  obtain ⟨ahead, seen, missed⟩ := begun.exists_ahead rfl k lines
  refine ⟨stand.read k, ?_⟩
  rw [seen, List.append_left_eq_self]
  exact missed

/-- An output before its first line, with the cached files in the working directory. -/
def quiet : Output :=
  ⟨"1", "u1", "individual", "", ⟨"1", "deadbeef", "alpine:latest"⟩, ⟨"run.log", 0, ""⟩, none, []⟩

/-- The three files are there and empty. -/
def blank : Files :=
  ⟨.directory [("cache.html", .file []), ("cache.css", .file []), ("cache.js", .file [])], ""⟩

theorem blank_readable (k : CacheKind) : blank.read (Cache.path quiet.cacheDir k) = .ok [] := by
  cases k <;> rfl

theorem blank_apart (k : CacheKind) :
    blank.place quiet.log.path ≠ blank.place (Cache.path quiet.cacheDir k) := by
  cases k <;> decide

/-- A page is cleared, gets a line and is cleared again in one instant. -/
def flicker : List Heard :=
  ["lemc.html.trunc;", "lemc.html.append;x", "lemc.html.trunc;"].map (⟨·, 0, 0⟩)

theorem flicker_read : ((start quiet blank).run flicker).files.read (Cache.path quiet.cacheDir .html) =
    .ok [] := by
  decide +kernel

theorem flicker_view : ((start quiet blank).run flicker).view .html [] = "x\n".utf8 := by
  decide +kernel

theorem view_eq_content_iff_flicker :
    (quiet.lastClear = none ∧ (∀ k, blank.read (Cache.path quiet.cacheDir k) = .ok []) ∧
      ∀ k, blank.place quiet.log.path ≠ blank.place (Cache.path quiet.cacheDir k)) ∧
    (start quiet blank).Misses .html [] flicker := by
  refine ⟨⟨rfl, blank_readable, blank_apart⟩, ?_⟩
  obtain ⟨found, missed⟩ :=
    (@view_eq_content_iff quiet blank (fun _ => []) rfl blank_readable blank_apart flicker).2 .html
  rw [flicker_read] at found
  rw [flicker_view, ← Except.ok.inj found] at missed
  exact Classical.byContradiction fun all => nomatch missed.mpr all

/-- What is seen need not be the content: the second clearing is not told. -/
theorem not_view_eq_content : ¬ ∀ (o : Output) (files : Files) (initial : CacheKind → List UInt8)
    (lines : List Heard), o.lastClear = none →
    (∀ k, files.read (Cache.path o.cacheDir k) = .ok (initial k)) →
    (∀ k, files.place o.log.path ≠ files.place (Cache.path o.cacheDir k)) →
    ∀ k, ((start o files).run lines).files.read (Cache.path o.cacheDir k) =
      .ok (((start o files).run lines).view k (initial k)) := by
  intro claim
  have agrees := claim quiet blank (fun _ => []) flicker rfl blank_readable blank_apart .html
  rw [flicker_read, flicker_view] at agrees
  exact nomatch Except.ok.inj agrees

end Watched

end Galley
