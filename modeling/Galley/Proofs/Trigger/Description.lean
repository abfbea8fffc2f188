import Galley.Proofs.Duration.Grammar
import Galley.Proofs.Queue.Record
/-!
# Which texts are triggers

A trigger's text names a kind and a duration, and for a job that fires once perhaps whether it has fired. No
part holds the separator, so that a text falls into its parts in one way. Main statement: a text is read as a
trigger exactly when it describes one or has a stray part behind the duration. A stray part is passed over, and
a record with one is read like any other.
-/
namespace Galley

namespace Duration

theorem separator_not_mem_of_parse {s : String} {d : Duration} (h : parse s = .ok d) :
    Trigger.separator ∉ s.toList := by
  have behindSign {cs : List Char} (rest : Trigger.separator ∉ afterSign cs) :
      Trigger.separator ∉ cs := by
    unfold afterSign at rest
    split at rest
    · exact fun m => rest ((List.mem_cons.mp m).resolve_left (by decide))
    · exact rest
  apply behindSign
  rcases exists_row_of_parse h with zero | ⟨row, -, spelled, read, -⟩
  · rw [zero]
    decide
  · rw [spelled]
    intro m
    obtain ⟨a, ha, m⟩ := List.mem_flatMap.mp m
    rcases List.mem_append.mp m with m | m
    · exact absurd (isNumberChar_of_mem_of_isRead (read a ha) _ m) (by decide)
    · have names (u : TimeUnit) : ∀ name ∈ u.names, Trigger.separator ∉ name.toList := by
        cases u <;> decide
      exact names a.unit a.name a.named m

end Duration

namespace Trigger

/-- The text describes the trigger. -/
inductive Describes : String → Trigger → Prop
  | once {d : String} {delay : Duration} : Duration.parse d = .ok delay →
      Describes ("⇶".intercalate ["RunOnceTrigger", d]) (.runOnce delay false)
  | valid {d : String} {delay : Duration} : Duration.parse d = .ok delay →
      Describes ("⇶".intercalate ["RunOnceTrigger", d, "valid"]) (.runOnce delay false)
  | expired {d : String} {delay : Duration} : Duration.parse d = .ok delay →
      Describes ("⇶".intercalate ["RunOnceTrigger", d, "expired"]) (.runOnce delay true)
  | simple {d : String} {interval : Duration} : Duration.parse d = .ok interval →
      Describes ("⇶".intercalate ["SimpleTrigger", d]) (.simple interval)

/-- The text describes the trigger but for a last part, which has no meaning behind its kind. -/
inductive Strays : String → Trigger → Prop
  | once {d part : String} {delay : Duration} : Duration.parse d = .ok delay →
      separator ∉ part.toList → part ≠ "valid" → part ≠ "expired" →
      Strays ("⇶".intercalate ["RunOnceTrigger", d, part]) (.runOnce delay false)
  | simple {d part : String} {interval : Duration} : Duration.parse d = .ok interval →
      separator ∉ part.toList →
      Strays ("⇶".intercalate ["SimpleTrigger", d, part]) (.simple interval)

/-! ### Parts -/

variable {s : String} {t : Trigger}

/-- Parts without the separator are found again in the text that they are joined to. -/
theorem pieces_joined {parts : List String} (filled : parts ≠ [])
    (free : ∀ p ∈ parts, separator ∉ p.toList) :
    Text.pieces separator ("⇶".intercalate parts).toList = parts.map String.toList := by
  have mark : "⇶".toList = [separator] := rfl
  rw [String.toList_intercalate, mark]
  exact Text.pieces_intercalate (by simpa using filled) (by simpa using free)

/-- Every text is its parts with separators between them. -/
theorem joined_pieces {ps : List (List Char)} (h : Text.pieces separator s.toList = ps) :
    s = "⇶".intercalate (ps.map String.ofList) ∧ ∀ p ∈ ps, separator ∉ p := by
  obtain ⟨made, free⟩ := Text.pieces_spec separator s.toList
  rw [h] at made free
  have mark : "⇶".toList = [separator] := rfl
  refine ⟨String.toList_inj.mp ?_, free⟩
  rw [String.toList_intercalate, mark, List.map_map, ← made]
  exact congrArg _ (by simp)

/-- A kind and a duration, and perhaps one more part. -/
theorem pieces_kind {kind d : String} {span : Duration} (hkind : separator ∉ kind.toList)
    (read : Duration.parse d = .ok span) :
    Text.pieces separator ("⇶".intercalate [kind, d]).toList = [kind.toList, d.toList] ∧
      ∀ part : String, separator ∉ part.toList →
        Text.pieces separator ("⇶".intercalate [kind, d, part]).toList =
          [kind.toList, d.toList, part.toList] := by
  have hd := Duration.separator_not_mem_of_parse read
  refine ⟨pieces_joined (by simp) ?_, fun part hpart => pieces_joined (by simp) ?_⟩
  · simp [hkind, hd]
  · simp [hkind, hd, hpart]

/-! ### What is read -/

theorem parse_of_describes (h : Describes s t) : parse s = .ok t := by
  rw [parse_eq_ok_iff]
  cases h with
  | @once d delay read =>
    exact ⟨_, _, none, delay, (pieces_kind (by decide) read).1, by simpa using read, by simp⟩
  | @valid d delay read =>
    exact ⟨_, _, some _, delay, (pieces_kind (by decide) read).2 "valid" (by decide),
      by simpa using read, by simp⟩
  | @expired d delay read =>
    exact ⟨_, _, some _, delay, (pieces_kind (by decide) read).2 "expired" (by decide),
      by simpa using read, by simp⟩
  | @simple d interval read =>
    exact ⟨_, _, none, interval, (pieces_kind (by decide) read).1, by simpa using read, by simp⟩

theorem parse_of_strays (h : Strays s t) : parse s = .ok t := by
  rw [parse_eq_ok_iff]
  cases h with
  | @once d part delay read free notValid notExpired =>
    have other : ¬ some part.toList = some "expired".toList := fun same =>
      notExpired (String.toList_inj.mp (Option.some.inj same))
    refine ⟨_, _, some _, delay, (pieces_kind (by decide) read).2 part free, by simpa using read, ?_⟩
    rw [decide_eq_false other]
    exact .inl ⟨rfl, rfl⟩
  | @simple d part interval read free =>
    exact ⟨_, _, some _, interval, (pieces_kind (by decide) read).2 part free,
      by simpa using read, by simp⟩

theorem describes_or_strays_of_parse (h : parse s = .ok t) : Describes s t ∨ Strays s t := by
  obtain ⟨kind, duration, more, d, same, read, parts⟩ := parse_eq_ok_iff.mp h
  obtain ⟨rfl, free⟩ := joined_pieces same
  rcases parts with ⟨rfl, rfl⟩ | ⟨rfl, rfl⟩
  · cases more with
    | none => exact .inl (.once read)
    | some more =>
      have hmore : separator ∉ (String.ofList more).toList := by simpa using free more (by simp)
      by_cases expired : more = "expired".toList
      · rw [expired]
        exact .inl (.expired read)
      by_cases valid : more = "valid".toList
      · rw [valid]
        exact .inl (.valid read)
      · have other {name : String} (h : more ≠ name.toList) : String.ofList more ≠ name := by
          rintro rfl
          exact h String.toList_ofList.symm
        rw [decide_eq_false fun same => expired (Option.some.inj same)]
        exact .inr (.once read hmore (other valid) (other expired))
  · cases more with
    | none => exact .inl (.simple read)
    | some more => exact .inr (.simple read (by simpa using free more (by simp)))

/-- A description has two parts, or its third says whether the job has fired. -/
theorem Describes.pieces (h : Describes s t) :
    (∃ kind d, Text.pieces separator s.toList = [kind, d]) ∨ ∃ d last,
      Text.pieces separator s.toList = ["RunOnceTrigger".toList, d, last] ∧
        (last = "valid".toList ∨ last = "expired".toList) := by
  cases h with
  | once read => exact .inl ⟨_, _, (pieces_kind (by decide) read).1⟩
  | valid read =>
    exact .inr ⟨_, _, (pieces_kind (by decide) read).2 "valid" (by decide), .inl rfl⟩
  | expired read =>
    exact .inr ⟨_, _, (pieces_kind (by decide) read).2 "expired" (by decide), .inr rfl⟩
  | simple read => exact .inl ⟨_, _, (pieces_kind (by decide) read).1⟩

theorem Strays.not_describes (h : Strays s t) (t' : Trigger) : ¬ Describes s t' := by
  intro described
  have parts := described.pieces
  cases h with
  | once read free notValid notExpired =>
    rw [(pieces_kind (by decide) read).2 _ free] at parts
    rcases parts with ⟨kind, d, same⟩ | ⟨d, last, same, own⟩
    · simp at same
    · simp only [List.cons.injEq, and_true, true_and] at same
      obtain ⟨rfl, rfl⟩ := same
      exact own.elim (fun h => notValid (String.toList_inj.mp h))
        fun h => notExpired (String.toList_inj.mp h)
  | simple read free =>
    rw [(pieces_kind (by decide) read).2 _ free] at parts
    rcases parts with ⟨kind, d, same⟩ | ⟨d, last, same, own⟩
    · simp at same
    · exact absurd (List.cons.inj same).1 (by decide)

/-- What is read as a trigger are the texts that describe one and those with a stray part, which describe none;
and a record of a queue is read exactly when its trigger is. -/
theorem describes_or_strays_iff (s : String) (q : QueueName) (bytes : List UInt8) :
    (∀ t, parse s = .ok t ↔ Describes s t ∨ Strays s t) ∧
      ¬ ((∃ t, Describes s t) ∧ ∃ t, Strays s t) ∧
      ∀ t, (∃ f, Record.decode q bytes = .ok f ∧ f.trigger = t) ↔
        ∃ raw, Record.IsRaw q bytes raw ∧ (Describes raw.trigger t ∨ Strays raw.trigger t) := by
  have read (s : String) (t : Trigger) : parse s = .ok t ↔ Describes s t ∨ Strays s t :=
    ⟨describes_or_strays_of_parse, fun h => h.elim parse_of_describes parse_of_strays⟩
  refine ⟨read s, fun ⟨⟨t, described⟩, t', strays⟩ => strays.not_describes t described, fun t => ?_⟩
  constructor
  · rintro ⟨f, decoded, rfl⟩
    obtain ⟨raw, t, fields, parsed, rfl⟩ := Record.decode_eq_ok_iff.mp decoded
    exact ⟨raw, fields, (read _ _).mp parsed⟩
  · rintro ⟨raw, fields, parsed⟩
    exact ⟨_, Record.decode_eq_ok_iff.mpr ⟨raw, t, fields, (read _ _).mpr parsed, rfl⟩, rfl⟩

/-- A job that has fired is read as one that is still to fire when its mark is spoilt. -/
theorem exists_stray_read :
    parse "RunOnceTrigger⇶5s⇶Expired" = .ok (.runOnce (.ofSeconds 5) false) ∧
      ¬ ∃ t, Describes "RunOnceTrigger⇶5s⇶Expired" t := by
  have strays : Strays "RunOnceTrigger⇶5s⇶Expired" (.runOnce (.ofSeconds 5) false) :=
    @Strays.once "5s" "Expired" _ (by decide) (by decide) (by decide) (by decide)
  exact ⟨parse_of_strays strays, fun ⟨t, described⟩ => strays.not_describes t described⟩

end Trigger

end Galley
