import Galley.Proofs.Duration.Text
import Galley.Proofs.Text.Cut
import Galley.Trigger
/-!
# Triggers read back

The parts of a trigger's text hold no separator, so the text falls into the parts that it was put
together from. Main statement: a written trigger is read as the trigger that was written, its
duration as far as 64 bits hold it.
-/
namespace Galley

namespace Trigger

/-- The trigger with its duration as far as 64 bits hold it. -/
def capped : Trigger → Trigger
  | .runOnce delay expired => .runOnce delay.capped expired
  | .simple interval => .simple interval.capped

@[simp] theorem isExpired_capped (t : Trigger) : t.capped.isExpired = t.isExpired := by
  cases t <;> rfl

theorem separator_ne_of_isNumberChar {c : Char} (h : Duration.isNumberChar c = true) :
    separator ≠ c := by
  rintro rfl
  exact absurd h (by decide)

/-- A written duration has no separator in it. -/
theorem separator_not_mem_write (d : Duration) : separator ∉ d.write := by
  have decimal (n : Nat) : separator ∉ Text.Numeral.decimal n := fun h =>
    separator_ne_of_isNumberChar (Duration.isNumberChar_of_mem_decimal h) rfl
  have number (whole n width : Nat) : separator ∉ Duration.withFraction whole n width := fun h =>
    separator_ne_of_isNumberChar (Duration.isNumberChar_of_mem_withFraction h) rfl
  have units : separator ∉ ['0', 's'] ∧ separator ∉ ['n', 's'] ∧ separator ∉ ['µ', 's'] ∧
      separator ∉ ['m', 's'] ∧ separator ∉ ['h'] ∧ separator ∉ ['m'] ∧ separator ∉ ['s'] := by
    decide
  unfold Duration.write
  generalize d.capped.nanos = n
  dsimp only
  split
  · exact units.1
  split
  · simp only [List.mem_append, number, units, or_self, not_false_iff]
  split
  · simp only [List.mem_append, number, units, or_self, not_false_iff]
  split
  · simp only [List.mem_append, number, units, or_self, not_false_iff]
  · split <;> split <;>
      simp only [List.mem_append, number, decimal, units, List.not_mem_nil, or_self,
        not_false_iff]

theorem write_runOnce (delay : Duration) (expired : Bool) :
    (runOnce delay expired).write = "RunOnceTrigger".toList ++ separator :: (delay.write ++
      separator :: (if expired then "expired" else "valid").toList) := rfl

theorem write_simple (interval : Duration) :
    (simple interval).write = "SimpleTrigger".toList ++ separator :: interval.write := rfl

/-- A trigger is read from a kind, a duration and at most one more part. -/
theorem parse_eq_ok_iff {s : String} {t : Trigger} :
    parse s = .ok t ↔ ∃ (kind duration : List Char) (more : Option (List Char)) (d : Duration),
      Text.pieces separator s.toList = kind :: duration :: more.toList ∧
      Duration.parse (String.ofList duration) = .ok d ∧
      (kind = "RunOnceTrigger".toList ∧ t = .runOnce d (more = some "expired".toList) ∨
        kind = "SimpleTrigger".toList ∧ t = .simple d) := by
  unfold parse
  extract_lets make
  have made (kind duration : List Char) (more : Option (List Char)) :
      make kind duration more = .ok t ↔ ∃ d, Duration.parse (String.ofList duration) = .ok d ∧
        (kind = "RunOnceTrigger".toList ∧ t = .runOnce d (more = some "expired".toList) ∨
          kind = "SimpleTrigger".toList ∧ t = .simple d) := by
    dsimp only [make]
    cases Duration.parse (String.ofList duration) with
    | error e => simp
    | ok d =>
      simp only [Except.ok.injEq, exists_eq_left']
      split
      · next once => simp [once, eq_comm]
      split
      · next simple => simp [simple, eq_comm]
      · next once simple => simp only [reduceCtorEq, once, simple, false_and, or_self]
  constructor
  · intro h
    split at h
    · next kind duration same =>
      obtain ⟨d, read, parts⟩ := (made _ _ _).mp h
      exact ⟨kind, duration, none, d, same, read, parts⟩
    · next kind duration more same =>
      obtain ⟨d, read, parts⟩ := (made _ _ _).mp h
      exact ⟨kind, duration, some more, d, same, read, parts⟩
    · exact nomatch h
  · rintro ⟨kind, duration, more, d, same, read, parts⟩
    rw [same]
    cases more with
    | none => exact (made _ _ _).mpr ⟨d, read, parts⟩
    | some more => exact (made _ _ _).mpr ⟨d, read, parts⟩

/-- A trigger comes back with its duration as far as 64 bits hold it. -/
theorem parse_text (t : Trigger) : parse t.text = .ok t.capped := by
  have duration (d : Duration) : Duration.parse (String.ofList d.write) = .ok d.capped := by
    rw [Duration.parse, String.toList_ofList, Duration.read?_write]
  rw [parse, text, String.toList_ofList]
  cases t with
  | simple interval =>
    have parts : Text.pieces separator (simple interval).write =
        ["SimpleTrigger".toList, interval.write] := by
      rw [write_simple, Text.pieces_append_cons (by decide),
        Text.pieces_of_not_mem (separator_not_mem_write interval)]
    rw [parts]
    simp [duration, capped]
  | runOnce delay expired =>
    have last : separator ∉ (if expired then "expired" else "valid").toList := by
      cases expired <;> decide
    have parts : Text.pieces separator (runOnce delay expired).write =
        ["RunOnceTrigger".toList, delay.write, (if expired then "expired" else "valid").toList] := by
      rw [write_runOnce, Text.pieces_append_cons (by decide),
        Text.pieces_append_cons (separator_not_mem_write delay), Text.pieces_of_not_mem last]
    rw [parts]
    cases expired <;> simp [duration, capped]

end Trigger

end Galley
