import Galley.Proofs.Text.Blank
import Galley.Proofs.Trigger.Counts
/-!
# Trigger expressions between blanks

A trigger expression begins with a word and ends in a unit. Main statement: what is read as a trigger
has no blanks at its ends, so that it does not matter whether it is trimmed before.
-/
namespace Galley

namespace StepTrigger

open Text

/-- The name of a unit ends in a letter. -/
theorem exists_last_of_unit {unit : String} {scale : Nat} (h : (unit, scale) ∈ units) :
    ∃ first last, unit.toList = first ++ [last] ∧ isBlank last = false := by
  have ends : ∀ u ∈ units, u.1.toList.getLast?.any (fun c => !isBlank c) = true := by decide
  obtain ⟨last, at_end, letter⟩ := (Option.any_eq_true _ _).mp (ends _ h)
  obtain ⟨first, whole⟩ := List.getLast?_eq_some_iff.mp at_end
  exact ⟨first, last, whole, by simpa using letter⟩

theorem trimBlanks_of_parse {s : String} {t : StepTrigger} (h : parse s = .ok t) :
    s.trimBlanks = s := by
  have trimmed (c : Char) (word : List Char) {rest : String} {d : Duration} (hc : isBlank c = false)
      (spanned : IsSpan units rest d) (whole : s.toList = c :: (word ++ rest.toList)) :
      s.trimBlanks = s := by
    obtain ⟨count, n, unit, scale, rfl, -, known, -⟩ := spanned
    obtain ⟨first, last, same, letter⟩ := exists_last_of_unit known
    have ending : s.toList = c :: ((word ++ (count ++ ".").toList ++ first) ++ [last]) := by
      simp [whole, same]
    have ends : Trimmed s.toList := by
      rw [ending]
      constructor
      · intro d hd
        obtain rfl := Option.some.inj hd
        exact hc
      · intro d hd
        rw [← List.cons_append, List.getLast?_concat] at hd
        obtain rfl := Option.some.inj hd
        exact letter
    rw [String.trimBlanks, trim_eq_self_iff.mpr ends, String.ofList_toList]
  rcases parse_eq_ok_iff.mp h with ⟨rfl, -⟩ | ⟨d, -, rest, rfl, spanned⟩ | ⟨d, -, rest, rfl, spanned⟩
  · decide
  · exact trimmed 'i' ['n', '.'] (by decide) spanned (by simp)
  · exact trimmed 'e' "very.".toList (by decide) spanned (by simp)

end StepTrigger

end Galley
