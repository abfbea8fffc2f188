import Galley.Text.Blank
import Mathlib.Data.List.DropRight
/-!
# Texts without blanks at their ends

What is trimmed has no blank at either end, and trimming takes off nothing but blanks. Main statement: trimming
leaves a text as it is exactly when neither end of it is blank.
-/
namespace Galley.Text

/-- Whether neither end of a text is blank. -/
structure Trimmed (cs : List Char) : Prop where
  first : ∀ c, cs.head? = some c → isBlank c = false
  last : ∀ c, cs.getLast? = some c → isBlank c = false

theorem trimRight_eq_rdropWhile (cs : List Char) : trimRight cs = cs.rdropWhile isBlank := rfl

theorem trimmed_trim (cs : List Char) : Trimmed (trim cs) where
  first c h := by
    obtain ⟨rest, whole⟩ := List.rdropWhile_prefix isBlank (cs.dropWhile isBlank)
    have start : (cs.dropWhile isBlank).head? = some c := by
      rw [← whole, List.head?_append, ← trimRight_eq_rdropWhile, ← trim, h, Option.some_or]
    have stop := List.head?_dropWhile_not isBlank cs
    rwa [start] at stop
  last c h := by
    rw [trim, trimRight, List.getLast?_reverse] at h
    have stop := List.head?_dropWhile_not isBlank (cs.dropWhile isBlank).reverse
    rwa [h] at stop

theorem trim_eq_self_iff {cs : List Char} : trim cs = cs ↔ Trimmed cs := by
  constructor
  · intro h
    rw [← h]
    exact trimmed_trim cs
  · intro h
    have front : cs.dropWhile isBlank = cs := by
      rw [List.dropWhile_eq_self_iff]
      intro long
      rw [h.first _ (List.head?_eq_getElem?.trans (List.getElem?_eq_getElem long))]
      exact Bool.false_ne_true
    have back : cs.rdropWhile isBlank = cs := by
      rw [List.rdropWhile_eq_self_iff]
      intro ne
      rw [h.last _ (List.getLast?_eq_some_getLast ne)]
      exact Bool.false_ne_true
    rw [trim, front, trimRight_eq_rdropWhile, back]

theorem Trimmed.append {as bs : List Char} (ha : Trimmed as) (hb : Trimmed bs) : Trimmed (as ++ bs) where
  first c h := by
    rw [List.head?_append] at h
    rcases Option.or_eq_some_iff.mp h with h | ⟨-, h⟩
    · exact ha.first c h
    · exact hb.first c h
  last c h := by
    rw [List.getLast?_append] at h
    rcases Option.or_eq_some_iff.mp h with h | ⟨-, h⟩
    · exact hb.last c h
    · exact ha.last c h

/-- What is trimmed off is blank. -/
theorem filter_trim (cs : List Char) : (trim cs).filter (!isBlank ·) = cs.filter (!isBlank ·) := by
  have front (ds : List Char) : (ds.dropWhile isBlank).filter (!isBlank ·) = ds.filter (!isBlank ·) := by
    induction ds with
    | nil => rfl
    | cons d ds ih =>
      by_cases blank : isBlank d = true
      · rw [List.dropWhile_cons_of_pos blank, ih, List.filter_cons_of_neg (by simp [blank])]
      · rw [List.dropWhile_cons_of_neg blank]
  rw [trim, trimRight, List.filter_reverse, front, List.filter_reverse, List.reverse_reverse, front]

theorem mem_of_mem_trim {cs : List Char} {c : Char} (h : c ∈ trim cs) : c ∈ cs := by
  rw [trim, trimRight, List.mem_reverse] at h
  have back := List.mem_reverse.mp ((List.dropWhile_sublist isBlank).mem h)
  exact (List.dropWhile_sublist isBlank).mem back

theorem isBlank_of_trim_eq_nil {cs : List Char} (h : trim cs = []) : ∀ c ∈ cs, isBlank c = true := by
  have none := filter_trim cs
  rw [h, List.filter_nil, eq_comm, List.filter_eq_nil_iff] at none
  simpa using none

end Galley.Text
