import Galley.Proofs.Text.Numeral
import Galley.Text.Slug
/-!
# Characters of slugs

A slug consists of characters that are kept and of hyphens, so that it never leaves the part of a path that it
stands in. What is in this form already stays as it is: digits in a row, and a page's name.
-/
namespace Galley.Text.Slug

theorem isKept_or_of_mem_hyphenate {pending : Bool} {cs : List Char} {c : Char}
    (h : c ∈ hyphenate pending cs) : isKept c = true ∨ c = '-' := by
  fun_induction hyphenate pending cs with
  | case1 => exact nomatch h
  | case2 pending d ds kept ih =>
    rw [List.mem_cons] at h
    rcases h with rfl | rest
    · exact Or.inl kept
    · exact ih rest
  | case3 d ds cut ih => exact ih h
  | case4 pending d ds cut fresh ih =>
    rw [List.mem_cons] at h
    rcases h with rfl | rest
    · exact Or.inr rfl
    · exact ih rest

theorem slash_not_mem_slug (text : String) : '/' ∉ text.slug.toList := by
  rw [String.slug, String.toList_ofList]
  intro slash
  exact absurd (isKept_or_of_mem_hyphenate slash) (by decide)

theorem hyphenate_of_kept {cs : List Char} (kept : ∀ c ∈ cs, isKept c = true) (pending : Bool) :
    hyphenate pending cs = cs := by
  induction cs generalizing pending with
  | nil => rfl
  | cons c cs ih =>
    rw [List.forall_mem_cons] at kept
    rw [hyphenate, if_pos kept.1, ih kept.2]

theorem isKept_of_isDigit {c : Char} (h : c.isDigit = true) : isKept c = true := by
  simp [isKept, Char.isAlphanum, h]

theorem lower_of_isDigit {c : Char} (h : c.isDigit = true) : lower c = [c] := by
  have other {d : Char} (hd : d.isDigit = false) : (c == d) = false := by
    rw [beq_eq_false_iff_ne]
    rintro rfl
    exact absurd (h.symm.trans hd) (by decide)
  have same : c.toLower = c := by
    unfold Char.toLower
    rw [dif_neg]
    intro upper
    simp [Char.isDigit, UInt32.le_iff_toNat_le] at h upper
    omega
  simp [lower, other, same]

theorem flatMap_lower_of_isDigit {cs : List Char} (digits : ∀ c ∈ cs, c.isDigit = true) :
    cs.flatMap lower = cs := by
  induction cs with
  | nil => rfl
  | cons c cs ih =>
    rw [List.forall_mem_cons] at digits
    rw [List.flatMap_cons, lower_of_isDigit digits.1, ih digits.2, List.singleton_append]

/-- The name of a page is its own slug. -/
theorem slug_page (page : Nat) : ("page-" ++ toString page).slug = "page-" ++ toString page := by
  have digits : ∀ c ∈ Numeral.decimal page, c.isDigit = true := fun c => Numeral.isDigit_of_mem_decimal
  have word : "page-".toList.flatMap lower = "page-".toList := by decide
  apply String.toList_inj.mp
  rw [String.slug, String.toList_ofList, String.toList_append, Numeral.toList_toString, slug,
    List.flatMap_append, flatMap_lower_of_isDigit digits, word]
  have rest := hyphenate_of_kept (fun c hc => isKept_of_isDigit (digits c hc)) true
  generalize Numeral.decimal page = ds at rest
  simp [hyphenate, isKept, rest]

end Galley.Text.Slug
