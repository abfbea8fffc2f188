import Galley.Text.Numeral
import Mathlib.Algebra.Group.Nat.Defs
/-!
# Written numerals

The decimal form of a number consists of digits, starts with no needless zero and has the number for
its value, with zeros in front or not. Main statements: readers give back what was written.
-/
namespace Galley.Text.Numeral

theorem valueFrom_append (n : Nat) (cs ds : List Char) :
    valueFrom n (cs ++ ds) = valueFrom (valueFrom n cs) ds :=
  Nat.ofDigitChars_append n

/-- The first of some digits counts a power of ten. -/
theorem valueFrom_zero_cons (c : Char) (cs : List Char) :
    valueFrom 0 (c :: cs) = 10 ^ cs.length * digitValue c + valueFrom 0 cs := by
  simp only [valueFrom, Nat.ofDigitChars_cons]
  rw [Nat.ofDigitChars_eq_ofDigitChars_zero]
  simp [digitValue]

@[simp] theorem decimal_ne_nil (n : Nat) : decimal n ≠ [] := Nat.toDigits_ne_nil

theorem isDigit_of_mem_decimal {n : Nat} {c : Char} (h : c ∈ decimal n) : c.isDigit = true :=
  Nat.isDigit_of_mem_toDigits (by decide) (by decide) h

theorem not_mem_decimal {c : Char} (h : c.isDigit = false) (n : Nat) : c ∉ decimal n := by
  intro mem
  exact Bool.false_ne_true (h.symm.trans (isDigit_of_mem_decimal mem))

theorem toList_toString (n : Nat) : (toString n).toList = decimal n := Nat.toList_repr

theorem all_isDigit_decimal (n : Nat) : (decimal n).all Char.isDigit = true :=
  List.all_eq_true.mpr fun _ => isDigit_of_mem_decimal

@[simp] theorem valueFrom_decimal (n : Nat) : valueFrom 0 (decimal n) = n :=
  Nat.ofDigitChars_ten_toDigits

theorem decimal_inj {m n : Nat} (h : decimal m = decimal n) : m = n := by
  rw [← valueFrom_decimal m, h, valueFrom_decimal]

theorem digits?_decimal (n : Nat) : digits? (decimal n) = some n := by
  simp [digits?, all_isDigit_decimal]

theorem decimal_of_lt {n : Nat} (h : n < 10) : decimal n = [n.digitChar] :=
  Nat.toDigits_of_lt_base h

theorem decimal_of_le {n : Nat} (h : 10 ≤ n) :
    decimal n = decimal (n / 10) ++ [(n % 10).digitChar] :=
  Nat.toDigits_of_base_le (by decide) h

theorem digitChar_ne_zero {n : Nat} (h : 0 < n) (h' : n < 10) : n.digitChar ≠ '0' := by
  intro hc
  have hv := Nat.toNat_digitChar_sub_48_of_lt_ten h'
  rw [hc] at hv
  simp at hv
  omega

/-- Only zero itself is written with a zero in front. -/
theorem head?_decimal_ne_zero {n : Nat} (h : 0 < n) : (decimal n).head? ≠ some '0' := by
  induction n using Nat.strongRecOn with
  | ind n ih =>
    by_cases hn : n < 10
    · rw [decimal_of_lt hn]
      simpa using digitChar_ne_zero h hn
    · have head := ih (n / 10) (by omega) (by omega)
      rw [decimal_of_le (by omega)]
      cases hd : decimal (n / 10) with
      | nil => exact absurd hd (decimal_ne_nil _)
      | cons c cs => simpa [hd] using head

theorem head?_decimal_of_length {n : Nat} (h : 1 < (decimal n).length) :
    (decimal n).head? ≠ some '0' := by
  apply head?_decimal_ne_zero
  refine Nat.pos_of_ne_zero fun hn => ?_
  subst hn
  simp [decimal] at h

theorem exists_decimal_eq_cons (n : Nat) :
    ∃ c cs, decimal n = c :: cs ∧ c.isDigit = true ∧ cs.all Char.isDigit = true := by
  cases h : decimal n with
  | nil => exact absurd h (decimal_ne_nil n)
  | cons c cs =>
    have all := all_isDigit_decimal n
    rw [h, List.all_cons, Bool.and_eq_true] at all
    exact ⟨c, cs, rfl, all⟩

theorem length_padded {width n : Nat} (h : n < 10 ^ width) (hw : 0 < width) :
    (padded width n).length = width := by
  have hl : (decimal n).length ≤ width := (Nat.length_toDigits_le_iff (by decide) hw).mpr h
  simp only [padded, List.length_append, List.length_replicate]
  omega

theorem isDigit_of_mem_padded {width n : Nat} {c : Char} (h : c ∈ padded width n) :
    c.isDigit = true := by
  simp only [padded, List.mem_append, List.mem_replicate] at h
  rcases h with ⟨-, rfl⟩ | h
  · rfl
  · exact isDigit_of_mem_decimal h

@[simp] theorem valueFrom_padded (width n : Nat) : valueFrom 0 (padded width n) = n := by
  have zeros (k : Nat) : valueFrom 0 (List.replicate k '0') = 0 := by
    rw [valueFrom, Nat.ofDigitChars_replicate_zero, Nat.mul_zero]
  simp only [padded, valueFrom_append, zeros, valueFrom_decimal]

end Galley.Text.Numeral
