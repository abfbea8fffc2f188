import Galley.Proofs.Results
import Galley.Proofs.Text.Cut
import Galley.Trigger.Expression
import Mathlib.Algebra.Group.Nat.Defs
/-!
# Counts of units

A step waits for a count of units, and may take one. What is looked for is wider than what is read: the digits
may come from any script and the unit may be any word, and only then they are read as a number of 64 bits and
as the name of a unit. Main statement: what is read are ASCII digits, a dot and the name of a unit, behind
`in.`, behind `every.` or alone.
-/
namespace Galley

namespace Text

theorem Flips.contains_between {start stop point : Nat} (low : start ≤ point) (high : point < stop)
    (rest : List Nat) : Flips.contains (start :: stop :: rest) point = true := by
  rw [Flips.contains, if_neg (Nat.not_lt.mpr low), Flips.contains_of_lt high]
  rfl

/-- The decimal digits are those of every script, the ASCII ones among them. -/
theorem isDecimalDigit_of_isDigit {c : Char} (h : c.isDigit = true) : isDecimalDigit c = true := by
  simp only [Char.isDigit, Bool.and_eq_true, decide_eq_true_eq] at h
  have low : 48 ≤ c.toNat := h.1
  have high : c.toNat < 58 := Nat.lt_succ_of_le h.2
  exact Flips.contains_between low high _

end Text

namespace StepTrigger

open Text Text.Numeral

/-! ### Counts and units -/

/-- The names of the units that a step may wait for, with their seconds. -/
def units : List (String × Nat) :=
  [("second", 1), ("seconds", 1), ("minute", 60), ("minutes", 60), ("hour", 3600), ("hours", 3600)]

/-- The names of the units that a step may take, with their seconds. -/
def shortUnits : List (String × Nat) :=
  [("second", 1), ("seconds", 1), ("minute", 60), ("minutes", 60)]

/-- ASCII digits that denote a number of 64 bits. -/
def IsCount (count : String) (n : Nat) : Prop :=
  count ≠ "" ∧ (∀ c ∈ count.toList, c.isDigit = true) ∧ valueFrom 0 count.toList = n ∧ n < 2 ^ 64

/-- The text is a count, a dot and a unit, and stands for this time, cut off at the seconds that 64 bits hold. -/
def IsSpan (units : List (String × Nat)) (s : String) (d : Duration) : Prop :=
  ∃ count n unit scale, s = count ++ "." ++ unit ∧ IsCount count n ∧ (unit, scale) ∈ units ∧
    d = .ofSeconds (min (n * scale) (2 ^ 64 - 1))

theorem unitSeconds?_eq_some_iff {unit : List Char} {scale : Nat} :
    unitSeconds? unit = some scale ↔ (String.ofList unit, scale) ∈ units := by
  unfold unitSeconds?
  generalize String.ofList unit = name
  simp only [units, List.mem_cons, List.not_mem_nil, Prod.mk.injEq, or_false]
  split
  · next h => rcases h with rfl | rfl <;> simp [eq_comm]
  split
  · next h => rcases h with rfl | rfl <;> simp [eq_comm]
  split
  · next h => rcases h with rfl | rfl <;> simp [eq_comm]
  · next h₁ h₂ h₃ =>
    rw [not_or] at h₁ h₂ h₃
    simp [h₁, h₂, h₃]

theorem mem_shortUnits_iff {unit : String} {scale : Nat} :
    (unit, scale) ∈ shortUnits ↔ (unit, scale) ∈ units ∧ scale ≠ 3600 := by
  have short : ∀ u ∈ shortUnits, u ∈ units ∧ u.2 ≠ 3600 := by decide
  have long : ∀ u ∈ units, u.2 ≠ 3600 → u ∈ shortUnits := by decide
  exact ⟨short _, fun ⟨known, notHours⟩ => long _ known notHours⟩

theorem units_words : ∀ u ∈ units, u.1.toList ≠ [] ∧ ∀ c ∈ u.1.toList, isWordChar c = true := by
  have check : ∀ u ∈ units, u.1.toList ≠ [] ∧ u.1.toList.all isWordChar = true := by decide
  simpa only [List.all_eq_true] using check

/-- A count and a unit are cut at the dot between them. -/
theorem countAndUnit?_eq_some_iff {cs count unit : List Char} :
    countAndUnit? cs = some (count, unit) ↔ cs = count ++ '.' :: unit ∧
      (count ≠ [] ∧ ∀ c ∈ count, isDecimalDigit c = true) ∧
      unit ≠ [] ∧ ∀ c ∈ unit, isWordChar c = true := by
  rw [countAndUnit?, Option.filter_eq_some_iff]
  simp only [List.all_eq_true, decide_eq_true_eq, and_assoc]
  constructor
  · rintro ⟨cut, parts⟩
    exact ⟨eq_append_of_cutAt? cut, parts⟩
  · rintro ⟨rfl, filled, digits, parts⟩
    have noDot : '.' ∉ count := fun m => absurd (digits '.' m) (by decide)
    exact ⟨cutAt?_append noDot unit, filled, digits, parts⟩

/-- Of the decimal digits only the ASCII ones are read. -/
theorem count?_eq_some_iff {cs : List Char} {n : Nat} (digits : ∀ c ∈ cs, isDecimalDigit c = true) :
    count? maxU64 cs = some n ↔
      cs ≠ [] ∧ (∀ c ∈ cs, c.isDigit = true) ∧ valueFrom 0 cs = n ∧ n < 2 ^ 64 := by
  have unsigned : count? maxU64 cs = (digits? cs).filter (· ≤ maxU64) := by
    unfold count?
    split
    · exact absurd (digits '+' List.mem_cons_self) (by decide)
    · rfl
  have bound : n ≤ maxU64 ↔ n < 2 ^ 64 := Nat.lt_succ_iff.symm
  rw [unsigned, Option.filter_eq_some_iff, digits?, decide_eq_true_eq, bound]
  split
  · next h =>
    rw [List.all_eq_true] at h
    exact ⟨fun ⟨value, small⟩ => ⟨h.1, h.2, Option.some.inj value, small⟩,
      fun ⟨_, _, value, small⟩ => ⟨congrArg some value, small⟩⟩
  · next h =>
    rw [List.all_eq_true] at h
    simp only [reduceCtorEq, false_and, false_iff]
    rintro ⟨filled, ascii, -⟩
    exact h ⟨filled, ascii⟩

/-! ### What is read -/

/-- A span is what is looked for, with a count that is read and a unit that is known. -/
theorem isSpan_iff {us : List (String × Nat)} {P : Nat → Prop}
    (hus : ∀ unit scale, (unit, scale) ∈ us ↔ (unit, scale) ∈ units ∧ P scale) {s : String}
    {d : Duration} :
    IsSpan us s d ↔ ∃ count unit n scale, countAndUnit? s.toList = some (count, unit) ∧
      count? maxU64 count = some n ∧ unitSeconds? unit = some scale ∧ P scale ∧ span n scale = d := by
  constructor
  · rintro ⟨count, n, unit, scale, rfl, ⟨filled, ascii, value, small⟩, known, rfl⟩
    obtain ⟨unitKnown, hP⟩ := (hus unit scale).mp known
    have digits : ∀ c ∈ count.toList, isDecimalDigit c = true := fun c hc =>
      isDecimalDigit_of_isDigit (ascii c hc)
    have nonempty : count.toList ≠ [] := by simpa using filled
    refine ⟨count.toList, unit.toList, n, scale, ?_, ?_, ?_, hP, rfl⟩
    · exact countAndUnit?_eq_some_iff.mpr ⟨by simp, ⟨nonempty, digits⟩, units_words _ unitKnown⟩
    · exact (count?_eq_some_iff digits).mpr ⟨nonempty, ascii, value, small⟩
    · exact unitSeconds?_eq_some_iff.mpr (by simpa using unitKnown)
  · rintro ⟨count, unit, n, scale, found, number, known, hP, rfl⟩
    obtain ⟨parts, ⟨-, digits⟩, -⟩ := countAndUnit?_eq_some_iff.mp found
    obtain ⟨filled, ascii, value, small⟩ := (count?_eq_some_iff digits).mp number
    refine ⟨String.ofList count, n, String.ofList unit, scale, ?_, ⟨?_, ?_, ?_, small⟩, ?_, rfl⟩
    · rw [← String.toList_inj, parts]
      simp
    · simpa using filled
    · simpa using ascii
    · simpa using value
    · exact (hus _ _).mpr ⟨unitSeconds?_eq_some_iff.mp known, hP⟩

theorem scaled_eq_ok_iff {count unit : List Char} {d : Duration} :
    scaled count unit = .ok d ↔ ∃ n scale, count? maxU64 count = some n ∧
      unitSeconds? unit = some scale ∧ span n scale = d := by
  unfold scaled
  cases count? maxU64 count with
  | none => simp
  | some n => cases unitSeconds? unit <;> simp

/-- A count and a known unit behind a word and a dot. -/
theorem exists_afterWord_iff {word s : String} {d : Duration} :
    (∃ count unit, afterWord? word s = some (count, unit) ∧ scaled count unit = .ok d) ↔
      ∃ rest, s = word ++ "." ++ rest ∧ IsSpan units rest d := by
  have spans {rest : String} : IsSpan units rest d ↔ ∃ count unit n scale,
      countAndUnit? rest.toList = some (count, unit) ∧ count? maxU64 count = some n ∧
        unitSeconds? unit = some scale ∧ True ∧ span n scale = d :=
    isSpan_iff fun unit scale => by rw [and_true]
  constructor
  · rintro ⟨count, unit, found, read⟩
    obtain ⟨rest, behind, cut⟩ := Option.bind_eq_some_iff.mp found
    obtain ⟨n, scale, number, known, same⟩ := scaled_eq_ok_iff.mp read
    refine ⟨String.ofList rest, ?_, spans.mpr ⟨count, unit, n, scale, ?_, number, known, trivial, same⟩⟩
    · rw [← String.toList_inj, eq_append_of_after? behind]
      simp
    · rwa [String.toList_ofList]
  · rintro ⟨rest, rfl, spanned⟩
    obtain ⟨count, unit, n, scale, found, number, known, -, same⟩ := spans.mp spanned
    refine ⟨count, unit, ?_, scaled_eq_ok_iff.mpr ⟨n, scale, number, known, same⟩⟩
    have whole : (word ++ "." ++ rest).toList = word.toList ++ ['.'] ++ rest.toList := by simp
    rw [afterWord?, whole, after?_append]
    exact found

/-- A text does not begin with both words. -/
theorem afterWord?_in_eq_none {s : String} {found : List Char × List Char}
    (h : afterWord? "every" s = some found) : afterWord? "in" s = none := by
  obtain ⟨rest, behind, -⟩ := Option.bind_eq_some_iff.mp h
  rw [afterWord?, eq_append_of_after? behind]
  rfl

theorem parse_eq_ok_iff {s : String} {t : StepTrigger} :
    parse s = .ok t ↔ s = "now" ∧ t = .now ∨
      (∃ d, t = .once d ∧ ∃ rest, s = "in." ++ rest ∧ IsSpan units rest d) ∨
      ∃ d, t = .every d ∧ ∃ rest, s = "every." ++ rest ∧ IsSpan units rest d := by
  have nothing (word : String) (h : afterWord? word "now" = none) {found : List Char × List Char}
      (same : afterWord? word s = some found) : s ≠ "now" := by
    rintro rfl
    exact nomatch h.symm.trans same
  constructor
  · intro h
    unfold parse at h
    split at h
    · next now => exact .inl ⟨now, (Except.ok.inj h).symm⟩
    split at h
    · next count unit found =>
      obtain ⟨d, read, rfl⟩ := map_eq_ok.mp h
      exact .inr (.inl ⟨d, rfl, exists_afterWord_iff.mp ⟨count, unit, found, read⟩⟩)
    split at h
    · next count unit found =>
      obtain ⟨d, read, rfl⟩ := map_eq_ok.mp h
      exact .inr (.inr ⟨d, rfl, exists_afterWord_iff.mp ⟨count, unit, found, read⟩⟩)
    · exact nomatch h
  · rintro (⟨rfl, rfl⟩ | ⟨d, rfl, spanned⟩ | ⟨d, rfl, spanned⟩)
    · rfl
    · obtain ⟨count, unit, found, read⟩ := (@exists_afterWord_iff "in" s d).mpr spanned
      simp only [parse, if_neg (nothing "in" (by decide) found), found, read]
      rfl
    · obtain ⟨count, unit, found, read⟩ := (@exists_afterWord_iff "every" s d).mpr spanned
      simp only [parse, if_neg (nothing "every" (by decide) found), afterWord?_in_eq_none found,
        found, read]
      rfl

theorem parseTimeout_eq_ok_iff {s : String} {d : Duration} :
    parseTimeout s = .ok d ↔ IsSpan shortUnits s d := by
  rw [isSpan_iff fun unit scale => mem_shortUnits_iff]
  unfold parseTimeout
  cases countAndUnit? s.toList with
  | none => simp
  | some parts =>
    obtain ⟨count, unit⟩ := parts
    cases number : count? maxU64 count with
    | none => simp [number]
    | some n =>
      cases known : unitSeconds? unit with
      | none => simp [number, known]
      | some scale => by_cases hours : scale = 3600 <;> simp [number, known, hours, and_assoc]

/-- What is read as a trigger of a step, and as the time that a step may take: `now`, and ASCII digits that
denote a number of 64 bits, a dot and the name of a unit, behind `in.`, behind `every.` or alone. All else is
an error. -/
theorem expressions_read (s : String) :
    (parse s = .ok .now ↔ s = "now") ∧
      (∀ d, parse s = .ok (.once d) ↔ ∃ rest, s = "in." ++ rest ∧ IsSpan units rest d) ∧
      (∀ d, parse s = .ok (.every d) ↔ ∃ rest, s = "every." ++ rest ∧ IsSpan units rest d) ∧
      (∀ d, parseTimeout s = .ok d ↔ IsSpan shortUnits s d) ∧
      ((∃ e, parse s = .error e) ↔ ¬ (s = "now" ∨ ∃ rest d,
        (s = "in." ++ rest ∨ s = "every." ++ rest) ∧ IsSpan units rest d)) ∧
      ((∃ e, parseTimeout s = .error e) ↔ ¬ ∃ d, IsSpan shortUnits s d) := by
  refine ⟨?_, fun d => ?_, fun d => ?_, fun d => parseTimeout_eq_ok_iff, ?_, ?_⟩
  · simp [parse_eq_ok_iff]
  · simp [parse_eq_ok_iff]
  · simp [parse_eq_ok_iff]
  · rw [exists_error_iff]
    simp only [parse_eq_ok_iff]
    refine not_congr ⟨?_, ?_⟩
    · rintro ⟨t, ⟨same, -⟩ | ⟨d, -, rest, same, spanned⟩ | ⟨d, -, rest, same, spanned⟩⟩
      · exact .inl same
      · exact .inr ⟨rest, d, .inl same, spanned⟩
      · exact .inr ⟨rest, d, .inr same, spanned⟩
    · rintro (same | ⟨rest, d, same | same, spanned⟩)
      · exact ⟨.now, .inl ⟨same, rfl⟩⟩
      · exact ⟨.once d, .inr (.inl ⟨d, rfl, rest, same, spanned⟩)⟩
      · exact ⟨.every d, .inr (.inr ⟨d, rfl, rest, same, spanned⟩)⟩
  · rw [exists_error_iff]
    simp only [parseTimeout_eq_ok_iff]

end StepTrigger

end Galley
