import Galley.Proofs.Duration.Text
import Mathlib.Algebra.GroupWithZero.Nat
/-!
# The grammar of durations

A duration is a row of decimals with units or a bare zero, behind at most one plus sign. Each digit of
a fraction counts the whole nanoseconds of its place. A number is cut at its first point, and its
fraction is looked at as far as there are places that count. Main statement: a text is read exactly
when it is in the grammar and 64 bits hold its nanoseconds, or when it has a second point behind the
places that count; such a text is not in the grammar.
-/
namespace Galley

/-! ### Units -/

/-- The units of a duration. -/
inductive TimeUnit
  | nano | micro | milli | second | minute | hour
  deriving DecidableEq, Repr

namespace TimeUnit

/-- The names of a unit; the micro sign and the Greek letter both stand for micro. -/
def names : TimeUnit → List String
  | nano => ["ns"]
  | micro => ["us", "\u00B5s", "\u03BCs"]
  | milli => ["ms"]
  | second => ["s"]
  | minute => ["m"]
  | hour => ["h"]

def nanos : TimeUnit → Nat
  | nano => 1
  | micro => 1000
  | milli => 1000000
  | second => 1000000000
  | minute => 60 * 1000000000
  | hour => 3600 * 1000000000

theorem nanos_pos (u : TimeUnit) : 0 < u.nanos := by
  cases u <;> decide

/-- A name has letters only, and at least one. -/
theorem name_spec {u : TimeUnit} {name : String} (h : name ∈ u.names) :
    name.toList ≠ [] ∧ ∀ c ∈ name.toList, Duration.isNumberChar c = false := by
  have check : ∀ name ∈ u.names, name.toList ≠ [] ∧
      name.toList.all (fun c => !Duration.isNumberChar c) = true := by
    cases u <;> decide
  obtain ⟨filled, letters⟩ := check name h
  exact ⟨filled, by simpa using letters⟩

end TimeUnit

namespace Duration

open Text.Numeral

theorem unit?_of_named {u : TimeUnit} {name : String} (h : name ∈ u.names) :
    unit? name.toList = some u.nanos := by
  revert name
  cases u <;> decide

theorem exists_named_of_unit? {cs : List Char} {n : Nat} (h : unit? cs = some n) :
    ∃ u : TimeUnit, String.ofList cs ∈ u.names ∧ u.nanos = n := by
  have named (u : TimeUnit) (h : String.ofList cs ∈ u.names) (value : some u.nanos = some n) :
      ∃ u : TimeUnit, String.ofList cs ∈ u.names ∧ u.nanos = n := ⟨u, h, Option.some.inj value⟩
  unfold unit? at h
  split at h
  · next same => exact named .nano (by rw [same]; decide) h
  split at h
  · next same => exact named .micro (by rcases same with rfl | rfl | rfl <;> decide) h
  split at h
  · next same => exact named .milli (by rw [same]; decide) h
  split at h
  · next same => exact named .second (by rw [same]; decide) h
  split at h
  · next same => exact named .minute (by rw [same]; decide) h
  split at h
  · next same => exact named .hour (by rw [same]; decide) h
  · exact nomatch h

/-! ### Numbers -/

/-- ASCII digits with at most one point and at least one digit. -/
def IsDecimal (number : List Char) : Prop :=
  (∀ c ∈ number, c.isDigit = true ∨ c = '.') ∧ number.count '.' ≤ 1 ∧ ∃ c ∈ number, c.isDigit = true

instance decidableIsDecimal (number : List Char) : Decidable (IsDecimal number) :=
  decidable_of_iff
    (number.all isNumberChar = true ∧ number.count '.' ≤ 1 ∧ number.any Char.isDigit = true)
    (by simp [IsDecimal, isNumberChar])

/-- What the digits of a fraction of `scale` nanoseconds count, each the whole nanoseconds of its place. -/
def places (scale : Nat) (fraction : List Char) : Nat :=
  (fraction.mapIdx fun i c => digitValue c * (scale / 10 ^ (i + 1))).sum

/-- What the digits of a number of units count. -/
def worth (scale : Nat) (number : List Char) : Nat :=
  valueFrom 0 (beforePoint number) * scale + places scale (behindPoint number)

/-- A second point stands in the number, behind so many digits that no place there counts. -/
def HidesPoint (scale : Nat) (number : List Char) : Prop :=
  ∃ whole fraction rest, (∀ c ∈ whole, c.isDigit = true) ∧ (∀ c ∈ fraction, c.isDigit = true) ∧
    (∀ c ∈ rest, c.isDigit = true ∨ c = '.') ∧ scale < 10 ^ fraction.length ∧
    number = whole ++ '.' :: (fraction ++ '.' :: rest)

/-- The numbers that are read. -/
def IsRead (scale : Nat) (number : List Char) : Prop :=
  IsDecimal number ∨ HidesPoint scale number

theorem isNumberChar_iff {c : Char} : isNumberChar c = true ↔ c.isDigit = true ∨ c = '.' := by
  simp [isNumberChar]

@[simp] theorem places_nil (scale : Nat) : places scale [] = 0 := rfl

theorem places_cons (scale : Nat) (c : Char) (cs : List Char) :
    places scale (c :: cs) = digitValue c * (scale / 10) + places (scale / 10) cs := by
  have next (i : Nat) : scale / 10 ^ (i + 1 + 1) = scale / 10 / 10 ^ (i + 1) := by
    rw [Nat.div_div_eq_div_mul, Nat.pow_succ']
  simp only [places, List.mapIdx_cons, List.sum_cons, Nat.zero_add, Nat.pow_one, next]

@[simp] theorem places_zero (cs : List Char) : places 0 cs = 0 := by
  induction cs with
  | nil => rfl
  | cons c cs ih => rw [places_cons, Nat.zero_div, ih, Nat.mul_zero]

theorem fraction?_of_digits {scale : Nat} {ds : List Char} (digits : ∀ c ∈ ds, c.isDigit = true) :
    fraction? scale ds = some (places scale ds) := by
  induction ds generalizing scale with
  | nil => rfl
  | cons c ds ih =>
    rw [List.forall_mem_cons] at digits
    rw [fraction?, if_pos digits.1, places_cons]
    by_cases last : scale / 10 = 0
    · simp [last]
    · rw [if_neg last, ih digits.2, Option.map_some]

/-- A point in a fraction is seen exactly when the place there counts. -/
theorem fraction?_append_point {scale : Nat} {ds : List Char} (hscale : 0 < scale)
    (digits : ∀ c ∈ ds, c.isDigit = true) (rest : List Char) :
    fraction? scale (ds ++ '.' :: rest) =
      if scale < 10 ^ ds.length then some (places scale (ds ++ '.' :: rest)) else none := by
  induction ds generalizing scale with
  | nil => rw [List.nil_append, fraction?, if_neg (by decide), if_neg (by simp; omega)]
  | cons c ds ih =>
    rw [List.forall_mem_cons] at digits
    rw [List.cons_append, fraction?, if_pos digits.1, places_cons, List.length_cons]
    by_cases last : scale / 10 = 0
    · have short : scale < 10 ^ (ds.length + 1) := by
        have := Nat.pow_le_pow_right (show 0 < 10 by decide) (show 1 ≤ ds.length + 1 by omega)
        omega
      rw [if_pos last, if_pos short, last, places_zero, Nat.mul_zero]
    · have same : scale / 10 < 10 ^ ds.length ↔ scale < 10 ^ (ds.length + 1) :=
        Nat.div_lt_iff_lt_mul (by decide)
      rw [if_neg last, ih (Nat.pos_of_ne_zero last) digits.2]
      simp only [same]
      split <;> rfl

/-! ### Numbers that are read -/

theorem isNumberChar_of_mem_of_isRead {scale : Nat} {number : List Char} (h : IsRead scale number) :
    ∀ c ∈ number, isNumberChar c = true := by
  intro c hc
  rw [isNumberChar_iff]
  rcases h with ⟨chars, -⟩ | ⟨whole, fraction, rest, hw, hf, hr, -, rfl⟩
  · exact chars c hc
  · simp only [List.mem_append, List.mem_cons] at hc
    rcases hc with hc | rfl | hc | rfl | hc
    · exact .inl (hw c hc)
    · exact .inr rfl
    · exact .inl (hf c hc)
    · exact .inr rfl
    · exact hr c hc

/-- A hidden point is a second one. -/
theorem HidesPoint.not_isDecimal {scale : Nat} {number : List Char} (h : HidesPoint scale number) :
    ¬ IsDecimal number := by
  rintro ⟨-, one, -⟩
  obtain ⟨whole, fraction, rest, -, -, -, -, rfl⟩ := h
  simp only [List.count_append, List.count_cons_self] at one
  omega

theorem isDecimal_point_iff {whole fraction : List Char} (hw : ∀ c ∈ whole, c.isDigit = true)
    (hf : ∀ c ∈ fraction, c.isDigit = true) :
    IsDecimal (whole ++ '.' :: fraction) ↔ ¬ (whole = [] ∧ fraction = []) := by
  have noPoint {ds : List Char} (digits : ∀ c ∈ ds, c.isDigit = true) : ds.count '.' = 0 :=
    List.count_eq_zero.mpr fun m => absurd (digits _ m) (by decide)
  constructor
  · rintro ⟨-, -, c, hc, digit⟩ ⟨rfl, rfl⟩
    obtain rfl := List.mem_singleton.mp hc
    exact absurd digit (by decide)
  · intro filled
    refine ⟨?_, by simp [noPoint hw, noPoint hf], ?_⟩
    · intro c hc
      simp only [List.mem_append, List.mem_cons] at hc
      rcases hc with hc | rfl | hc
      · exact .inl (hw c hc)
      · exact .inr rfl
      · exact .inl (hf c hc)
    · rcases not_and_or.mp filled with filled | filled
      · obtain ⟨c, cs, rfl⟩ := List.exists_cons_of_ne_nil filled
        exact ⟨c, by simp, hw c (by simp)⟩
      · obtain ⟨c, cs, rfl⟩ := List.exists_cons_of_ne_nil filled
        exact ⟨c, by simp, hf c (by simp)⟩

theorem isDecimal_digits_iff {whole : List Char} (hw : ∀ c ∈ whole, c.isDigit = true) :
    IsDecimal whole ↔ whole ≠ [] := by
  have noPoint : whole.count '.' = 0 :=
    List.count_eq_zero.mpr fun m => absurd (hw _ m) (by decide)
  constructor
  · rintro ⟨-, -, c, hc, -⟩
    exact List.ne_nil_of_mem hc
  · intro filled
    obtain ⟨c, cs, rfl⟩ := List.exists_cons_of_ne_nil filled
    exact ⟨fun c hc => .inl (hw c hc), by omega, c, by simp, hw c (by simp)⟩

/-- The text up to its first point, where there is one. -/
theorem exists_point {cs : List Char} (chars : ∀ c ∈ cs, isNumberChar c = true) :
    (∀ c ∈ cs, c.isDigit = true) ∨ ∃ ds rest, (∀ c ∈ ds, c.isDigit = true) ∧
      (∀ c ∈ rest, isNumberChar c = true) ∧ cs = ds ++ '.' :: rest := by
  by_cases point : '.' ∈ cs
  · obtain ⟨ds, rest, rfl, first⟩ := List.eq_append_cons_of_mem point
    refine .inr ⟨ds, rest, ?_, fun c hc => chars c (by simp [hc]), rfl⟩
    intro c hc
    exact (isNumberChar_iff.mp (chars c (by simp [hc]))).resolve_right fun same => first (same ▸ hc)
  · refine .inl fun c hc => ?_
    exact (isNumberChar_iff.mp (chars c hc)).resolve_right fun same => point (same ▸ hc)

/-- What is read of a number with its unit. -/
theorem pair?_eq_some_iff {number unit : List Char} {scale v : Nat} (hunit : unit? unit = some scale)
    (hscale : 0 < scale) (chars : ∀ c ∈ number, isNumberChar c = true) :
    pair? number unit = some v ↔ IsRead scale number ∧ worth scale number = v := by
  rcases exists_point chars with digits | ⟨whole, behind, digits, later, rfl⟩
  · -- no point
    obtain ⟨hbefore, hbehind⟩ := cut_of_digits digits
    have hidden : ¬ HidesPoint scale number := by
      rintro ⟨whole, fraction, rest, -, -, -, -, rfl⟩
      exact absurd (digits '.' (by simp)) (by decide)
    rw [pair?_eq hunit (by rwa [hbefore]), worth, hbefore, hbehind, IsRead, or_iff_left hidden,
      isDecimal_digits_iff digits]
    by_cases filled : number = [] <;> simp [filled, fraction?]
  obtain ⟨hbefore, hbehind⟩ := cut_at_point digits behind
  rw [pair?_eq hunit (by rwa [hbefore]), worth, hbefore, hbehind]
  rcases exists_point later with behindDigits | ⟨fraction, rest, behindDigits, last, rfl⟩
  · -- one point
    have hidden : ¬ HidesPoint scale (whole ++ '.' :: behind) := by
      rintro ⟨whole', fraction, rest, hw, -, -, -, same⟩
      obtain ⟨-, hb⟩ := cut_at_point hw (fraction ++ '.' :: rest)
      rw [← same, hbehind] at hb
      exact absurd (behindDigits '.' (by simp [hb])) (by decide)
    rw [IsRead, or_iff_left hidden, isDecimal_point_iff digits behindDigits,
      fraction?_of_digits behindDigits]
    by_cases filled : whole = [] ∧ behind = [] <;> simp [filled]
  · -- two points or more
    have seen : IsRead scale (whole ++ '.' :: (fraction ++ '.' :: rest)) ↔
        scale < 10 ^ fraction.length := by
      constructor
      · rintro (⟨-, one, -⟩ | ⟨whole', fraction', rest', hw, hf, -, short, same⟩)
        · simp only [List.count_append, List.count_cons_self] at one
          omega
        · have hb := (cut_at_point hw (fraction' ++ '.' :: rest')).2
          rw [← same, hbehind] at hb
          have hf' := (cut_at_point hf rest').1
          rw [← hb, (cut_at_point behindDigits rest).1] at hf'
          rwa [hf']
      · intro short
        exact .inr ⟨whole, fraction, rest, digits, behindDigits,
          fun c hc => isNumberChar_iff.mp (last c hc), short, rfl⟩
    rw [if_neg (by simp), fraction?_append_point hscale behindDigits, seen]
    by_cases short : scale < 10 ^ fraction.length <;> simp [short]

/-! ### Rows of numbers with units -/

/-- A number with the name of its unit, as they stand in the text of a duration. -/
structure Amount where
  number : List Char
  unit : TimeUnit
  name : String
  named : name ∈ unit.names

namespace Amount

def pair (a : Amount) : List Char × List Char :=
  (a.number, a.name.toList)

def text (a : Amount) : List Char :=
  a.number ++ a.name.toList

/-- What the digits of the number count. -/
def nanos (a : Amount) : Nat :=
  worth a.unit.nanos a.number

def IsRead (a : Amount) : Prop :=
  Duration.IsRead a.unit.nanos a.number

theorem IsRead.number_ne_nil {a : Amount} (h : a.IsRead) : a.number ≠ [] := by
  rcases h with ⟨-, -, c, hc, -⟩ | ⟨whole, fraction, rest, -, -, -, -, same⟩
  · exact List.ne_nil_of_mem hc
  · simp [same]

end Amount

def rowText (row : List Amount) : List Char :=
  row.flatMap Amount.text

theorem rowText_cons (a : Amount) (row : List Amount) :
    rowText (a :: row) = a.number ++ a.name.toList ++ rowText row := rfl

/-- What the digits of all numbers count. -/
def rowNanos (row : List Amount) : Nat :=
  (row.map Amount.nanos).sum

/-- The pieces of a text make it up, and each of its numbers consists of digits and points. -/
theorem pairs_spec (cs : List Char) :
    (pairs cs).flatMap (fun p => p.1 ++ p.2) = cs ∧
      ∀ p ∈ pairs cs, ∀ c ∈ p.1, isNumberChar c = true := by
  induction cs with
  | nil => simp [pairs]
  | cons c cs ih =>
    rw [pairs]
    split
    · next number =>
      split
      · next none =>
        rw [none] at ih
        simpa [number] using ih
      · next some =>
        rw [some] at ih
        simpa [number, and_assoc] using ih
    · split
      · next some =>
        rw [some] at ih
        simpa using ih
      · simpa using ih

/-- A row of numbers that are read is cut into its numbers and units. -/
theorem pairs_rowText {row : List Amount} (read : ∀ a ∈ row, a.IsRead) :
    pairs (rowText row) = row.map Amount.pair := by
  have starts {row : List Amount} (read : ∀ a ∈ row, a.IsRead) : StartsNumber (rowText row) := by
    cases row with
    | nil => trivial
    | cons a row =>
      have ha := read a (by simp)
      obtain ⟨c, cs, same⟩ := List.exists_cons_of_ne_nil ha.number_ne_nil
      have hc := isNumberChar_of_mem_of_isRead ha c (by simp [same])
      rw [rowText_cons, same]
      exact hc
  induction row with
  | nil => rfl
  | cons a row ih =>
    rw [List.forall_mem_cons] at read
    obtain ⟨filled, letters⟩ := TimeUnit.name_spec a.named
    rw [rowText_cons, pairs_append filled (isNumberChar_of_mem_of_isRead read.1) letters (starts read.2),
      ih read.2]
    rfl

theorem total?_row {row : List Amount} (read : ∀ a ∈ row, a.IsRead) :
    total? (row.map Amount.pair) = some (rowNanos row) := by
  induction row with
  | nil => rfl
  | cons a row ih =>
    rw [List.forall_mem_cons] at read
    have first : pair? a.number a.name.toList = some a.nanos :=
      (pair?_eq_some_iff (unit?_of_named a.named) a.unit.nanos_pos
        (isNumberChar_of_mem_of_isRead read.1)).mpr ⟨read.1, rfl⟩
    rw [List.map_cons, Amount.pair, total?, first, ih read.2]
    rfl

theorem exists_amount_of_pair? {number unit : List Char} {v : Nat}
    (chars : ∀ c ∈ number, isNumberChar c = true) (h : pair? number unit = some v) :
    ∃ a : Amount, a.pair = (number, unit) ∧ a.IsRead ∧ a.nanos = v := by
  cases hunit : unit? unit with
  | none => simp [pair?, hunit] at h
  | some scale =>
    obtain ⟨u, named, rfl⟩ := exists_named_of_unit? hunit
    obtain ⟨read, value⟩ := (pair?_eq_some_iff hunit u.nanos_pos chars).mp h
    exact ⟨⟨number, u, String.ofList unit, named⟩, by simp [Amount.pair], read, value⟩

theorem exists_row_of_total? {ps : List (List Char × List Char)} {n : Nat}
    (chars : ∀ p ∈ ps, ∀ c ∈ p.1, isNumberChar c = true) (h : total? ps = some n) :
    ∃ row : List Amount, row.map Amount.pair = ps ∧ (∀ a ∈ row, a.IsRead) ∧ rowNanos row = n := by
  induction ps generalizing n with
  | nil => exact ⟨[], rfl, by simp, Option.some.inj h⟩
  | cons p ps ih =>
    rw [List.forall_mem_cons] at chars
    obtain ⟨first, hfirst, h⟩ := Option.bind_eq_some_iff.mp h
    obtain ⟨rest, hrest, h⟩ := Option.bind_eq_some_iff.mp h
    obtain ⟨a, same, read, rfl⟩ := exists_amount_of_pair? chars.1 hfirst
    obtain ⟨row, rfl, reads, rfl⟩ := ih chars.2 hrest
    refine ⟨a :: row, by rw [List.map_cons, same], List.forall_mem_cons.mpr ⟨read, reads⟩, ?_⟩
    exact Option.some.inj h

/-! ### Texts -/

/-- A text without the plus sign that may stand in front. -/
def afterSign (cs : List Char) : List Char :=
  match cs with
  | '+' :: rest => rest
  | _ => cs

theorem rowText_ne_zero (row : List Amount) : rowText row ≠ ['0'] := by
  intro same
  cases row with
  | nil => exact nomatch same
  | cons a row =>
    obtain ⟨filled, letters⟩ := TimeUnit.name_spec a.named
    obtain ⟨c, cs, hname⟩ := List.exists_cons_of_ne_nil filled
    have letter := letters c (by simp [hname])
    have hc : c ∈ rowText (a :: row) := by simp [rowText_cons, hname]
    rw [same, List.mem_singleton] at hc
    subst hc
    exact absurd letter (by decide)

theorem read?_eq (cs : List Char) :
    read? cs = if afterSign cs = ['0'] then some ⟨0⟩
      else if afterSign cs = [] then none
      else ((total? (pairs (afterSign cs))).filter (· ≤ maxU64)).map Duration.mk := rfl

theorem parse_of_zero {s : String} (h : afterSign s.toList = ['0']) : parse s = .ok ⟨0⟩ := by
  rw [parse, read?_eq, if_pos h]

/-- A row of numbers that are read comes to what its digits count, as far as 64 bits hold that. -/
theorem parse_of_row {s : String} {row : List Amount} (filled : row ≠ [])
    (spelled : afterSign s.toList = rowText row) (read : ∀ a ∈ row, a.IsRead) :
    parse s = if rowNanos row ≤ 2 ^ 64 - 1 then .ok ⟨rowNanos row⟩ else .error ⟨s⟩ := by
  have some_text : rowText row ≠ [] := by
    obtain ⟨a, rest, rfl⟩ := List.exists_cons_of_ne_nil filled
    simp [rowText_cons, (read a (by simp)).number_ne_nil]
  rw [parse, read?_eq, spelled, if_neg (rowText_ne_zero row), if_neg some_text, pairs_rowText read,
    total?_row read]
  have bound : maxU64 = 2 ^ 64 - 1 := rfl
  rw [← bound]
  by_cases small : rowNanos row ≤ maxU64 <;> simp [Option.filter, small]

theorem exists_row_of_parse {s : String} {d : Duration} (h : parse s = .ok d) :
    afterSign s.toList = ['0'] ∨ ∃ row, row ≠ [] ∧ afterSign s.toList = rowText row ∧
      (∀ a ∈ row, a.IsRead) ∧ rowNanos row ≤ 2 ^ 64 - 1 := by
  have found : read? s.toList = some d := by
    unfold parse at h
    split at h
    · next same => rw [same, Except.ok.inj h]
    · exact nomatch h
  rw [read?_eq] at found
  split at found
  · next zero => exact .inl zero
  split at found
  · exact nomatch found
  · next filled =>
    obtain ⟨n, hn, -⟩ := Option.map_eq_some_iff.mp found
    obtain ⟨total, small⟩ := Option.filter_eq_some_iff.mp hn
    obtain ⟨made, chars⟩ := pairs_spec (afterSign s.toList)
    obtain ⟨row, same, read, rfl⟩ := exists_row_of_total? chars total
    have spelled : afterSign s.toList = rowText row := by
      rw [← made, ← same, List.flatMap_map]
      rfl
    refine .inr ⟨row, ?_, spelled, read, of_decide_eq_true small⟩
    rintro rfl
    exact filled spelled

/-! ### The grammar -/

/-- The text is in the grammar of durations, and its digits count `n` nanoseconds. -/
inductive Denotes (s : String) : Nat → Prop
  | zero : afterSign s.toList = ['0'] → Denotes s 0
  | row {row : List Amount} : row ≠ [] → afterSign s.toList = rowText row →
      (∀ a ∈ row, IsDecimal a.number) → Denotes s (rowNanos row)

/-- The text is a row of numbers that are read, a second point in one of them behind the places that
count, and 64 bits hold what its digits count. -/
def HasHiddenPoint (s : String) : Prop :=
  ∃ row : List Amount, afterSign s.toList = rowText row ∧ (∀ a ∈ row, a.IsRead) ∧
    (∃ a ∈ row, HidesPoint a.unit.nanos a.number) ∧ rowNanos row ≤ 2 ^ 64 - 1

theorem exists_parse_of_denotes {s : String} {n : Nat} (h : Denotes s n) (small : n ≤ 2 ^ 64 - 1) :
    ∃ d, parse s = .ok d := by
  cases h with
  | zero zero => exact ⟨⟨0⟩, parse_of_zero zero⟩
  | row filled spelled decimals =>
    rw [parse_of_row filled spelled fun a ha => .inl (decimals a ha), if_pos small]
    exact ⟨_, rfl⟩

theorem HasHiddenPoint.exists_parse {s : String} (h : HasHiddenPoint s) : ∃ d, parse s = .ok d := by
  obtain ⟨row, spelled, read, ⟨a, ha, -⟩, small⟩ := h
  rw [parse_of_row (List.ne_nil_of_mem ha) spelled read, if_pos small]
  exact ⟨_, rfl⟩

theorem HasHiddenPoint.not_denotes {s : String} (h : HasHiddenPoint s) (n : Nat) :
    ¬ Denotes s n := by
  intro written
  obtain ⟨row, spelled, read, ⟨a, ha, hidden⟩, -⟩ := h
  cases written with
  | zero zero => exact rowText_ne_zero row (spelled.symm.trans zero)
  | @row row' _ spelled' decimals =>
    have same : row.map Amount.pair = row'.map Amount.pair := by
      rw [← pairs_rowText read, ← spelled, spelled', pairs_rowText fun a ha => .inl (decimals a ha)]
    obtain ⟨a', ha', twin⟩ := List.mem_map.mp (same ▸ List.mem_map_of_mem ha)
    obtain ⟨number, -⟩ := Prod.mk.inj twin
    exact hidden.not_isDecimal (number ▸ decimals a' ha')

/-- The texts that are read are those of the grammar, as far as 64 bits hold what their digits count, and
those that hide a point, none of which is in the grammar. -/
theorem readable_iff_denotes (s : String) :
    ((∃ d, parse s = .ok d) ↔ (∃ n ≤ 2 ^ 64 - 1, Denotes s n) ∨ HasHiddenPoint s) ∧
      ¬ ((∃ n, Denotes s n) ∧ HasHiddenPoint s) := by
  constructor
  · constructor
    · rintro ⟨d, h⟩
      rcases exists_row_of_parse h with zero | ⟨row, filled, spelled, read, small⟩
      · exact .inl ⟨0, Nat.zero_le _, .zero zero⟩
      · by_cases decimals : ∀ a ∈ row, IsDecimal a.number
        · exact .inl ⟨rowNanos row, small, .row filled spelled decimals⟩
        · obtain ⟨a, ha, second⟩ := not_forall₂.mp decimals
          exact .inr ⟨row, spelled, read, ⟨a, ha, (read a ha).resolve_left second⟩, small⟩
    · rintro (⟨n, small, written⟩ | hidden)
      · exact exists_parse_of_denotes written small
      · exact hidden.exists_parse
  · rintro ⟨⟨n, written⟩, hidden⟩
    exact hidden.not_denotes n written

/-- The second point of `1.5.ns` stands where no digit counts a nanosecond. -/
theorem exists_read_outside_grammar :
    (∃ d, parse "1.5.ns" = .ok d) ∧ ¬ ∃ n, Denotes "1.5.ns" n := by
  have hidden : HasHiddenPoint "1.5.ns" := by
    have second : HidesPoint 1 "1.5.".toList :=
      ⟨['1'], ['5'], [], by simp, by simp, by simp, by decide, rfl⟩
    refine ⟨[⟨"1.5.".toList, .nano, "ns", by decide⟩], by decide, ?_, ?_, by decide⟩
    · rw [List.forall_mem_singleton]
      exact .inr second
    · exact ⟨_, List.mem_singleton_self _, second⟩
  exact ⟨hidden.exists_parse, fun ⟨n, written⟩ => hidden.not_denotes n written⟩

end Duration

end Galley
