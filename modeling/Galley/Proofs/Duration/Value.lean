import Galley.Proofs.Duration.Grammar
import Mathlib.Data.Rat.Cast.Order
import Mathlib.Tactic.FieldSimp
import Mathlib.Tactic.Linarith
import Mathlib.Tactic.NormNum
import Mathlib.Tactic.Ring
/-!
# What cutting off digits costs

The exact value of a decimal of units is rational; what is read of it counts whole nanoseconds only. The
first digits of a fraction fall on whole numbers of nanoseconds and lose nothing. What remains of the unit
behind them is 1, 6 or 36, and the digits there lose less than nine nanoseconds, however many there are. Main
statement: what is read of a row of decimals falls short of its exact value by less than nine nanoseconds a
number, and by nothing where no fraction is too long for its unit.
-/
namespace Galley

namespace TimeUnit

/-- The digits behind a point that fall on whole nanoseconds. -/
def exactDigits : TimeUnit → Nat
  | nano => 0
  | micro => 3
  | milli => 6
  | second => 9
  | minute => 10
  | hour => 11

/-- The nanoseconds at the last exact digit of a unit. -/
def rest : TimeUnit → Nat
  | nano | micro | milli | second => 1
  | minute => 6
  | hour => 36

theorem nanos_eq (u : TimeUnit) : u.nanos = u.rest * 10 ^ u.exactDigits := by
  cases u <;> rfl

end TimeUnit

namespace Duration

open Text.Numeral

/-! ### Exact values -/

/-- The digits of a fraction as a part of one. -/
def fractionValue (ds : List Char) : ℚ :=
  valueFrom 0 ds / 10 ^ ds.length

/-- The nanoseconds of a number of units with all its digits. -/
def Amount.exact (a : Amount) : ℚ :=
  (valueFrom 0 (beforePoint a.number) + fractionValue (behindPoint a.number)) * a.unit.nanos

def rowExact (row : List Amount) : ℚ :=
  (row.map Amount.exact).sum

@[simp] theorem fractionValue_nil : fractionValue [] = 0 := by
  simp [fractionValue, valueFrom]

theorem fractionValue_cons (c : Char) (cs : List Char) :
    fractionValue (c :: cs) = (digitValue c + fractionValue cs) / 10 := by
  have digits : (10 : ℚ) ^ cs.length ≠ 0 := by positivity
  rw [fractionValue, fractionValue, valueFrom_zero_cons, List.length_cons, pow_succ]
  push_cast
  field_simp

theorem digitValue_le {c : Char} (h : c.isDigit = true) : digitValue c ≤ 9 := by
  simp only [Char.isDigit, Bool.and_eq_true, decide_eq_true_eq] at h
  have high : c.toNat ≤ 57 := h.2
  unfold digitValue
  have zero : '0'.toNat = 48 := rfl
  omega

/-- A fraction is a proper part of one. -/
theorem fractionValue_mem {ds : List Char} (digits : ∀ c ∈ ds, c.isDigit = true) :
    0 ≤ fractionValue ds ∧ fractionValue ds < 1 := by
  induction ds with
  | nil => simp
  | cons c ds ih =>
    rw [List.forall_mem_cons] at digits
    obtain ⟨low, high⟩ := ih digits.2
    have first : (digitValue c : ℚ) ≤ 9 := by exact_mod_cast digitValue_le digits.1
    have zero : (0 : ℚ) ≤ digitValue c := Nat.cast_nonneg _
    rw [fractionValue_cons]
    constructor <;> linarith

/-! ### What is lost -/

/-- By how much the digits of a fraction count less than they are worth. -/
def loss (scale : Nat) (fraction : List Char) : ℚ :=
  fractionValue fraction * scale - places scale fraction

@[simp] theorem loss_nil (scale : Nat) : loss scale [] = 0 := by
  simp [loss]

theorem Amount.exact_eq (a : Amount) :
    a.exact = a.nanos + loss a.unit.nanos (behindPoint a.number) := by
  rw [exact, nanos, worth, loss]
  push_cast
  ring

/-- A digit at a place of whole nanoseconds loses nothing. -/
theorem loss_mul_ten (scale : Nat) (c : Char) (cs : List Char) :
    loss (scale * 10) (c :: cs) = loss scale cs := by
  rw [loss, loss, fractionValue_cons, places_cons, Nat.mul_div_cancel _ (by decide)]
  push_cast
  ring

/-- Below ten nanoseconds no digit counts. -/
theorem loss_of_lt {scale : Nat} (h : scale < 10) (ds : List Char) :
    loss scale ds = fractionValue ds * scale := by
  have none : places scale ds = 0 := by
    cases ds with
    | nil => rfl
    | cons c cs => rw [places_cons, Nat.div_eq_of_lt h, places_zero, Nat.mul_zero]
  rw [loss, none, Nat.cast_zero, sub_zero]

theorem loss_rest_mem (u : TimeUnit) {ds : List Char} (digits : ∀ c ∈ ds, c.isDigit = true) :
    0 ≤ loss u.rest ds ∧ loss u.rest ds < 9 := by
  have small (scale : Nat) (h : scale ≤ 6) : 0 ≤ loss scale ds ∧ loss scale ds < 9 := by
    obtain ⟨low, high⟩ := fractionValue_mem digits
    have bound : (scale : ℚ) ≤ 6 := by exact_mod_cast h
    have zero : (0 : ℚ) ≤ scale := Nat.cast_nonneg _
    rw [loss_of_lt (by omega)]
    constructor <;> nlinarith
  cases u with
  | nano | micro | milli | second => exact small 1 (by decide)
  | minute => exact small 6 (by decide)
  | hour =>
    cases ds with
    | nil => simp
    | cons c ds =>
      -- the first digit counts 3 of 3.6 nanoseconds, and those behind it nothing of 3.6
      rw [List.forall_mem_cons] at digits
      obtain ⟨low, high⟩ := fractionValue_mem digits.2
      have first : (digitValue c : ℚ) ≤ 9 := by exact_mod_cast digitValue_le digits.1
      have zero : (0 : ℚ) ≤ digitValue c := Nat.cast_nonneg _
      have behind : places 3 ds = 0 := by
        have := loss_of_lt (show 3 < 10 by decide) ds
        simpa [loss] using this
      have value : loss TimeUnit.hour.rest (c :: ds) =
          0.6 * digitValue c + 3.6 * fractionValue ds := by
        rw [loss, fractionValue_cons, places_cons, TimeUnit.rest, show 36 / 10 = 3 from rfl, behind]
        push_cast
        ring
      rw [value]
      constructor <;> linarith

theorem loss_mem (u : TimeUnit) {ds : List Char} (digits : ∀ c ∈ ds, c.isDigit = true) (k : Nat) :
    (0 ≤ loss (u.rest * 10 ^ k) ds ∧ loss (u.rest * 10 ^ k) ds < 9) ∧
      (ds.length ≤ k → loss (u.rest * 10 ^ k) ds = 0) := by
  induction k generalizing ds with
  | zero =>
    rw [Nat.pow_zero, Nat.mul_one]
    refine ⟨loss_rest_mem u digits, fun short => ?_⟩
    rw [List.length_eq_zero_iff.mp (Nat.le_zero.mp short), loss_nil]
  | succ k ih =>
    cases ds with
    | nil => simp
    | cons c ds =>
      rw [List.forall_mem_cons] at digits
      rw [Nat.pow_succ, ← Nat.mul_assoc, loss_mul_ten, List.length_cons, Nat.add_le_add_iff_right]
      exact ih digits.2

theorem isDigit_of_mem_behindPoint {number : List Char} (h : IsDecimal number) :
    ∀ c ∈ behindPoint number, c.isDigit = true := by
  have read : IsRead 1 number := .inl h
  rcases exists_point (isNumberChar_of_mem_of_isRead read) with
    digits | ⟨whole, behind, digits, later, rfl⟩
  · simp [(cut_of_digits digits).2]
  · rw [(cut_at_point digits behind).2]
    rcases exists_point later with behindDigits | ⟨fraction, rest, -, -, rfl⟩
    · exact behindDigits
    · have one := h.2.1
      simp only [List.count_append, List.count_cons_self] at one
      omega

/-- No fraction has more digits than its unit resolves. -/
def Amount.IsExact (a : Amount) : Prop :=
  (behindPoint a.number).length ≤ a.unit.exactDigits

theorem Amount.exact_mem {a : Amount} (h : IsDecimal a.number) :
    (a.nanos ≤ a.exact ∧ a.exact < a.nanos + 9) ∧ (a.IsExact → (a.nanos : ℚ) = a.exact) := by
  obtain ⟨⟨low, high⟩, whole⟩ := loss_mem a.unit (isDigit_of_mem_behindPoint h) a.unit.exactDigits
  rw [← TimeUnit.nanos_eq] at low high whole
  rw [a.exact_eq]
  refine ⟨⟨by linarith, by linarith⟩, fun short => ?_⟩
  rw [whole short, add_zero]

/-! ### Rows -/

theorem rowExact_mem {row : List Amount} (decimals : ∀ a ∈ row, IsDecimal a.number) :
    (rowNanos row ≤ rowExact row ∧ rowExact row ≤ rowNanos row + 9 * row.length) ∧
      (row ≠ [] → rowExact row < rowNanos row + 9 * row.length) ∧
      ((∀ a ∈ row, a.IsExact) → (rowNanos row : ℚ) = rowExact row) := by
  induction row with
  | nil => simp [rowNanos, rowExact]
  | cons a row ih =>
    rw [List.forall_mem_cons] at decimals
    obtain ⟨⟨low, high⟩, -, whole⟩ := ih decimals.2
    obtain ⟨⟨low', high'⟩, whole'⟩ := Amount.exact_mem decimals.1
    have exact : rowExact (a :: row) = a.exact + rowExact row := by simp [rowExact]
    have nanos : (rowNanos (a :: row) : ℚ) = a.nanos + rowNanos row := by simp [rowNanos]
    have length : ((a :: row).length : ℚ) = row.length + 1 := by simp
    rw [exact, nanos, length]
    refine ⟨⟨by linarith, by linarith⟩, fun _ => by linarith, fun short => ?_⟩
    rw [List.forall_mem_cons] at short
    rw [whole' short.1, whole short.2]

/-- What is read of a row of `n` decimals falls short of its exact value by less than `9 n` nanoseconds, and by
nothing where no fraction is too long for its unit. Nothing is read where the exact value is `2 ^ 64 + 9 n` or
more, and every row below `2 ^ 64` is read. -/
theorem parse_falls_short {s : String} {row : List Amount} (filled : row ≠ [])
    (spelled : afterSign s.toList = rowText row) (decimals : ∀ a ∈ row, IsDecimal a.number) :
    (∀ d, parse s = .ok d →
      (d.nanos ≤ rowExact row ∧ rowExact row < d.nanos + 9 * row.length) ∧
        ((∀ a ∈ row, a.IsExact) → (d.nanos : ℚ) = rowExact row)) ∧
      (2 ^ 64 + 9 * row.length ≤ rowExact row → ∃ e, parse s = .error e) ∧
      (rowExact row < 2 ^ 64 → ∃ d, parse s = .ok d) := by
  obtain ⟨⟨low, -⟩, high, whole⟩ := rowExact_mem decimals
  have above := high filled
  rw [parse_of_row filled spelled fun a ha => .inl (decimals a ha)]
  by_cases small : rowNanos row ≤ 2 ^ 64 - 1
  · rw [if_pos small]
    have bound : (rowNanos row : ℚ) < 2 ^ 64 := by exact_mod_cast (by omega : rowNanos row < 2 ^ 64)
    refine ⟨?_, fun large => by linarith, fun _ => ⟨_, rfl⟩⟩
    intro d read
    obtain rfl := Except.ok.inj read
    exact ⟨⟨low, above⟩, whole⟩
  · rw [if_neg small]
    have bound : (2 : ℚ) ^ 64 ≤ rowNanos row := by exact_mod_cast (by omega : 2 ^ 64 ≤ rowNanos row)
    exact ⟨fun _ read => (nomatch read), fun _ => ⟨_, rfl⟩, fun below => by linarith⟩

/-- Nearly two hours and a quarter of a microsecond. -/
def steeping : List Amount :=
  [⟨"1.9999999999999".toList, .hour, "h", by decide⟩, ⟨".25".toList, .micro, "us", by decide⟩]

/-- The hours alone fall short by more than eight nanoseconds. -/
theorem parse_falls_short_steeping :
    steeping ≠ [] ∧ afterSign "+1.9999999999999h.25us".toList = rowText steeping ∧
      (∀ a ∈ steeping, IsDecimal a.number) ∧ rowExact steeping < 2 ^ 64 ∧
      ∃ d, parse "+1.9999999999999h.25us" = .ok d ∧
        d.nanos ≤ rowExact steeping ∧ rowExact steeping < d.nanos + 9 * steeping.length := by
  have filled : steeping ≠ [] := List.cons_ne_nil _ _
  have spelled : afterSign "+1.9999999999999h.25us".toList = rowText steeping := by decide
  have decimals : ∀ a ∈ steeping, IsDecimal a.number := by decide
  have below : rowExact steeping < 2 ^ 64 := by decide +kernel
  obtain ⟨within, -, read⟩ := parse_falls_short filled spelled decimals
  obtain ⟨d, hd⟩ := read below
  exact ⟨filled, spelled, decimals, below, d, hd, (within d hd).1⟩

end Duration

end Galley
