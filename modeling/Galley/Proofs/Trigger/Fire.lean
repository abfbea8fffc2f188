import Galley.Trigger
import Mathlib.Order.Bounds.Defs
/-!
# Fires at fixed intervals

A trigger that recurs fires in step with its last fire, and passes over the fires that it has missed. Main
statement: its next fire is the least one in step that is still to come, or the greatest time where that one
lies beyond it, although the differences and products on the way are cut off, and the one sum on the way that
is not cut off stays within 64 bits.
-/
namespace Galley.Trigger

open Text.Numeral

variable {interval : Duration} {step prev now : Int}

/-! ### Times in step -/

/-- The times in step with a fire at `prev` that are still to come at `now`. -/
def firesAfter (step prev now : Int) : Set Int :=
  {t | now < t ∧ ∃ k : Nat, 1 ≤ k ∧ t = prev + k * step}

theorem isLeast_firesAfter_of_lt (positive : 0 < step) (ahead : now < prev + step) :
    IsLeast (firesAfter step prev now) (prev + step) := by
  constructor
  · exact ⟨ahead, 1, Nat.le_refl 1, by simp⟩
  · rintro t ⟨-, k, hk, rfl⟩
    have far : 1 * step ≤ k * step := Int.mul_le_mul_of_nonneg_right (by omega) (Int.le_of_lt positive)
    omega

theorem isLeast_firesAfter_of_le (positive : 0 < step) (past : prev + step ≤ now) :
    IsLeast (firesAfter step prev now) (prev + ((now - prev) / step + 1) * step) := by
  have later : now - prev < ((now - prev) / step + 1) * step :=
    Int.lt_ediv_add_one_mul_self (now - prev) positive
  have missed : 0 ≤ (now - prev) / step := Int.ediv_nonneg (by omega) (Int.le_of_lt positive)
  constructor
  · refine ⟨by omega, ((now - prev) / step + 1).toNat, by omega, ?_⟩
    rw [Int.toNat_of_nonneg (by omega)]
  · rintro t ⟨late, k, -, rfl⟩
    have more : (now - prev) / step < k := Int.ediv_lt_of_lt_mul positive (by omega)
    have far : ((now - prev) / step + 1) * step ≤ k * step :=
      Int.mul_le_mul_of_nonneg_right (by omega) (Int.le_of_lt positive)
    omega

/-! ### What is computed -/

theorem stepNanos_range (interval : Duration) :
    1 ≤ stepNanos interval ∧ stepNanos interval ≤ maxI64 := by
  unfold stepNanos Duration.signedNanos maxI64
  omega

theorem saturate_of_nonneg {n : Int} (h : 0 ≤ n) : saturate n = min n maxI64 := by
  unfold saturate minI64 maxI64
  omega

/-- By how many intervals a fire at `prev` that was missed is moved on. -/
def intervalsOn (interval : Duration) (prev now : Int) : Int :=
  (saturate (now - prev)).tdiv (stepNanos interval) + 1

theorem nextFire_simple (interval : Duration) (prev now : Int) :
    (simple interval).nextFire prev now =
      if now < saturate (prev + stepNanos interval) then some (saturate (prev + stepNanos interval))
      else some (saturate (prev + saturate (intervalsOn interval prev now * stepNanos interval))) :=
  rfl

/-- The number of intervals fits in 64 bits but where the whole range of times lies between. -/
theorem intervalsOn_range (early : 0 ≤ prev) (low : minI64 ≤ now) (high : now ≤ maxI64)
    (room : ¬ (prev = 0 ∧ now = maxI64 ∧ stepNanos interval = 1)) :
    minI64 ≤ intervalsOn interval prev now ∧ intervalsOn interval prev now ≤ maxI64 := by
  have positive := (stepNanos_range interval).1
  have gap : minI64 ≤ saturate (now - prev) ∧ saturate (now - prev) ≤ maxI64 ∧
      (saturate (now - prev) = maxI64 → prev = 0 ∧ now = maxI64) := by
    unfold saturate minI64 maxI64 at *
    omega
  unfold intervalsOn
  generalize saturate (now - prev) = span at gap
  generalize stepNanos interval = step at positive room
  by_cases one : step = 1
  · rw [one, Int.tdiv_one]
    unfold minI64 maxI64 at *
    omega
  · have half : (span.tdiv step).natAbs ≤ span.natAbs / 2 := by
      rw [Int.natAbs_tdiv]
      exact Nat.div_le_div_left (by omega) (by decide)
    unfold minI64 maxI64 at *
    omega

theorem intervalsOn_of_le (early : 0 ≤ prev) (due : prev ≤ now) (high : now ≤ maxI64) :
    intervalsOn interval prev now = (now - prev) / stepNanos interval + 1 := by
  have whole : saturate (now - prev) = now - prev := by
    rw [saturate_of_nonneg (by omega), Int.min_eq_left (by omega)]
  rw [intervalsOn, whole, Int.tdiv_eq_ediv_of_nonneg (by omega)]

/-- A fire that was not missed is followed by the one an interval later, as far as there are times. -/
theorem nextFire_of_lt (early : 0 ≤ prev) (late : prev ≤ maxI64) (high : now ≤ maxI64)
    (ahead : now < prev + stepNanos interval) :
    (simple interval).nextFire prev now = some (min (prev + stepNanos interval) maxI64) := by
  obtain ⟨positive, short⟩ := stepNanos_range interval
  have first : saturate (prev + stepNanos interval) = min (prev + stepNanos interval) maxI64 :=
    saturate_of_nonneg (by omega)
  rw [nextFire_simple]
  split
  · rw [first]
  · next full =>
    -- the time is the greatest one, and the next fire lies beyond it
    have last : now = maxI64 := by omega
    have none_missed : (now - prev) / stepNanos interval = 0 :=
      Int.ediv_eq_zero_of_lt (by omega) (by omega)
    rw [intervalsOn_of_le early (by omega) high, none_missed, Int.zero_add, Int.one_mul,
      saturate_of_nonneg (Int.le_of_lt positive), Int.min_eq_left short, first]

/-- A fire that was missed is moved on by whole intervals until it is to come, as far as there are times. -/
theorem nextFire_of_le (early : 0 ≤ prev) (high : now ≤ maxI64)
    (past : prev + stepNanos interval ≤ now) :
    (simple interval).nextFire prev now =
      some (min (prev + ((now - prev) / stepNanos interval + 1) * stepNanos interval) maxI64) := by
  obtain ⟨positive, short⟩ := stepNanos_range interval
  have later := Int.lt_ediv_add_one_mul_self (now - prev) (show 0 < stepNanos interval by omega)
  have first : saturate (prev + stepNanos interval) = prev + stepNanos interval := by
    rw [saturate_of_nonneg (by omega), Int.min_eq_left (by omega)]
  rw [nextFire_simple, first, if_neg (by omega), intervalsOn_of_le early (by omega) high]
  generalize ((now - prev) / stepNanos interval + 1) * stepNanos interval = span at later
  rw [saturate_of_nonneg (show 0 ≤ span by omega), saturate_of_nonneg]
  · congr 1
    omega
  · unfold maxI64
    omega

/-- The next fire of a trigger that recurs is the least time in step with the last fire that is later than
the clock's, or the greatest time where that one lies beyond it; and the number of intervals in between, which
is not cut off, fits in 64 bits. -/
theorem nextFire_least (early : 0 ≤ prev) (late : prev ≤ maxI64) (low : minI64 ≤ now)
    (high : now ≤ maxI64) (room : ¬ (prev = 0 ∧ now = maxI64 ∧ stepNanos interval = 1)) :
    (minI64 ≤ intervalsOn interval prev now ∧ intervalsOn interval prev now ≤ maxI64) ∧
      ∃ fire, IsLeast (firesAfter (stepNanos interval) prev now) fire ∧
        (simple interval).nextFire prev now = some (min fire maxI64) := by
  have positive : 0 < stepNanos interval := (stepNanos_range interval).1
  refine ⟨intervalsOn_range early low high room, ?_⟩
  by_cases ahead : now < prev + stepNanos interval
  · exact ⟨_, isLeast_firesAfter_of_lt positive ahead, nextFire_of_lt early late high ahead⟩
  · have past : prev + stepNanos interval ≤ now := by omega
    exact ⟨_, isLeast_firesAfter_of_le positive past, nextFire_of_le early high past⟩

/-- Seven nanoseconds before the last time there is no fire left in step. -/
theorem nextFire_least_last : (0 : Int) ≤ 9223372036854775800 ∧
    (9223372036854775800 : Int) ≤ maxI64 ∧ minI64 ≤ 9223372036854775807 ∧
    (9223372036854775807 : Int) ≤ maxI64 ∧
    ¬ ((9223372036854775800 : Int) = 0 ∧ (9223372036854775807 : Int) = maxI64 ∧ stepNanos ⟨10⟩ = 1) ∧
    (minI64 ≤ intervalsOn ⟨10⟩ 9223372036854775800 9223372036854775807 ∧
      intervalsOn ⟨10⟩ 9223372036854775800 9223372036854775807 ≤ maxI64) ∧
    ∃ fire, IsLeast (firesAfter (stepNanos ⟨10⟩) 9223372036854775800 9223372036854775807) fire ∧
      (simple ⟨10⟩).nextFire 9223372036854775800 9223372036854775807 = some (min fire maxI64) :=
  ⟨by decide, by decide, by decide, by decide, by decide,
    nextFire_least (by decide) (by decide) (by decide) (by decide) (by decide)⟩

/-- A fire that falls on the clock's time counts as missed. -/
example : (simple ⟨10⟩).nextFire 100 130 = some 140 := by decide

end Galley.Trigger
