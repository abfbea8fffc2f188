import Galley.Duration.Text
import Galley.Proofs.Text.Numeral
import Mathlib.Data.List.TakeWhile
/-!
# Durations read back

A written duration is a row of numbers with units, each of them cut off where the next number
starts. A fraction without the zeros at its end has the value of the whole one. Main statement: a
written duration is read as the duration that was written, as far as 64 bits hold it.
-/
namespace Galley.Duration

open Text.Numeral

/-! ### Cutting into numbers and units -/

theorem isNumberChar_of_isDigit {c : Char} (h : c.isDigit = true) : isNumberChar c = true := by
  simp [isNumberChar, h]

/-- What may stand behind a unit: nothing, or the next number. -/
def StartsNumber : List Char → Prop
  | [] => True
  | c :: _ => isNumberChar c = true

theorem pairs_cons_number {c : Char} {cs number unit : List Char}
    {rest : List (List Char × List Char)} (hc : isNumberChar c = true)
    (h : pairs cs = (number, unit) :: rest) : pairs (c :: cs) = (c :: number, unit) :: rest := by
  simp [pairs, hc, h]

theorem pairs_number_append {number cs unit : List Char} {rest : List (List Char × List Char)}
    (digits : ∀ c ∈ number, isNumberChar c = true) (h : pairs cs = ([], unit) :: rest) :
    pairs (number ++ cs) = (number, unit) :: rest := by
  induction number with
  | nil => exact h
  | cons c number ih =>
    exact pairs_cons_number (digits c (by simp)) (ih fun c' hc' => digits c' (by simp [hc']))

/-- The first number of a text that starts with one is not empty. -/
theorem exists_pairs_of_startsNumber {c : Char} (cs : List Char) (hc : isNumberChar c = true) :
    ∃ number unit rest, pairs (c :: cs) = (c :: number, unit) :: rest := by
  cases h : pairs cs with
  | nil => exact ⟨[], [], [], by simp [pairs, hc, h]⟩
  | cons p rest => exact ⟨p.1, p.2, rest, pairs_cons_number hc h⟩

theorem pairs_unit_append {unit cs : List Char} (hunit : unit ≠ [])
    (letters : ∀ c ∈ unit, isNumberChar c = false) (next : StartsNumber cs) :
    pairs (unit ++ cs) = ([], unit) :: pairs cs := by
  induction unit with
  | nil => exact absurd rfl hunit
  | cons c unit ih =>
    have hc := letters c (by simp)
    cases unit with
    | cons d unit =>
      have rest := ih (List.cons_ne_nil d unit) fun c' hc' => letters c' (by simp_all)
      rw [List.cons_append, pairs, rest]
      simp [hc]
    | nil =>
      cases cs with
      | nil => simp [pairs, hc]
      | cons d ds =>
        obtain ⟨number, unit, rest, hp⟩ := exists_pairs_of_startsNumber ds next
        rw [List.singleton_append, pairs, hp]
        simp [hc]

/-- A number and its unit are cut off where the next number starts. -/
theorem pairs_append {number unit cs : List Char} (hunit : unit ≠ [])
    (digits : ∀ c ∈ number, isNumberChar c = true)
    (letters : ∀ c ∈ unit, isNumberChar c = false) (next : StartsNumber cs) :
    pairs (number ++ unit ++ cs) = (number, unit) :: pairs cs := by
  rw [List.append_assoc]
  exact pairs_number_append digits (pairs_unit_append hunit letters next)

/-- The nanoseconds of a text that starts with a number and its unit. -/
theorem total?_pairs_append {number unit cs : List Char} {v total : Nat} (hunit : unit ≠ [])
    (digits : ∀ c ∈ number, isNumberChar c = true)
    (letters : ∀ c ∈ unit, isNumberChar c = false) (next : StartsNumber cs)
    (hv : pair? number unit = some v) (htotal : total? (pairs cs) = some total) :
    total? (pairs (number ++ unit ++ cs)) = some (v + total) := by
  rw [pairs_append hunit digits letters next, total?, hv, htotal]
  rfl

/-! ### Numbers with fractions -/

/-- What stands before the first point of a number. -/
def beforePoint (number : List Char) : List Char :=
  number.takeWhile (· ≠ '.')

/-- What stands behind the first point of a number. -/
def behindPoint (number : List Char) : List Char :=
  (number.dropWhile (· ≠ '.')).drop 1

section Cut

variable {whole : List Char}

theorem ne_point_of_digits (digits : ∀ c ∈ whole, c.isDigit = true) :
    ∀ c ∈ whole, decide (c ≠ '.') = true := by
  intro c hc
  rw [decide_eq_true_iff]
  rintro rfl
  exact absurd (digits _ hc) (by decide)

theorem cut_at_point (digits : ∀ c ∈ whole, c.isDigit = true) (cs : List Char) :
    beforePoint (whole ++ '.' :: cs) = whole ∧ behindPoint (whole ++ '.' :: cs) = cs := by
  constructor
  · rw [beforePoint, List.takeWhile_append_of_pos (ne_point_of_digits digits)]
    simp
  · rw [behindPoint, List.dropWhile_append_of_pos (ne_point_of_digits digits)]
    simp

theorem cut_of_digits (digits : ∀ c ∈ whole, c.isDigit = true) :
    beforePoint whole = whole ∧ behindPoint whole = [] := by
  constructor
  · exact List.takeWhile_eq_self_iff.mpr (ne_point_of_digits digits)
  · rw [behindPoint, List.dropWhile_eq_nil_iff.mpr (ne_point_of_digits digits), List.drop_nil]

end Cut

/-- A number counts its whole units and what its fraction comes to; one of the two must be there. -/
theorem pair?_eq {number unit : List Char} {scale : Nat} (hunit : unit? unit = some scale)
    (digits : ∀ c ∈ beforePoint number, c.isDigit = true) :
    pair? number unit =
      if beforePoint number = [] ∧ behindPoint number = [] then none
      else (fraction? scale (behindPoint number)).map
        (valueFrom 0 (beforePoint number) * scale + ·) := by
  unfold beforePoint behindPoint at *
  simp only [pair?, hunit, Option.bind_eq_bind, Option.bind_some]
  split
  · rfl
  split
  · next bare =>
    rw [bare]
    cases fraction? scale _ <;> rfl
  · next filled =>
    rw [digits?, if_pos ⟨filled, List.all_eq_true.mpr digits⟩]
    cases fraction? scale _ <;> rfl

/-- The value of digits at the places of a fraction. -/
theorem fraction?_of_length_le {width : Nat} {ds : List Char}
    (digits : ∀ c ∈ ds, c.isDigit = true) (short : ds.length ≤ width) :
    fraction? (10 ^ width) ds = some (valueFrom 0 ds * 10 ^ (width - ds.length)) := by
  induction ds generalizing width with
  | nil => simp [fraction?, valueFrom]
  | cons c ds ih =>
    obtain ⟨w, rfl⟩ : ∃ w, width = w + 1 := ⟨width - 1, by simp at short; omega⟩
    have hs : ds.length ≤ w := by simpa using short
    have place : 10 ^ (w + 1) / 10 = 10 ^ w := by rw [Nat.pow_succ, Nat.mul_div_cancel _ (by omega)]
    have split : 10 ^ w = 10 ^ ds.length * 10 ^ (w - ds.length) := by
      rw [← Nat.pow_add, Nat.add_sub_cancel' hs]
    have left : w + 1 - (c :: ds).length = w - ds.length := by simp
    rw [fraction?, if_pos (digits c (by simp)), place, if_neg (Nat.ne_of_gt (Nat.pow_pos (by omega))),
      ih (fun c' hc' => digits c' (by simp [hc'])) hs, Option.map_some, valueFrom_zero_cons,
      left, Nat.add_mul, split]
    congr 2
    ac_rfl

/-- A text without the zeros at its end. -/
theorem exists_append_zeros (ds : List Char) :
    ∃ k, ds = (ds.reverse.dropWhile (· = '0')).reverse ++ List.replicate k '0' := by
  refine ⟨(ds.reverse.takeWhile (· = '0')).length, ?_⟩
  have zeros : ds.reverse.takeWhile (· = '0') =
      List.replicate (ds.reverse.takeWhile (· = '0')).length '0' :=
    List.eq_replicate_iff.mpr ⟨rfl, fun c hc => by
      simpa using List.all_eq_true.mp List.all_takeWhile c hc⟩
  have parts := List.takeWhile_append_dropWhile (p := (· = '0')) (l := ds.reverse)
  rw [zeros] at parts
  have := congrArg List.reverse parts
  simpa using this.symm

/-- A fraction keeps its value without the zeros at its end. -/
theorem fraction?_stripped {width n : Nat} (hn : n < 10 ^ width) (hw : 0 < width) :
    fraction? (10 ^ width) ((padded width n).reverse.dropWhile (· = '0')).reverse = some n := by
  obtain ⟨k, hk⟩ := exists_append_zeros (padded width n)
  generalize ((padded width n).reverse.dropWhile (· = '0')).reverse = ds at hk
  have long : ds.length + k = width := by
    have := length_padded hn hw
    rw [hk, List.length_append, List.length_replicate] at this
    exact this
  have value : 10 ^ k * valueFrom 0 ds = n := by
    have := valueFrom_padded width n
    rwa [hk, valueFrom_append, valueFrom, Nat.ofDigitChars_replicate_zero] at this
  have digits : ∀ c ∈ ds, c.isDigit = true := fun c hc =>
    isDigit_of_mem_padded (n := n) (by rw [hk]; exact List.mem_append_left _ hc)
  rw [fraction?_of_length_le digits (by omega), show width - ds.length = k by omega, Nat.mul_comm,
    value]

theorem pair?_decimal {unit : List Char} {scale : Nat} (h : unit? unit = some scale) (n : Nat) :
    pair? (decimal n) unit = some (n * scale) := by
  have digits : ∀ c ∈ decimal n, c.isDigit = true := fun _ => isDigit_of_mem_decimal
  obtain ⟨before, behind⟩ := cut_of_digits digits
  rw [pair?_eq h (by rwa [before]), before, behind, if_neg (by simp), valueFrom_decimal]
  rfl

/-- A number with a fraction counts the whole units and the parts of one. -/
theorem pair?_withFraction {unit : List Char} {width n whole : Nat}
    (h : unit? unit = some (10 ^ width)) (hn : n < 10 ^ width) :
    pair? (withFraction whole n width) unit = some (whole * 10 ^ width + n) := by
  unfold withFraction
  split
  · next hz =>
    obtain rfl : n = 0 := by
      rcases hz with hz | rfl
      · exact hz
      · simpa using hn
    exact pair?_decimal h whole
  · next hz =>
    obtain ⟨-, hw⟩ := not_or.mp hz
    have digits : ∀ c ∈ decimal whole, c.isDigit = true := fun _ => isDigit_of_mem_decimal
    obtain ⟨before, behind⟩ := cut_at_point digits
      ((padded width n).reverse.dropWhile (· = '0')).reverse
    rw [pair?_eq h (by rwa [before]), before, behind, if_neg (by simp), valueFrom_decimal,
      fraction?_stripped hn (Nat.pos_of_ne_zero hw)]
    rfl

theorem isNumberChar_of_mem_withFraction {whole n width : Nat} {c : Char}
    (h : c ∈ withFraction whole n width) : isNumberChar c = true := by
  unfold withFraction at h
  split at h
  · exact isNumberChar_of_isDigit (isDigit_of_mem_decimal h)
  · rw [List.mem_append, List.mem_cons, List.mem_reverse] at h
    rcases h with h | rfl | h
    · exact isNumberChar_of_isDigit (isDigit_of_mem_decimal h)
    · rfl
    · have := (List.dropWhile_suffix _).mem h
      exact isNumberChar_of_isDigit (isDigit_of_mem_padded (List.mem_reverse.mp this))

theorem isNumberChar_of_mem_decimal {n : Nat} {c : Char} (h : c ∈ decimal n) :
    isNumberChar c = true :=
  isNumberChar_of_isDigit (isDigit_of_mem_decimal h)

theorem startsNumber_decimal (n : Nat) (cs : List Char) : StartsNumber (decimal n ++ cs) := by
  obtain ⟨c, ds, h, hc, -⟩ := exists_decimal_eq_cons n
  rw [h]
  exact isNumberChar_of_isDigit hc

theorem exists_withFraction_eq_append (whole n width : Nat) :
    ∃ ds, withFraction whole n width = decimal whole ++ ds := by
  unfold withFraction
  split
  · exact ⟨[], (List.append_nil _).symm⟩
  · exact ⟨_, rfl⟩

theorem startsNumber_withFraction (whole n width : Nat) (cs : List Char) :
    StartsNumber (withFraction whole n width ++ cs) := by
  obtain ⟨ds, h⟩ := exists_withFraction_eq_append whole n width
  rw [h, List.append_assoc]
  exact startsNumber_decimal whole _

/-! ### Written durations -/

theorem total?_last {number unit : List Char} {v : Nat} (hunit : unit ≠ [])
    (digits : ∀ c ∈ number, isNumberChar c = true)
    (letters : ∀ c ∈ unit, isNumberChar c = false) (hv : pair? number unit = some v) :
    total? (pairs (number ++ unit)) = some v := by
  have nothing : StartsNumber [] := trivial
  simpa using total?_pairs_append hunit digits letters nothing hv rfl

theorem total?_hours (n : Nat) {cs : List Char} {total : Nat} (next : StartsNumber cs)
    (h : total? (pairs cs) = some total) :
    total? (pairs (decimal n ++ ['h'] ++ cs)) = some (n * 3600000000000 + total) :=
  total?_pairs_append (by decide) (fun _ => isNumberChar_of_mem_decimal)
    (by simp [isNumberChar]) next (pair?_decimal rfl n) h

theorem total?_minutes (n : Nat) {cs : List Char} {total : Nat} (next : StartsNumber cs)
    (h : total? (pairs cs) = some total) :
    total? (pairs (decimal n ++ ['m'] ++ cs)) = some (n * 60000000000 + total) :=
  total?_pairs_append (by decide) (fun _ => isNumberChar_of_mem_decimal)
    (by simp [isNumberChar]) next (pair?_decimal rfl n) h

/-- The numbers of a written duration add up to its nanoseconds. -/
theorem total?_pairs_write {d : Duration} (h : d.capped.nanos ≠ 0) :
    total? (pairs d.write) = some d.capped.nanos := by
  have last (whole n width : Nat) (unit : List Char) (hunit : unit ≠ [])
      (letters : ∀ c ∈ unit, isNumberChar c = false) (scale : unit? unit = some (10 ^ width))
      (hn : n < 10 ^ width) :
      total? (pairs (withFraction whole n width ++ unit)) = some (whole * 10 ^ width + n) :=
    total?_last hunit (fun _ => isNumberChar_of_mem_withFraction) letters
      (pair?_withFraction scale hn)
  unfold write
  generalize d.capped.nanos = n at h ⊢
  simp only [if_neg h]
  split
  · rw [last n 0 0 ['n', 's'] (by decide) (by simp [isNumberChar]) rfl (by decide)]
    simp
  split
  · rw [last (n / 1000) (n % 1000) 3 ['µ', 's'] (by decide) (by simp [isNumberChar]) rfl
      (Nat.mod_lt n (by decide))]
    rw [show 10 ^ 3 = 1000 from rfl, Nat.div_add_mod']
  split
  · rw [last (n / 1000000) (n % 1000000) 6 ['m', 's'] (by decide) (by simp [isNumberChar]) rfl
      (Nat.mod_lt n (by decide))]
    rw [show 10 ^ 6 = 1000000 from rfl, Nat.div_add_mod']
  have seconds := last (n / 1000000000 % 60) (n % 1000000000) 9 ['s'] (by decide)
    (by simp [isNumberChar]) rfl (Nat.mod_lt n (by decide))
  have starts := startsNumber_withFraction (n / 1000000000 % 60) (n % 1000000000) 9 ['s']
  have minutes := total?_minutes (n / 1000000000 / 60 % 60) starts seconds
  by_cases hours : 0 < n / 1000000000 / 3600
  · have starts' : StartsNumber (decimal (n / 1000000000 / 60 % 60) ++ ['m'] ++
        (withFraction (n / 1000000000 % 60) (n % 1000000000) 9 ++ ['s'])) := by
      rw [List.append_assoc]
      exact startsNumber_decimal _ _
    have whole := total?_hours (n / 1000000000 / 3600) starts' minutes
    simp only [if_pos hours, if_pos (Or.inl hours : 0 < _ ∨ 0 < n / 1000000000 / 60 % 60)]
    simp only [List.append_assoc] at whole ⊢
    rw [whole]
    congr 1
    omega
  · by_cases minute : 0 < n / 1000000000 / 60 % 60
    · simp only [if_neg hours, if_pos (Or.inr minute : 0 < n / 1000000000 / 3600 ∨ 0 < _),
        List.nil_append]
      simp only [List.append_assoc] at minutes ⊢
      rw [minutes]
      congr 1
      omega
    · simp only [if_neg hours, if_neg (not_or.mpr ⟨hours, minute⟩), List.nil_append]
      rw [seconds]
      congr 1
      omega

/-- A written duration starts with a digit and is more than one. -/
theorem exists_write_eq_cons (d : Duration) :
    ∃ c d' cs, d.write = c :: d' :: cs ∧ c.isDigit = true := by
  have starts (n : Nat) (cs : List Char) (hcs : cs ≠ []) :
      ∃ c d' ds, decimal n ++ cs = c :: d' :: ds ∧ c.isDigit = true := by
    obtain ⟨c, ds, h, hc, -⟩ := exists_decimal_eq_cons n
    obtain ⟨d', rest, hr⟩ := List.exists_cons_of_ne_nil (List.append_ne_nil_of_right_ne_nil ds hcs)
    exact ⟨c, d', rest, by rw [h, List.cons_append, hr], hc⟩
  have fractions (whole n width : Nat) (cs : List Char) (hcs : cs ≠ []) :
      ∃ c d' ds, withFraction whole n width ++ cs = c :: d' :: ds ∧ c.isDigit = true := by
    obtain ⟨ds, h⟩ := exists_withFraction_eq_append whole n width
    rw [h, List.append_assoc]
    exact starts whole _ (List.append_ne_nil_of_right_ne_nil ds hcs)
  unfold write
  generalize d.capped.nanos = n
  dsimp only
  split
  · exact ⟨'0', 's', [], rfl, by decide⟩
  split
  · exact fractions _ _ _ _ (by decide)
  split
  · exact fractions _ _ _ _ (by decide)
  split
  · exact fractions _ _ _ _ (by decide)
  split
  · simp only [List.append_assoc]
    exact starts _ _ (by simp)
  split
  · simp only [List.append_assoc, List.nil_append]
    exact starts _ _ (by simp)
  · exact fractions _ _ _ _ (by decide)

theorem read?_write (d : Duration) : read? d.write = some d.capped := by
  by_cases hd : d.capped.nanos = 0
  · have hw : d.write = ['0', 's'] := by
      unfold write
      simp only [if_pos hd]
    have hc : d.capped = ⟨0⟩ := congrArg Duration.mk hd
    rw [hw, hc]
    rfl
  · obtain ⟨c, e, cs, hw, hc⟩ := exists_write_eq_cons d
    have sum := total?_pairs_write hd
    have unsigned : c ≠ '+' := by
      rintro rfl
      exact absurd hc (by decide)
    have bound : d.capped.nanos ≤ maxU64 := Nat.min_le_right _ _
    rw [hw] at sum ⊢
    simp only [read?]
    split
    · next h => exact absurd (List.cons.inj h).1 unsigned
    · rw [if_neg (by simp), if_neg (List.cons_ne_nil _ _), sum]
      simp [Option.filter, bound]

/-- A duration comes back as far as its nanoseconds fit in 64 bits. -/
theorem parse_text_eq_min (d : Duration) : parse d.text = .ok ⟨min d.nanos (2 ^ 64 - 1)⟩ := by
  have capped : d.capped = ⟨min d.nanos (2 ^ 64 - 1)⟩ := rfl
  rw [parse, text, String.toList_ofList, read?_write, capped]

end Galley.Duration
