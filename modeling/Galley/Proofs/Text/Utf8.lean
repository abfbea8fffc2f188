import Galley.Text.Utf8
import Mathlib.Tactic.SplitIfs
/-!
# Reading written bytes

The bytes of a character lead the reading machine from `idle` through as many modes as the character
has bytes and back to `idle`. The first byte is looked at once for each length of a character; the
bytes after it all carry six bits. Main statement: reading what was written gives the characters.
-/
namespace Galley.Text.Utf8

theorem toNat_toUInt8 {n : Nat} (h : n < 256) : n.toUInt8.toNat = n :=
  UInt8.toNat_ofNat_of_lt h

theorem readFrom_cons (mode : Mode) (b : UInt8) (bs : List UInt8) :
    readFrom mode (b :: bs) = (step mode b).2 ++ readFrom (step mode b).1 bs := rfl

/-- The byte that carries the last six bits of `n`. -/
def tail (n : Nat) : UInt8 := (0x80 + n % 64).toUInt8

theorem toNat_tail (n : Nat) : (tail n).toNat = 0x80 + n % 64 :=
  toNat_toUInt8 (by omega)

theorem readFrom_within {low high : UInt8} {value n : Nat} (left : Nat)
    (hlow : low.toNat ≤ 0x80 + n % 64) (hhigh : 0x80 + n % 64 ≤ high.toNat) (bs : List UInt8) :
    readFrom (.within (left + 2) low high value) (tail n :: bs) =
      readFrom (.within (left + 1) 0x80 0xBF (value * 64 + n % 64)) bs := by
  have hb : low ≤ tail n ∧ tail n ≤ high := by
    simp only [UInt8.le_iff_toNat_le, toNat_tail]
    exact ⟨hlow, hhigh⟩
  rw [readFrom_cons, step, if_pos hb, toNat_tail]
  simp

theorem readFrom_last {low high : UInt8} {value n : Nat}
    (hlow : low.toNat ≤ 0x80 + n % 64) (hhigh : 0x80 + n % 64 ≤ high.toNat) (bs : List UInt8) :
    readFrom (.within 1 low high value) (tail n :: bs) =
      some (Char.ofNat (value * 64 + n % 64)) :: readFrom .idle bs := by
  have hb : low ≤ tail n ∧ tail n ≤ high := by
    simp only [UInt8.le_iff_toNat_le, toNat_tail]
    exact ⟨hlow, hhigh⟩
  rw [readFrom_cons, step, if_pos hb, toNat_tail]
  simp

theorem start_one {n : Nat} (h : n < 0x80) :
    start n.toUInt8 = (.idle, [some (Char.ofNat n)]) := by
  have hb : (n.toUInt8).toNat = n := toNat_toUInt8 (by omega)
  rw [start, if_pos (by rw [UInt8.lt_iff_toNat_lt, hb]; exact h), hb]

theorem start_two {n : Nat} (h : 2 ≤ n) (h' : n < 0x20) :
    start (0xC0 + n).toUInt8 = (.within 1 0x80 0xBF n, []) := by
  have hb : ((0xC0 + n).toUInt8).toNat = 0xC0 + n := toNat_toUInt8 (by omega)
  simp only [start, UInt8.lt_iff_toNat_lt, hb, UInt8.reduceToNat]
  rw [if_neg (by omega), if_neg (by omega), if_pos (by omega), Nat.add_sub_cancel_left]

/-- The least second byte after the first of three bytes: what fits in two bytes is left out. -/
def lowThree (n : Nat) : UInt8 := if n = 0 then 0xA0 else 0x80

/-- The greatest second byte after the first of three bytes: surrogates are left out. -/
def highThree (n : Nat) : UInt8 := if n = 0xD then 0x9F else 0xBF

theorem start_three {n : Nat} (h : n < 0x10) :
    start (0xE0 + n).toUInt8 = (.within 2 (lowThree n) (highThree n) n, []) := by
  have hb : ((0xE0 + n).toUInt8).toNat = 0xE0 + n := toNat_toUInt8 (by omega)
  simp only [start, lowThree, highThree, UInt8.lt_iff_toNat_lt, ← UInt8.toNat_inj, hb,
    UInt8.reduceToNat]
  rw [if_neg (by omega), if_neg (by omega), if_neg (by omega)]
  by_cases h0 : n = 0
  · subst h0
    rfl
  by_cases hD : n = 0xD
  · subst hD
    rfl
  · rw [if_neg (by omega), if_neg (by omega), if_pos (by omega), if_neg h0, if_neg hD,
      Nat.add_sub_cancel_left]

/-- The least second byte after the first of four bytes: what fits in three bytes is left out. -/
def lowFour (n : Nat) : UInt8 := if n = 0 then 0x90 else 0x80

/-- The greatest second byte after the first of four bytes: what is no character is left out. -/
def highFour (n : Nat) : UInt8 := if n = 4 then 0x8F else 0xBF

theorem start_four {n : Nat} (h : n < 5) :
    start (0xF0 + n).toUInt8 = (.within 3 (lowFour n) (highFour n) n, []) := by
  match n, h with
  | 0, _ | 1, _ | 2, _ | 3, _ | 4, _ => rfl

theorem toNat_lowThree (n : Nat) : (lowThree n).toNat = if n = 0 then 0xA0 else 0x80 := by
  unfold lowThree
  split <;> rfl

theorem toNat_highThree (n : Nat) : (highThree n).toNat = if n = 0xD then 0x9F else 0xBF := by
  unfold highThree
  split <;> rfl

theorem toNat_lowFour (n : Nat) : (lowFour n).toNat = if n = 0 then 0x90 else 0x80 := by
  unfold lowFour
  split <;> rfl

theorem toNat_highFour (n : Nat) : (highFour n).toNat = if n = 4 then 0x8F else 0xBF := by
  unfold highFour
  split <;> rfl

/-- A character's number is none of a surrogate and not beyond the last character. -/
theorem toNat_isValidChar (c : Char) :
    c.toNat < 0xD800 ∨ 0xDFFF < c.toNat ∧ c.toNat < 0x110000 := c.valid

theorem readFrom_encodeChar (c : Char) (bs : List UInt8) :
    readFrom .idle (encodeChar c ++ bs) = some c :: readFrom .idle bs := by
  have valid := toNat_isValidChar c
  have number (n : Nat) (h : n = c.toNat) : some (Char.ofNat n) = some c := by
    rw [h, Char.ofNat_toNat]
  generalize hn : c.toNat = n at valid number
  unfold encodeChar
  simp only [hn]
  split_ifs with h1 h2 h3
  · rw [List.singleton_append, readFrom_cons, step, start_one h1, number n rfl]
    rfl
  · have hs := start_two (n := n / 64) (by omega) (by omega)
    simp only [List.cons_append, List.nil_append, readFrom_cons .idle, step, hs]
    rw [← tail, readFrom_last (by simp) (by simp; omega), number _ (by omega)]
  · have hs := start_three (n := n / 4096) (by omega)
    simp only [List.cons_append, List.nil_append, readFrom_cons .idle, step, hs]
    rw [← tail, ← tail, readFrom_within 0
        (by rw [toNat_lowThree]; split <;> omega) (by rw [toNat_highThree]; split <;> omega),
      readFrom_last (by simp) (by simp; omega), number _ (by omega)]
  · have hs := start_four (n := n / 262144) (by omega)
    simp only [List.cons_append, List.nil_append, readFrom_cons .idle, step, hs]
    rw [← tail, ← tail, ← tail, readFrom_within 1
        (by rw [toNat_lowFour]; split <;> omega) (by rw [toNat_highFour]; split <;> omega),
      readFrom_within 0 (by simp) (by simp; omega),
      readFrom_last (by simp) (by simp; omega), number _ (by omega)]

theorem read_encode (cs : List Char) : read (encode cs) = cs.map some := by
  induction cs with
  | nil => rfl
  | cons c cs ih =>
    have hc : encode (c :: cs) = encodeChar c ++ encode cs := by simp [encode]
    rw [read, hc, readFrom_encodeChar, List.map_cons, ← ih, read]

theorem decode?_encode (cs : List Char) : decode? (encode cs) = some cs := by
  rw [decode?, read_encode]
  induction cs with
  | nil => rfl
  | cons c cs ih =>
    rw [List.map_cons, List.mapM_cons, ih]
    rfl

theorem lossy_encode (cs : List Char) : lossy (encode cs) = cs := by
  rw [lossy, read_encode, List.map_map]
  exact List.map_id cs

/-! ### Bytes of ASCII -/

theorem encodeChar_of_lt {a : Char} (ascii : a.toNat < 0x80) : encodeChar a = [a.toNat.toUInt8] := by
  simp only [encodeChar, if_pos ascii]

/-- The bytes of a character beyond ASCII are all beyond ASCII. -/
theorem high_of_mem_encodeChar {c : Char} (high : 0x80 ≤ c.toNat) :
    ∀ b ∈ encodeChar c, 0x80 ≤ b.toNat := by
  have valid := toNat_isValidChar c
  unfold encodeChar
  simp only [if_neg (Nat.not_lt.mpr high)]
  split_ifs
  all_goals
    simp (disch := omega) only [List.forall_mem_cons, List.not_mem_nil, false_imp_iff, implies_true,
      and_true, toNat_toUInt8]
    omega

/-- A byte of ASCII stands for its own character only. -/
theorem eq_of_mem_encodeChar {a c : Char} (ascii : a.toNat < 0x80)
    (h : a.toNat.toUInt8 ∈ encodeChar c) : c = a := by
  by_cases high : 0x80 ≤ c.toNat
  · have byte := high_of_mem_encodeChar high _ h
    rw [toNat_toUInt8 (by omega)] at byte
    omega
  · rw [encodeChar_of_lt (Nat.not_le.mp high), List.mem_singleton] at h
    have same := congrArg UInt8.toNat h
    rw [toNat_toUInt8 (by omega), toNat_toUInt8 (by omega)] at same
    exact (Char.toNat_inj.mp same).symm

theorem encodeChar_ne_nil (c : Char) : encodeChar c ≠ [] := by
  simp only [encodeChar]
  split_ifs <;> exact List.cons_ne_nil _ _

end Galley.Text.Utf8

theorem String.ofUtf8?_utf8 (s : String) : String.ofUtf8? s.utf8 = some s := by
  rw [String.ofUtf8?, String.utf8, Galley.Text.Utf8.decode?_encode, Option.map_some,
    String.ofList_toList]
