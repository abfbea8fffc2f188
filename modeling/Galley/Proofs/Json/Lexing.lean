import Galley.Json.Printer
import Galley.Json.Token
import Galley.Proofs.Text.Numeral
import Mathlib.Data.List.TakeWhile
/-!
# Tokens of written texts

What the machine that cuts texts into tokens makes of written texts, numbers and words. A text is
over with its second quote. A number or a word is only over when the next character is seen, so what
comes behind it has to be looked at: nothing, or a character that can stand behind a value.
-/
namespace Galley.Json

open Text.Utf8 (Glyph)
open Token

/-- The piece that a character of a text is read as: the controls without a letter of their own are
given by their numbers. -/
def pieceOf (c : Char) : Piece :=
  if c.toNat < 0x20 ∧ c ∉ ['\x08', '\x0c', '\n', '\r', '\t'] then .unit c.toNat else .char c

def textToken (s : String) : Token :=
  .text (some s.toList) ((s.toList.map pieceOf).any Piece.isUnit)

namespace Lexer

@[simp] theorem run_nil (lexer : Lexer) : lexer.run [] = lexer.finish := rfl

theorem run_cons (lexer : Lexer) (g : Glyph) (gs : List Glyph) :
    lexer.run (g :: gs) = (lexer.step g).bind fun p => (p.2.run gs).map (p.1 ++ ·) := by
  rw [run]
  cases lexer.step g with
  | none => rfl
  | some p =>
    simp only [Option.bind_eq_bind, Option.bind_some]
    cases p.2.run gs <;> rfl

theorem run_of_step {lexer next : Lexer} {g : Glyph} {ts : List Token}
    (h : lexer.step g = some (ts, next)) (gs : List Glyph) :
    lexer.run (g :: gs) = (next.run gs).map (ts ++ ·) := by
  rw [run_cons, h, Option.bind_some]

theorem run_of_quiet_step {lexer next : Lexer} {g : Glyph}
    (h : lexer.step g = some ([], next)) (gs : List Glyph) : lexer.run (g :: gs) = next.run gs := by
  simp [run_of_step h]

/-- A character that can stand behind a value. -/
def isDelimiter (c : Char) : Bool :=
  c == ',' || c == ']' || c == '\x7d' || c == '\n'

/-- The text is over or goes on with a delimiter. -/
def Ends (rest : List Glyph) : Prop :=
  ∀ g ∈ rest.head?, ∃ c, g = some c ∧ isDelimiter c = true

theorem ends_nil : Ends [] := by simp [Ends]

/-- Between tokens, the machine makes the tokens `ts` of `cs`, whatever comes behind. -/
def Closed (cs : List Char) (ts : List Token) : Prop :=
  ∀ rest, between.run (cs.map some ++ rest) = (between.run rest).map (ts ++ ·)

/-- Between tokens, the machine makes the tokens `ts` of `cs` if a delimiter comes behind. -/
def Spells (cs : List Char) (ts : List Token) : Prop :=
  ∀ rest, Ends rest → between.run (cs.map some ++ rest) = (between.run rest).map (ts ++ ·)

def Delimited (cs : List Char) : Prop :=
  ∃ c ds, cs = c :: ds ∧ isDelimiter c = true

theorem closed_nil : Closed [] [] := fun rest => by simp

theorem Closed.append {cs ds : List Char} {ts us : List Token} (h : Closed cs ts)
    (h' : Closed ds us) : Closed (cs ++ ds) (ts ++ us) := fun rest => by
  rw [List.map_append, List.append_assoc, h, h', Option.map_map]
  congr 1
  funext vs
  simp

theorem Spells.append_closed {cs ds : List Char} {ts us : List Token} (h : Spells cs ts)
    (h' : Closed ds us) (hd : Delimited ds) : Closed (cs ++ ds) (ts ++ us) := fun rest => by
  obtain ⟨c, es, rfl, hc⟩ := hd
  have ends : Ends ((c :: es).map some ++ rest) := by
    intro g hg
    obtain rfl : some c = g := by simpa using hg
    exact ⟨c, rfl, hc⟩
  rw [List.map_append, List.append_assoc, h _ ends, h', Option.map_map]
  congr 1
  funext vs
  simp

theorem Closed.spells {cs : List Char} {ts : List Token} (h : Closed cs ts) : Spells cs ts :=
  fun rest _ => h rest

/-- A character that is a token of its own or stands between tokens. -/
theorem closed_singleton {c : Char} {ts : List Token} (h : start c = some (ts, .between)) :
    Closed [c] ts := fun rest => by
  have alone : between.step (some c) = some (ts, .between) := h
  exact run_of_step alone rest

theorem closed_blanks {cs : List Char} (h : ∀ c ∈ cs, isSpace c = true) : Closed cs [] := by
  induction cs with
  | nil => exact closed_nil
  | cons c cs ih =>
    have hc : Closed [c] [] := closed_singleton (by simp [start, h c (by simp)])
    exact hc.append (ih fun d hd => h d (by simp [hd]))

/-! ### Texts -/

theorem hexValue?_digitChar : ∀ n < 16, Text.Numeral.hexValue? n.digitChar = some n := by
  decide

/-- A control that has no letter is read from the four digits of its number. -/
theorem run_numbered {n : Nat} (h : n < 0x20) (ps : List Piece) (gs : List Glyph) :
    (text ps).run ((['\\', 'u', '0', '0', Nat.digitChar (n / 16), Nat.digitChar (n % 16)].map
      some) ++ gs) = (text (.unit n :: ps)).run gs := by
  have high : Text.Numeral.hexValue? (n / 16).digitChar = some (n / 16) :=
    hexValue?_digitChar _ (by omega)
  have low : Text.Numeral.hexValue? (n % 16).digitChar = some (n % 16) :=
    hexValue?_digitChar _ (by omega)
  have code : 16 * (n / 16) + n % 16 = n := by omega
  have slash : (text ps).step (some '\\') = some ([], .escape ps) := rfl
  have letter : (escape ps).step (some 'u') = some ([], .digits ps 0 0) := rfl
  have zero (count : Nat) (hc : count < 3) :
      (digits ps count 0).step (some '0') = some ([], .digits ps (count + 1) 0) := by
    simp [step, hc, Text.Numeral.hexValue?]
  have third : (digits ps 2 0).step (some (n / 16).digitChar) =
      some ([], .digits ps 3 (n / 16)) := by
    simp [step, high]
  have fourth : (digits ps 3 (n / 16)).step (some (n % 16).digitChar) =
      some ([], .text (.unit n :: ps)) := by
    simp [step, low, code]
  simp only [List.map_cons, List.map_nil, List.cons_append, List.nil_append]
  rw [run_of_quiet_step slash, run_of_quiet_step letter, run_of_quiet_step (zero 0 (by decide)),
    run_of_quiet_step (zero 1 (by decide)), run_of_quiet_step third, run_of_quiet_step fourth]

/-- A character with a letter of its own behind a backslash. -/
theorem run_escaped {c e : Char} (h : escaped? e = some c) (hu : e ≠ 'u') (ps : List Piece)
    (gs : List Glyph) :
    (text ps).run (some '\\' :: some e :: gs) = (text (.char c :: ps)).run gs := by
  have slash : (text ps).step (some '\\') = some ([], .escape ps) := rfl
  have letter : (escape ps).step (some e) = some ([], .text (.char c :: ps)) := by
    simp [step, hu, h]
  rw [run_of_quiet_step slash, run_of_quiet_step letter]

theorem run_escapeChar (c : Char) (ps : List Piece) (gs : List Glyph) :
    (text ps).run ((escapeChar c).map some ++ gs) = (text (pieceOf c :: ps)).run gs := by
  unfold escapeChar
  split
  · exact run_escaped (e := '"') rfl (by decide) ps gs
  · exact run_escaped (e := '\\') rfl (by decide) ps gs
  · exact run_escaped (e := 'b') rfl (by decide) ps gs
  · exact run_escaped (e := 'f') rfl (by decide) ps gs
  · exact run_escaped (e := 'n') rfl (by decide) ps gs
  · exact run_escaped (e := 'r') rfl (by decide) ps gs
  · exact run_escaped (e := 't') rfl (by decide) ps gs
  · next hq hs hb hf hn hr ht =>
    have common : c ∉ ['\x08', '\x0c', '\n', '\r', '\t'] := by
      simp only [List.mem_cons, not_or]
      exact ⟨hb, hf, hn, hr, ht, List.not_mem_nil⟩
    by_cases hc : c.toNat < 0x20
    · rw [if_pos hc, pieceOf, if_pos ⟨hc, common⟩]
      exact run_numbered hc ps gs
    · have plain : (text ps).step (some c) = some ([], .text (.char c :: ps)) := by
        rw [step, if_neg hq, if_neg hs, if_neg hc]
      rw [if_neg hc, pieceOf, if_neg (by simp [hc])]
      exact run_of_quiet_step plain gs

theorem run_escaped_text (cs : List Char) (ps : List Piece) (gs : List Glyph) :
    (text ps).run ((cs.flatMap escapeChar).map some ++ gs) =
      (text ((cs.map pieceOf).reverse ++ ps)).run gs := by
  induction cs generalizing ps with
  | nil => simp
  | cons c cs ih =>
    rw [List.flatMap_cons, List.map_append, List.append_assoc, run_escapeChar, ih]
    simp

theorem join?_map_pieceOf (cs : List Char) : join? (cs.map pieceOf) = some cs := by
  induction cs with
  | nil => rfl
  | cons c cs ih =>
    rw [List.map_cons, pieceOf]
    split
    · next h =>
      have high : isHigh c.toNat = false := by
        simp only [isHigh, Bool.and_eq_false_imp, decide_eq_true_eq]
        omega
      have low : isLow c.toNat = false := by
        simp only [isLow, Bool.and_eq_false_imp, decide_eq_true_eq]
        omega
      unfold join?
      simp [high, low, ih]
    · rw [join?, ih]
      rfl

/-- A written text is over with its second quote, whatever comes behind. -/
theorem closed_writeText (s : String) : Closed (writeText s) [textToken s] := fun rest => by
  have opened : between.step (some '"') = some ([], .text []) := rfl
  have closed : (text ((s.toList.map pieceOf).reverse ++ [])).step (some '"') =
      some ([textToken s], .between) := by
    rw [step, if_pos rfl, List.append_nil, List.reverse_reverse, join?_map_pieceOf,
      List.any_reverse, textToken]
  simp only [writeText, List.map_cons, List.map_append, List.map_nil, List.cons_append,
    List.append_assoc, List.nil_append]
  rw [run_of_quiet_step opened, run_escaped_text, run_of_step closed]
  rfl

/-! ### Runs -/

/-- A delimiter ends a run with the run's token. -/
theorem run_of_ends {lexer : Lexer} {token : Token} (finish : lexer.finish = some [token])
    (ended : ∀ c, isDelimiter c = true → lexer.step (some c) = endRun (some token) c)
    {rest : List Glyph} (h : Ends rest) :
    lexer.run rest = (between.run rest).map ([token] ++ ·) := by
  cases rest with
  | nil => simpa [Lexer.finish] using finish
  | cons g gs =>
    obtain ⟨c, rfl, hc⟩ := h g rfl
    have next : between.step (some c) = start c := rfl
    rw [run_cons, run_cons, ended c hc, next]
    simp only [endRun, Option.bind_eq_bind, Option.bind_some]
    cases start c with
    | none => rfl
    | some p =>
      simp only [Option.bind_some, Option.map_map]
      rfl

theorem isNumberChar_of_isDelimiter {c : Char} (h : isDelimiter c = true) :
    isNumberChar c = false := by
  simp only [isDelimiter, Bool.or_eq_true, beq_iff_eq] at h
  rcases h with ((rfl | rfl) | rfl) | rfl <;> rfl

theorem isLower_of_isDelimiter {c : Char} (h : isDelimiter c = true) : c.isLower = false := by
  simp only [isDelimiter, Bool.or_eq_true, beq_iff_eq] at h
  rcases h with ((rfl | rfl) | rfl) | rfl <;> rfl

theorem run_number_of_digits {cs : List Char} (h : cs.all Char.isDigit = true) (run : List Char)
    (gs : List Glyph) :
    (number run).run (cs.map some ++ gs) = (number (cs.reverse ++ run)).run gs := by
  induction cs generalizing run with
  | nil => rfl
  | cons c cs ih =>
    rw [List.all_cons, Bool.and_eq_true] at h
    have digit : (number run).step (some c) = some ([], .number (c :: run)) := by
      simp [step, isNumberChar, h.1]
    rw [List.map_cons, List.cons_append, run_of_quiet_step digit, ih h.2]
    simp

/-- A run that begins with a digit or a sign and goes on with digits. -/
theorem spells_run {c : Char} {cs : List Char} {token : Token}
    (hc : start c = some ([], .number [c])) (hcs : cs.all Char.isDigit = true)
    (token? : ofNumber? (c :: cs) = some token) : Spells (c :: cs) [token] := fun rest hrest => by
  have back : (cs.reverse ++ [c]).reverse = c :: cs := by simp
  have opened : between.step (some c) = some ([], .number [c]) := hc
  rw [List.map_cons, List.cons_append, run_of_quiet_step opened, run_number_of_digits hcs]
  refine run_of_ends ?_ (fun d hd => ?_) hrest
  · simp [finish, back, token?]
  · simp only [step, isNumberChar_of_isDelimiter hd, Bool.false_eq_true, if_false, back, token?]

theorem spanDigits_of_all {cs : List Char} (h : ∀ c ∈ cs, c.isDigit = true) :
    spanDigits cs = (cs, []) := by
  rw [spanDigits, List.takeWhile_eq_self_iff.mpr h, List.dropWhile_eq_nil_iff.mpr h]

/-- A decimal form with or without a sign in front is the numeral of its digits. -/
theorem numeral?_decimal (n : Nat) :
    numeral? (Text.Numeral.decimal n) = some ⟨false, Text.Numeral.decimal n, none, none⟩ ∧
      numeral? ('-' :: Text.Numeral.decimal n) =
        some ⟨true, Text.Numeral.decimal n, none, none⟩ := by
  have span := spanDigits_of_all fun _ => Text.Numeral.isDigit_of_mem_decimal (n := n)
  have lead : ¬ (Text.Numeral.decimal n = [] ∨ (1 < (Text.Numeral.decimal n).length ∧
      (Text.Numeral.decimal n).head? = some '0')) := by
    rintro (h | ⟨hl, hh⟩)
    · exact Text.Numeral.decimal_ne_nil n h
    · exact Text.Numeral.head?_decimal_of_length hl hh
  obtain ⟨c, cs, hd, hc, -⟩ := Text.Numeral.exists_decimal_eq_cons n
  have sign : c ≠ '-' := by
    rintro rfl
    exact absurd hc (by decide)
  rw [hd] at span lead ⊢
  constructor
  · unfold numeral?
    split
    next negative rest he =>
      have unsigned : (false, c :: cs) = (negative, rest) := by
        rw [← he]
        split
        · next h => exact absurd (List.cons.inj h).1 sign
        · rfl
      obtain ⟨rfl, rfl⟩ := Prod.mk.inj unsigned
      simp only [span]
      rw [if_neg lead, if_neg (by simp)]
  · simp only [numeral?, span]
    rw [if_neg lead, if_neg (by simp)]

/-- A whole number that fits in 64 bits is written as the numeral of itself. -/
theorem ofNumber?_signed {n : Int} (h : Text.Numeral.minI64 ≤ n)
    (h' : n ≤ Text.Numeral.maxU64) :
    ofNumber? (Text.Numeral.signed n) = some (.value (.int n)) := by
  simp only [Text.Numeral.minI64, Text.Numeral.maxU64] at h h'
  unfold Text.Numeral.signed ofNumber?
  split
  · have fits : n.natAbs ≠ 0 ∧ n.natAbs ≤ 9223372036854775808 := by omega
    have back : -(n.natAbs : Int) = n := by omega
    simp only [(numeral?_decimal n.natAbs).2, Option.map_some, numberOf, reduceIte,
      Text.Numeral.valueFrom_decimal, fits, and_self, ne_eq, not_false_eq_true, back]
  · have fits : n.natAbs ≤ Text.Numeral.maxU64 := by
      simp only [Text.Numeral.maxU64]
      omega
    have back : (n.natAbs : Int) = n := by omega
    simp only [(numeral?_decimal n.natAbs).1, Option.map_some, numberOf, Bool.false_eq_true,
      reduceIte, Text.Numeral.valueFrom_decimal, fits, and_self, back]

theorem spells_signed {n : Int} (h : Text.Numeral.minI64 ≤ n) (h' : n ≤ Text.Numeral.maxU64) :
    Spells (Text.Numeral.signed n) [.value (.int n)] := by
  have token := ofNumber?_signed h h'
  unfold Text.Numeral.signed at token ⊢
  split at token
  · next hn =>
    rw [if_pos hn]
    exact spells_run rfl (Text.Numeral.all_isDigit_decimal _) token
  · next hn =>
    obtain ⟨c, cs, hd, hc, hcs⟩ := Text.Numeral.exists_decimal_eq_cons n.natAbs
    rw [hd] at token
    rw [if_neg hn, hd]
    refine spells_run ?_ hcs token
    have space : isSpace c = false := by
      simp only [isSpace, Bool.or_eq_false_iff, beq_eq_false_iff_ne]
      refine ⟨⟨⟨?_, ?_⟩, ?_⟩, ?_⟩ <;>
      · rintro rfl
        exact absurd hc (by decide)
    simp [start, space, hc]

theorem run_word_of_lower {cs : List Char} (h : cs.all Char.isLower = true) (run : List Char)
    (gs : List Glyph) :
    (word run).run (cs.map some ++ gs) = (word (cs.reverse ++ run)).run gs := by
  induction cs generalizing run with
  | nil => rfl
  | cons c cs ih =>
    rw [List.all_cons, Bool.and_eq_true] at h
    have lower : (word run).step (some c) = some ([], .word (c :: run)) := by
      simp [step, h.1]
    rw [List.map_cons, List.cons_append, run_of_quiet_step lower, ih h.2]
    simp

theorem spells_word {c : Char} {cs : List Char} {token : Token}
    (hc : start c = some ([], .word [c])) (hcs : cs.all Char.isLower = true)
    (token? : ofWord? (c :: cs) = some token) : Spells (c :: cs) [token] := fun rest hrest => by
  have back : (cs.reverse ++ [c]).reverse = c :: cs := by simp
  have opened : between.step (some c) = some ([], .word [c]) := hc
  rw [List.map_cons, List.cons_append, run_of_quiet_step opened, run_word_of_lower hcs]
  refine run_of_ends ?_ (fun d hd => ?_) hrest
  · simp [finish, back, token?]
  · simp only [step, isLower_of_isDelimiter hd, Bool.false_eq_true, if_false, back, token?]

end Lexer

end Galley.Json
