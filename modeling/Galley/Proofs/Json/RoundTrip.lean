import Galley.Json.Reader
import Galley.Proofs.Json.Lexing
import Galley.Proofs.Text.Utf8
/-!
# Reading written values

A value whose numbers are whole and fit in 64 bits, and of which nothing is unreadable, is *plain*.
The text of a plain value, compact or pretty, is cut into the tokens of the value, and these tokens
are put together to the value again. Main statement: a plain value is read back from its text.
-/
namespace Galley.Json

open Token

mutual

def Plain : Json → Prop
  | .null => True
  | .bool _ => True
  | .number (.int n) => Text.Numeral.minI64 ≤ n ∧ n ≤ Text.Numeral.maxU64
  | .number (.float _) => False
  | .string _ => True
  | .array items => PlainItems items
  | .object members => PlainMembers members
  | .unreadable => False

def PlainItems : List Json → Prop
  | [] => True
  | j :: js => Plain j ∧ PlainItems js

def PlainMembers : List (String × Json) → Prop
  | [] => True
  | (_, j) :: rest => Plain j ∧ PlainMembers rest

end

theorem plainItems_iff (js : List Json) : PlainItems js ↔ ∀ j ∈ js, Plain j := by
  induction js with
  | nil => simp [PlainItems]
  | cons j js ih => simp [PlainItems, ih]

theorem plainMembers_iff (ms : List (String × Json)) :
    PlainMembers ms ↔ ∀ m ∈ ms, Plain m.2 := by
  induction ms with
  | nil => simp [PlainMembers]
  | cons m ms ih => simp [PlainMembers, ih]

mutual

def tokensOf : Json → List Token
  | .null => [.value .null]
  | .bool b => [.value (.bool b)]
  | .number n => [.value (.number n)]
  | .string s => [textToken s]
  | .array [] => [.openArray, .closeArray]
  | .array (j :: js) => .openArray :: (tokensOf j ++ (itemTokens js ++ [.closeArray]))
  | .object [] => [.openObject, .closeObject]
  | .object ((k, j) :: rest) =>
    .openObject :: textToken k :: .colon :: (tokensOf j ++ (memberTokens rest ++ [.closeObject]))
  | .unreadable => []

/-- The tokens of the items after the first one. -/
def itemTokens : List Json → List Token
  | [] => []
  | j :: js => .comma :: (tokensOf j ++ itemTokens js)

/-- The tokens of the members after the first one. -/
def memberTokens : List (String × Json) → List Token
  | [] => []
  | (k, j) :: rest => .comma :: textToken k :: .colon :: (tokensOf j ++ memberTokens rest)

end

namespace Lexer

/-! ### From texts to tokens -/

theorem closed_lineBreak (pretty : Bool) (level : Nat) : Closed (lineBreak pretty level) [] := by
  cases pretty with
  | false => exact closed_nil
  | true =>
    apply closed_blanks
    intro c hc
    simp only [lineBreak, if_true, List.mem_cons, List.mem_replicate] at hc
    rcases hc with rfl | ⟨-, rfl⟩ <;> rfl

theorem closed_afterColon (pretty : Bool) : Closed (afterColon pretty) [] := by
  cases pretty with
  | false => exact closed_nil
  | true => exact closed_blanks (by simp [afterColon, isSpace])

/-- The closing bracket of an array or object on a line of its own. -/
theorem closed_close {c : Char} {t : Token} (h : start c = some ([t], .between)) (pretty : Bool)
    (level : Nat) : Closed (lineBreak pretty level ++ [c]) [t] :=
  (closed_lineBreak pretty level).append (closed_singleton h)

theorem delimited_close {c : Char} (h : isDelimiter c = true) (pretty : Bool) (level : Nat) :
    Delimited (lineBreak pretty level ++ [c]) := by
  cases pretty with
  | false => exact ⟨c, [], rfl, h⟩
  | true => exact ⟨'\n', _, rfl, rfl⟩

theorem delimited_writeItems (pretty : Bool) (level : Nat) (js : List Json) {cs : List Char}
    (h : Delimited cs) : Delimited (writeItems pretty level js ++ cs) := by
  cases js with
  | nil => exact h
  | cons j js => exact ⟨',', _, rfl, rfl⟩

theorem delimited_writeMembers (pretty : Bool) (level : Nat) (ms : List (String × Json))
    {cs : List Char} (h : Delimited cs) : Delimited (writeMembers pretty level ms ++ cs) := by
  cases ms with
  | nil => exact h
  | cons m ms => exact ⟨',', _, rfl, rfl⟩

/-- The key of a member with the colon behind it. -/
theorem closed_key (k : String) (pretty : Bool) :
    Closed (writeText k ++ ':' :: afterColon pretty) [textToken k, .colon] := by
  have colon : Closed [':'] [.colon] := closed_singleton rfl
  exact (closed_writeText k).append (colon.append (closed_afterColon pretty))

mutual

theorem spells_write (pretty : Bool) (level : Nat) :
    (j : Json) → Plain j → Spells (write pretty level j) (tokensOf j)
  | .null, _ => spells_word rfl rfl rfl
  | .bool true, _ => spells_word rfl rfl rfl
  | .bool false, _ => spells_word rfl rfl rfl
  | .number (.int _), h => by
    rw [Plain] at h
    exact spells_signed h.1 h.2
  | .string s, _ => (closed_writeText s).spells
  | .array [], _ => ((closed_singleton (c := '[') rfl).append (closed_singleton (c := ']') rfl)).spells
  | .array (j :: js), h => by
    rw [Plain, PlainItems] at h
    have head := spells_write pretty (level + 1) j h.1
    have rest := closed_writeItems pretty (level + 1) js h.2
      (closed_close (c := ']') rfl pretty level) (delimited_close rfl pretty level)
    have items := head.append_closed rest (delimited_writeItems _ _ js (delimited_close rfl _ _))
    have all := (closed_singleton (c := '[') rfl).append
      ((closed_lineBreak pretty (level + 1)).append items)
    simpa [write, tokensOf] using all.spells
  | .object [], _ =>
    ((closed_singleton (c := '\x7b') rfl).append (closed_singleton (c := '\x7d') rfl)).spells
  | .object ((k, j) :: ms), h => by
    rw [Plain, PlainMembers] at h
    have head := spells_write pretty (level + 1) j h.1
    have rest := closed_writeMembers pretty (level + 1) ms h.2
      (closed_close (c := '\x7d') rfl pretty level) (delimited_close rfl pretty level)
    have members := head.append_closed rest
      (delimited_writeMembers _ _ ms (delimited_close rfl _ _))
    have all := (closed_singleton (c := '\x7b') rfl).append
      ((closed_lineBreak pretty (level + 1)).append ((closed_key k pretty).append members))
    simpa [write, tokensOf] using all.spells

theorem closed_writeItems (pretty : Bool) (level : Nat) :
    (js : List Json) → PlainItems js → {cs : List Char} → {ts : List Token} → Closed cs ts →
      Delimited cs → Closed (writeItems pretty level js ++ cs) (itemTokens js ++ ts)
  | [], _, _, _, h, _ => h
  | j :: js, hp, cs, ts, h, hd => by
    rw [PlainItems] at hp
    have rest := closed_writeItems pretty level js hp.2 h hd
    have items := (spells_write pretty level j hp.1).append_closed rest
      (delimited_writeItems pretty level js hd)
    have all := (closed_singleton (c := ',') rfl).append
      ((closed_lineBreak pretty level).append items)
    simpa [writeItems, itemTokens] using all

theorem closed_writeMembers (pretty : Bool) (level : Nat) :
    (ms : List (String × Json)) → PlainMembers ms → {cs : List Char} → {ts : List Token} →
      Closed cs ts → Delimited cs →
      Closed (writeMembers pretty level ms ++ cs) (memberTokens ms ++ ts)
  | [], _, _, _, h, _ => h
  | (k, j) :: ms, hp, cs, ts, h, hd => by
    rw [PlainMembers] at hp
    have rest := closed_writeMembers pretty level ms hp.2 h hd
    have members := (spells_write pretty level j hp.1).append_closed rest
      (delimited_writeMembers pretty level ms hd)
    have all := (closed_singleton (c := ',') rfl).append
      ((closed_lineBreak pretty level).append ((closed_key k pretty).append members))
    simpa [writeMembers, memberTokens] using all

end

theorem tokens?_write (pretty : Bool) (level : Nat) {j : Json} (h : Plain j) :
    tokens? ((write pretty level j).map some) = some (tokensOf j) := by
  have all := spells_write pretty level j h [] ends_nil
  rw [List.append_nil] at all
  rw [tokens?, all]
  simp [Lexer.finish]

end Lexer

/-! ### From tokens to values -/

namespace Reader

/-- The tokens of a value do not begin with the end of an array. -/
theorem tokensOf_head {j : Json} (h : Plain j) :
    ∃ t ts, tokensOf j = t :: ts ∧ t ≠ .closeArray := by
  match j, h with
  | .null, _ | .bool _, _ | .number (.int _), _ | .string _, _ => exact ⟨_, _, rfl, nofun⟩
  | .array [], _ | .array (_ :: _), _ => exact ⟨_, _, rfl, nofun⟩
  | .object [], _ | .object (_ :: _), _ => exact ⟨_, _, rfl, nofun⟩

/-- Where an array may also be over, a value is begun as the first item. -/
theorem run_firstItem {j : Json} (h : Plain j) (frames : List Frame) (ts : List Token) :
    (firstItem frames).run (tokensOf j ++ ts) =
      (value (.array [] :: frames)).run (tokensOf j ++ ts) := by
  obtain ⟨t, us, ht, hne⟩ := tokensOf_head h
  have same : (firstItem frames).step t = (value (.array [] :: frames)).step t := by
    cases t with
    | closeArray => exact absurd rfl hne
    | _ => rfl
  rw [ht, List.cons_append, run_cons, run_cons, same]

theorem objectOf_some (ms : List (String × Json)) :
    objectOf (ms.map fun m => (some m.1, m.2)) = .object ms := by
  have all : (ms.map fun m => (some m.1, m.2)).mapM
      (fun m : Option String × Json => m.1.map (·, m.2)) = some ms := by
    induction ms with
    | nil => rfl
    | cons m ms ih => simp [List.mapM_cons, ih]
  unfold objectOf
  split
  · next members h =>
    exact congrArg Json.object (Option.some.inj (h.symm.trans all))
  · next h => exact nomatch h.symm.trans all

theorem step_textToken_key (frames : List Frame) (before : List (Option String × Json))
    (k : String) : (key frames before).step (textToken k) = some (.colon frames before (some k)) := by
  simp [step, textToken, textOf]

mutual

/-- The tokens of a value lead from where a value must come to behind it. -/
theorem run_tokensOf : (j : Json) → Plain j → (frames : List Frame) → (ts : List Token) →
    (value frames).run (tokensOf j ++ ts) = (after frames j).run ts
  | .null, _, _, _ => rfl
  | .bool _, _, _, _ => rfl
  | .number (.int _), _, _, _ => rfl
  | .string s, _, _, _ => by simp [tokensOf, textToken, step, begin?, stringOf]
  | .array [], _, _, _ => rfl
  | .array (j :: js), h, frames, ts => by
    rw [Plain, PlainItems] at h
    have opened : (value frames).step .openArray = some (.firstItem frames) := rfl
    rw [tokensOf, List.cons_append, run_cons, opened, Option.bind_some, List.append_assoc,
      run_firstItem h.1, run_tokensOf j h.1, List.append_assoc, List.singleton_append,
      run_itemTokens js h.2]
    rfl
  | .object [], _, _, _ => rfl
  | .object ((k, j) :: ms), h, frames, ts => by
    rw [Plain, PlainMembers] at h
    have opened : (value frames).step .openObject = some (.firstKey frames) := rfl
    have keyed : (firstKey frames).step (textToken k) = some (.colon frames [] (some k)) := by
      simp [step, textToken, textOf]
    have valued : (colon frames [] (some k)).step .colon =
        some (.value (.object [] (some k) :: frames)) := rfl
    rw [tokensOf, List.cons_append, run_cons, opened, Option.bind_some, List.cons_append,
      run_cons, keyed, Option.bind_some, List.cons_append, run_cons, valued, Option.bind_some,
      List.append_assoc, run_tokensOf j h.1, List.append_assoc, List.singleton_append,
      run_memberTokens ms h.2]
    simp only [List.reverse_nil, List.nil_append]
    rw [← objectOf_some ((k, j) :: ms)]
    rfl

/-- The tokens of the other items of an array and of its end lead behind the array. -/
theorem run_itemTokens : (js : List Json) → PlainItems js → (frames : List Frame) →
    (before : List Json) → (j : Json) → (ts : List Token) →
    (after (.array before :: frames) j).run (itemTokens js ++ .closeArray :: ts) =
      (after frames (.array (before.reverse ++ j :: js))).run ts
  | [], _, frames, before, j, ts => by
    have closed : (after (.array before :: frames) j).step .closeArray =
        some (.after frames (.array (j :: before).reverse)) := rfl
    rw [itemTokens, List.nil_append, run_cons, closed, Option.bind_some, List.reverse_cons]
  | i :: js, h, frames, before, j, ts => by
    rw [PlainItems] at h
    have next : (after (.array before :: frames) j).step .comma =
        some (.value (.array (j :: before) :: frames)) := rfl
    rw [itemTokens, List.cons_append, run_cons, next, Option.bind_some, List.append_assoc,
      run_tokensOf i h.1, run_itemTokens js h.2, List.reverse_cons, List.append_assoc,
      List.singleton_append]

/-- The tokens of the other members of an object and of its end lead behind the object. -/
theorem run_memberTokens : (ms : List (String × Json)) → PlainMembers ms →
    (frames : List Frame) → (before : List (Option String × Json)) → (k : Option String) →
    (j : Json) → (ts : List Token) →
    (after (.object before k :: frames) j).run (memberTokens ms ++ .closeObject :: ts) =
      (after frames (objectOf (before.reverse ++
        (k, j) :: ms.map fun m => (some m.1, m.2)))).run ts
  | [], _, frames, before, k, j, ts => by
    have closed : (after (.object before k :: frames) j).step .closeObject =
        some (.after frames (objectOf ((k, j) :: before).reverse)) := rfl
    rw [memberTokens, List.nil_append, run_cons, closed, Option.bind_some, List.reverse_cons]
    rfl
  | (k', i) :: ms, h, frames, before, k, j, ts => by
    rw [PlainMembers] at h
    have next : (after (.object before k :: frames) j).step .comma =
        some (.key frames ((k, j) :: before)) := rfl
    have valued : (colon frames ((k, j) :: before) (some k')).step .colon =
        some (.value (.object ((k, j) :: before) (some k') :: frames)) := rfl
    rw [memberTokens, List.cons_append, run_cons, next, Option.bind_some, List.cons_append,
      run_cons, step_textToken_key, Option.bind_some, List.cons_append, run_cons, valued,
      Option.bind_some, List.append_assoc, run_tokensOf i h.1, run_memberTokens ms h.2,
      List.reverse_cons, List.append_assoc, List.singleton_append]
    rfl

end

theorem ofTokens?_tokensOf {j : Json} (h : Plain j) : ofTokens? (tokensOf j) = some j := by
  have all := run_tokensOf j h [] []
  rw [List.append_nil] at all
  rw [ofTokens?, all]
  rfl

end Reader

/-- A plain value is read back from its text, compact or pretty. -/
theorem ofGlyphs?_write (pretty : Bool) {j : Json} (h : Plain j) :
    ofGlyphs? ((write pretty 0 j).map some) = some j := by
  rw [ofGlyphs?, Lexer.tokens?_write pretty 0 h]
  exact Reader.ofTokens?_tokensOf h

theorem ofText?_compact {j : Json} (h : Plain j) : ofText? j.compact = some j := by
  rw [ofText?, compact, String.toList_ofList]
  exact ofGlyphs?_write false h

theorem ofBytes?_utf8_compact {j : Json} (h : Plain j) : ofBytes? j.compact.utf8 = some j := by
  rw [ofBytes?, String.utf8, compact, String.toList_ofList, Text.Utf8.read_encode]
  exact ofGlyphs?_write false h

theorem ofBytes?_utf8_pretty {j : Json} (h : Plain j) : ofBytes? j.pretty.utf8 = some j := by
  rw [ofBytes?, String.utf8, pretty, String.toList_ofList, Text.Utf8.read_encode]
  exact ofGlyphs?_write true h

end Galley.Json
