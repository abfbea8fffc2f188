import Galley.Cookbook.Codec
import Galley.Proofs.Job.Codec
import Mathlib.Data.List.Sort
/-!
# Cookbooks read back from JSON

Cookbooks are read from texts in which a key that is a number must be written in digits. The keys of
a written cookbook are names and page numbers, and no character of them is given by its number, so
they are taken as they stand. Main statement: a cookbook is read back from its text.
-/
namespace Galley

open Json Json.Fields Json.Decoder

/-! ### Ranges -/

def Page.InRange (p : Page) : Prop :=
  p.page ≤ Text.Numeral.maxU32 ∧ ∀ r ∈ p.recipes, r.InRange

/-- Whether the numbers of a cookbook have the widths that they are kept with, and its wikis stand
in the order of their pages. -/
structure Cookbook.InRange (book : Cookbook) : Prop where
  pages : ∀ p ∈ book.pages, p.InRange
  wikis : ∀ w ∈ book.wikis, w.1 ≤ Text.Numeral.maxU32
  ascending : (book.wikis.map Prod.fst).Pairwise (· < ·)

/-! ### Keys without numbered characters -/

namespace Json

/-- A key that has no character below the space, so that no character of it is written by its
number. -/
def Literal (key : String) : Prop := ∀ c ∈ key.toList, 0x20 ≤ c.toNat

instance (key : String) : Decidable (Literal key) := List.decidableBAll _ _

mutual

/-- Whether all keys in a value are literal. -/
def LiteralKeys : Json → Prop
  | .array items => LiteralItems items
  | .object members => LiteralMembers members
  | _ => True

def LiteralItems : List Json → Prop
  | [] => True
  | j :: js => LiteralKeys j ∧ LiteralItems js

def LiteralMembers : List (String × Json) → Prop
  | [] => True
  | (k, j) :: rest => Literal k ∧ LiteralKeys j ∧ LiteralMembers rest

end

theorem literalItems_iff (js : List Json) : LiteralItems js ↔ ∀ j ∈ js, LiteralKeys j := by
  induction js with
  | nil => simp [LiteralItems]
  | cons j js ih => simp [LiteralItems, ih]

theorem literalMembers_iff (ms : List (String × Json)) :
    LiteralMembers ms ↔ ∀ m ∈ ms, Literal m.1 ∧ LiteralKeys m.2 := by
  induction ms with
  | nil => simp [LiteralMembers]
  | cons m ms ih => simp [LiteralMembers, ih, and_assoc]

theorem literalMembers_append {ms ns : List (String × Json)} (h : LiteralMembers ms)
    (h' : LiteralMembers ns) : LiteralMembers (ms ++ ns) := by
  rw [literalMembers_iff] at h h' ⊢
  intro m hm
  exact (List.mem_append.mp hm).elim (h m) (h' m)

theorem literalMembers_memberUnless {empty : Bool} {key : String} {value : Json}
    (hk : Literal key) (h : value.LiteralKeys) :
    LiteralMembers (memberUnless empty key value) := by
  unfold memberUnless
  split
  · trivial
  · exact ⟨hk, h, trivial⟩

theorem literalKeys_array_map {α : Type} {encode : α → Json} {as : List α}
    (h : ∀ a ∈ as, (encode a).LiteralKeys) : (Json.array (as.map encode)).LiteralKeys := by
  rw [LiteralKeys, literalItems_iff]
  intro j hj
  obtain ⟨a, ha, rfl⟩ := List.mem_map.mp hj
  exact h a ha

theorem literalKeys_strings (ss : List String) : (Json.strings ss).LiteralKeys :=
  literalKeys_array_map fun _ _ => trivial

/-! ### Marking numbers -/

theorem textToken_of_literal {key : String} (h : Literal key) :
    textToken key = .text (some key.toList) false := by
  have plain : (key.toList.map pieceOf).any Token.Piece.isUnit = false := by
    rw [List.any_eq_false]
    intro p hp
    obtain ⟨c, hc, rfl⟩ := List.mem_map.mp hp
    have high := h c hc
    rw [pieceOf, if_neg (by omega)]
    exact Bool.false_ne_true
  rw [textToken, plain]

/-- A token that is no text with a numbered character is left as it is. -/
theorem numberedKeysMarked_of_ne (t : Token) (ts : List Token) (h : ∀ s, t ≠ .text s true) :
    numberedKeysMarked (t :: ts) = t :: numberedKeysMarked ts := by
  rw [numberedKeysMarked]
  rintro cs us rfl
  exact absurd rfl (h (some cs))

/-- Whether tokens do not begin with a colon. -/
def Apart (ts : List Token) : Prop := ∀ us, ts ≠ .colon :: us

theorem apart_cons (t : Token) (ts : List Token) (h : t ≠ .colon) : Apart (t :: ts) :=
  fun _ same => h (List.cons.inj same).1

/-- A token without a colon behind it is left as it is. -/
theorem numberedKeysMarked_of_apart (t : Token) {ts : List Token} (h : Apart ts) :
    numberedKeysMarked (t :: ts) = t :: numberedKeysMarked ts := by
  rw [numberedKeysMarked]
  rintro cs us rfl rfl
  exact h us rfl

theorem apart_itemTokens (js : List Json) {ts : List Token} (h : Apart ts) :
    Apart (itemTokens js ++ ts) := by
  cases js with
  | nil => exact h
  | cons j js => exact apart_cons .comma _ nofun

theorem apart_memberTokens (ms : List (String × Json)) {ts : List Token} (h : Apart ts) :
    Apart (memberTokens ms ++ ts) := by
  cases ms with
  | nil => exact h
  | cons m ms => exact apart_cons .comma _ nofun

theorem numberedKeysMarked_key {key : String} (h : Literal key) (ts : List Token) :
    numberedKeysMarked (textToken key :: .colon :: ts) =
      textToken key :: .colon :: numberedKeysMarked ts := by
  rw [textToken_of_literal h, numberedKeysMarked_of_ne (.text (some key.toList) false) _ nofun,
    numberedKeysMarked_of_ne .colon _ nofun]

mutual

/-- The tokens of a value with literal keys are left as they are. -/
theorem numberedKeysMarked_tokensOf : (j : Json) → LiteralKeys j → {ts : List Token} → Apart ts →
    numberedKeysMarked (tokensOf j ++ ts) = tokensOf j ++ numberedKeysMarked ts
  | .null, _, _, _ => numberedKeysMarked_of_ne _ _ nofun
  | .bool _, _, _, _ => numberedKeysMarked_of_ne _ _ nofun
  | .number _, _, _, _ => numberedKeysMarked_of_ne _ _ nofun
  | .string _, _, _, apart => numberedKeysMarked_of_apart _ apart
  | .array [], _, _, _ => rfl
  | .array (j :: js), h, ts, _ => by
    rw [LiteralKeys, LiteralItems] at h
    have close := numberedKeysMarked_of_ne .closeArray ts nofun
    have closing : Apart (.closeArray :: ts) := apart_cons _ _ nofun
    rw [tokensOf, List.cons_append, numberedKeysMarked_of_ne .openArray _ nofun,
      List.append_assoc, List.append_assoc, List.singleton_append,
      numberedKeysMarked_tokensOf j h.1 (apart_itemTokens js closing),
      numberedKeysMarked_itemTokens js h.2 closing, close]
    simp
  | .object [], _, _, _ => rfl
  | .object ((k, j) :: ms), h, ts, _ => by
    rw [LiteralKeys, LiteralMembers] at h
    have close := numberedKeysMarked_of_ne .closeObject ts nofun
    have closing : Apart (.closeObject :: ts) := apart_cons _ _ nofun
    rw [tokensOf, List.cons_append, numberedKeysMarked_of_ne .openObject _ nofun,
      List.cons_append, List.cons_append, numberedKeysMarked_key h.1, List.append_assoc,
      List.append_assoc, List.singleton_append,
      numberedKeysMarked_tokensOf j h.2.1 (apart_memberTokens ms closing),
      numberedKeysMarked_memberTokens ms h.2.2 closing, close]
    simp
  | .unreadable, _, _, _ => rfl

theorem numberedKeysMarked_itemTokens : (js : List Json) → LiteralItems js → {ts : List Token} →
    Apart ts → numberedKeysMarked (itemTokens js ++ ts) = itemTokens js ++ numberedKeysMarked ts
  | [], _, _, _ => rfl
  | j :: js, h, ts, apart => by
    rw [LiteralItems] at h
    rw [itemTokens, List.cons_append, numberedKeysMarked_of_ne .comma _ nofun, List.append_assoc,
      numberedKeysMarked_tokensOf j h.1 (apart_itemTokens js apart),
      numberedKeysMarked_itemTokens js h.2 apart, List.cons_append, List.append_assoc]

theorem numberedKeysMarked_memberTokens : (ms : List (String × Json)) → LiteralMembers ms →
    {ts : List Token} → Apart ts →
    numberedKeysMarked (memberTokens ms ++ ts) = memberTokens ms ++ numberedKeysMarked ts
  | [], _, _, _ => rfl
  | (k, j) :: ms, h, ts, apart => by
    rw [LiteralMembers] at h
    rw [memberTokens, List.cons_append, numberedKeysMarked_of_ne .comma _ nofun, List.cons_append,
      List.cons_append, numberedKeysMarked_key h.1, List.append_assoc,
      numberedKeysMarked_tokensOf j h.2.1 (apart_memberTokens ms apart),
      numberedKeysMarked_memberTokens ms h.2.2 apart]
    simp

end

/-- A plain value with literal keys is read back where keys may be numbers. -/
theorem ofNumberedText?_compact {j : Json} (h : Plain j) (keys : j.LiteralKeys) :
    ofNumberedText? j.compact = some j := by
  have none : Apart [] := nofun
  have marked := numberedKeysMarked_tokensOf j keys none
  rw [List.append_nil] at marked
  rw [ofNumberedText?, compact, String.toList_ofList, Lexer.tokens?_write false 0 h]
  show ofTokens? (numberedKeysMarked (tokensOf j)) = _
  rw [marked, numberedKeysMarked, List.append_nil, Reader.ofTokens?_tokensOf h]

end Json

/-! ### Recipes -/

theorem Step.literalKeys_encode (s : Step) : s.encode.LiteralKeys := by
  have texts (ss : List String) : (Json.strings ss).LiteralKeys := literalKeys_strings ss
  refine literalMembers_append (literalMembers_append (literalMembers_append
    (literalMembers_append (literalMembers_append (literalMembers_append ?_ ?_) ?_) ?_) ?_) ?_) ?_
  · exact ⟨by decide, trivial, by decide, trivial, by decide, trivial, trivial⟩
  · exact literalMembers_memberUnless (by decide) trivial
  · exact literalMembers_memberUnless (by decide) (texts s.entrypoint)
  · exact literalMembers_memberUnless (by decide) (texts s.command)
  · exact literalMembers_memberUnless (by decide) (texts s.env)
  · exact literalMembers_memberUnless (by decide) (texts s.environment)
  · exact ⟨by decide, trivial, by decide, trivial, trivial⟩

theorem FormField.literalKeys_encode (f : FormField) : f.encode.LiteralKeys := by
  refine literalMembers_append (literalMembers_append (literalMembers_append ?_ ?_) ?_) ?_
  · exact literalMembers_memberUnless (by decide) trivial
  · exact literalMembers_memberUnless (by decide) trivial
  · exact literalMembers_memberUnless (by decide) trivial
  · exact ⟨by decide, trivial, trivial⟩

theorem Recipe.literalKeys_encode (r : Recipe) : r.encode.LiteralKeys := by
  have form : (Json.array (r.form.map FormField.encode)).LiteralKeys :=
    literalKeys_array_map fun f _ => f.literalKeys_encode
  have steps : (Json.array (r.steps.map Step.encode)).LiteralKeys :=
    literalKeys_array_map fun s _ => s.literalKeys_encode
  refine literalMembers_append (literalMembers_append (literalMembers_append ?_ ?_) ?_) ?_
  · exact ⟨by decide, trivial, trivial⟩
  · exact literalMembers_memberUnless (by decide) trivial
  · exact literalMembers_memberUnless (by decide) form
  · exact ⟨by decide, steps, trivial⟩

/-! ### Pages -/

theorem Environment.decode_encode (e : Environment) : Environment.decode e.encode = .ok e := by
  have first : (fieldD "public" (list string) []).Writes e.public [("public", .strings e.public)] :=
    writes_fieldD "public" (list_strings e.public)
  have writes := (first.map Environment.mk)
    |>.fieldD "private" [] (list_strings e.private) (by decide)
  exact record_object writes

theorem Page.plain_encode {p : Page} (h : p.InRange) : p.encode.Plain := by
  have number : (Json.nat p.page).Plain := plain_nat (by
    have := h.1
    simp only [Text.Numeral.maxU32, Text.Numeral.maxU64] at this ⊢
    omega)
  have recipes : (Json.array (p.recipes.map Recipe.encode)).Plain :=
    plain_array_map fun r hr => Recipe.plain_encode (h.2 r hr)
  exact ⟨number, trivial, recipes, trivial⟩

theorem Page.literalKeys_encode (p : Page) : p.encode.LiteralKeys := by
  have recipes : (Json.array (p.recipes.map Recipe.encode)).LiteralKeys :=
    literalKeys_array_map fun r _ => r.literalKeys_encode
  exact ⟨by decide, trivial, by decide, trivial, by decide, recipes, trivial⟩

theorem Page.decode_encode {p : Page} (h : p.InRange) : Page.decode p.encode = .ok p := by
  have recipes : list Recipe.decode (.array (p.recipes.map Recipe.encode)) = .ok p.recipes :=
    list_array fun r hr => Recipe.decode_encode (h.2 r hr)
  have writes := ((writes_field "page" (u32_nat h.1)).map Page.mk)
    |>.fieldD "name" "" (string_string p.name) (by decide)
    |>.fieldD "recipes" [] recipes (by decide)
  exact record_object writes

/-! ### Wikis -/

namespace Cookbook

theorem literal_toString (n : Nat) : Literal (toString n) := by
  intro c hc
  rw [Text.Numeral.toList_toString] at hc
  have digit := Text.Numeral.isDigit_of_mem_decimal hc
  simp only [Char.isDigit, Bool.and_eq_true, decide_eq_true_eq] at digit
  have low : (48 : Nat) ≤ c.toNat := digit.1
  omega

theorem pageKey?_toString {n : Nat} (h : n ≤ Text.Numeral.maxU32) :
    pageKey? (toString n) = some n := by
  have unsigned : ∀ rest, Text.Numeral.decimal n ≠ '+' :: rest := by
    intro rest h
    have digit := Text.Numeral.isDigit_of_mem_decimal (h ▸ List.mem_cons_self)
    exact absurd digit (by decide)
  have count : (toString n).count? Text.Numeral.maxU32 = some n := by
    rw [String.count?, Text.Numeral.toList_toString, Text.Numeral.count?]
    · rw [Text.Numeral.digits?_decimal, Option.filter_some, if_pos (by simpa using h)]
    · exact unsigned
  rw [pageKey?, count, Option.filter_some, if_pos (by simp)]

/-- A wiki of the greatest page is put behind the others. -/
theorem insertWiki_of_lt {page : Nat} {text : String} {wikis : List (Nat × String)}
    (h : ∀ w ∈ wikis, w.1 < page) : insertWiki page text wikis = wikis ++ [(page, text)] := by
  induction wikis with
  | nil => rfl
  | cons w rest ih =>
    have less : w.1 < page := h w List.mem_cons_self
    rw [insertWiki, if_neg (Nat.lt_asymm less), if_neg less.ne',
      ih fun w hw => h w (List.mem_cons_of_mem _ hw), List.cons_append]

def encodeWikis (wikis : List (Nat × String)) : Json :=
  .object (wikis.map fun (page, text) => (toString page, .string text))

theorem decodeWikis_encodeWikis {wikis : List (Nat × String)}
    (range : ∀ w ∈ wikis, w.1 ≤ Text.Numeral.maxU32)
    (ascending : (wikis.map Prod.fst).Pairwise (· < ·)) :
    decodeWikis (encodeWikis wikis) = .ok wikis := by
  obtain ⟨add, folds, adds⟩ : ∃ add : List (Nat × String) → String × Json →
        Except DecodeError (List (Nat × String)),
      (∀ members, decodeWikis (.object members) = members.foldlM add []) ∧
      ∀ (before : List (Nat × String)) (page : Nat) (html : String),
        page ≤ Text.Numeral.maxU32 →
          add before (toString page, .string html) = .ok (insertWiki page html before) := by
    refine ⟨_, fun _ => rfl, fun before page html small => ?_⟩
    simp only [pageKey?_toString small, string_string]
    rfl
  -- Wikis that were read before stay in front.
  have goesOn : ∀ before : List (Nat × String), ((before ++ wikis).map Prod.fst).Pairwise (· < ·) →
      (wikis.map fun w => (toString w.1, Json.string w.2)).foldlM add before =
        .ok (before ++ wikis) := by
    clear ascending
    induction wikis with
    | nil =>
      intro before _
      rw [List.append_nil]
      rfl
    | cons w rest ih =>
      intro before ascending
      have last : ∀ b ∈ before, b.1 < w.1 := by
        intro b hb
        rw [List.map_append, List.pairwise_append] at ascending
        exact ascending.2.2 b.1 (List.mem_map_of_mem hb) w.1 (by simp)
      have next := ih (fun w hw => range w (List.mem_cons_of_mem _ hw)) (before ++ [w])
        (by simpa using ascending)
      rw [List.map_cons, List.foldlM_cons, adds before w.1 w.2 (range w List.mem_cons_self),
        insertWiki_of_lt last]
      refine next.trans ?_
      rw [List.append_assoc, List.singleton_append]
  rw [encodeWikis, folds]
  exact goesOn [] (by simpa using ascending)

theorem plain_encodeWikis (wikis : List (Nat × String)) : (encodeWikis wikis).Plain := by
  rw [encodeWikis, Plain, plainMembers_iff]
  intro m hm
  obtain ⟨w, -, rfl⟩ := List.mem_map.mp hm
  trivial

theorem literalKeys_encodeWikis (wikis : List (Nat × String)) :
    (encodeWikis wikis).LiteralKeys := by
  rw [encodeWikis, LiteralKeys, literalMembers_iff]
  intro m hm
  obtain ⟨w, -, rfl⟩ := List.mem_map.mp hm
  exact ⟨literal_toString w.1, trivial⟩

/-! ### Cookbooks -/

variable {book : Cookbook}

theorem plain_encode (h : book.InRange) : book.encode.Plain := by
  have environment : book.environment.encode.Plain :=
    ⟨plain_strings _, plain_strings _, trivial⟩
  have pages : (Json.array (book.pages.map Page.encode)).Plain :=
    plain_array_map fun p hp => Page.plain_encode (h.pages p hp)
  exact ⟨environment, pages, plain_encodeWikis book.wikis, trivial⟩

theorem literalKeys_encode (book : Cookbook) : book.encode.LiteralKeys := by
  have environment : book.environment.encode.LiteralKeys :=
    ⟨by decide, literalKeys_strings _, by decide, literalKeys_strings _, trivial⟩
  have pages : (Json.array (book.pages.map Page.encode)).LiteralKeys :=
    literalKeys_array_map fun p _ => p.literalKeys_encode
  exact ⟨by decide, environment, by decide, pages, by decide,
    literalKeys_encodeWikis book.wikis, trivial⟩

theorem decode_encode (h : book.InRange) : decode book.encode = .ok book := by
  have pages : list Page.decode (.array (book.pages.map Page.encode)) = .ok book.pages :=
    list_array fun p hp => Page.decode_encode (h.pages p hp)
  have wikis := decodeWikis_encodeWikis h.wikis h.ascending
  have first : (fieldD "environment" Environment.decode ⟨[], []⟩).Writes book.environment
      [("environment", book.environment.encode)] :=
    writes_fieldD "environment" book.environment.decode_encode
  have writes := (first.map Cookbook.mk)
    |>.fieldD "pages" [] pages (by decide)
    |>.fieldD "wikis" [] wikis (by decide)
  exact record_object writes

/-- A cookbook is read back from its text. -/
theorem ofText?_compact (h : book.InRange) : ofText? book.encode.compact = some book := by
  rw [ofText?, ofNumberedText?_compact (plain_encode h) (literalKeys_encode book),
    Option.bind_some, decode_encode h]
  rfl

end Cookbook

end Galley
