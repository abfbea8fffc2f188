import Galley.Json.Access
import Galley.Json.Decode
import Galley.Proofs.Json.RoundTrip
import Mathlib.Data.List.Induction
import Mathlib.Data.String.Basic
/-!
# Free-form values

A value that is plain, whose objects have their keys in ascending order and that is not nested too
deep for a member of a record is *free-form*. Main statement: a free-form value is decoded to
itself.
-/
namespace Galley.Json

/-! ### Order and depth -/

mutual

/-- Whether the keys of every object stand in ascending order. -/
def Ordered : Json → Prop
  | .array items => OrderedItems items
  | .object members => (members.map Prod.fst).Pairwise (· < ·) ∧ OrderedMembers members
  | _ => True

def OrderedItems : List Json → Prop
  | [] => True
  | j :: js => Ordered j ∧ OrderedItems js

def OrderedMembers : List (String × Json) → Prop
  | [] => True
  | (_, j) :: rest => Ordered j ∧ OrderedMembers rest

end

mutual

/-- How many arrays and objects stand one in another. -/
def depth : Json → Nat
  | .array items => depthItems items + 1
  | .object members => depthMembers members + 1
  | _ => 0

def depthItems : List Json → Nat
  | [] => 0
  | j :: js => max (depth j) (depthItems js)

def depthMembers : List (String × Json) → Nat
  | [] => 0
  | (_, j) :: rest => max (depth j) (depthMembers rest)

end

/-- A value that may stand in a record that is the outermost value of its text. -/
structure IsFreeform (j : Json) : Prop where
  plain : j.Plain
  ordered : j.Ordered
  shallow : j.depth < maxLevels

/-! ### Objects in order -/

/-- A member with the greatest key is put behind the others. -/
theorem insert_of_lt {key : String} {value : Json} {ms : List (String × Json)}
    (h : ∀ m ∈ ms, m.1 < key) : insert key value ms = ms ++ [(key, value)] := by
  induction ms with
  | nil => rfl
  | cons m rest ih =>
    have less : m.1 < key := h m List.mem_cons_self
    rw [insert, if_neg (lt_asymm less), if_neg less.ne',
      ih fun m hm => h m (List.mem_cons_of_mem _ hm), List.cons_append]

theorem foldl_insert {ms acc : List (String × Json)}
    (ascending : ((acc ++ ms).map Prod.fst).Pairwise (· < ·)) :
    ms.foldl (fun acc (k, v) => insert k v acc) acc = acc ++ ms := by
  induction ms generalizing acc with
  | nil => simp
  | cons m rest ih =>
    have last : ∀ n ∈ acc, n.1 < m.1 := by
      intro n hn
      rw [List.map_append, List.pairwise_append] at ascending
      exact ascending.2.2 n.1 (List.mem_map_of_mem hn) m.1 (by simp)
    have next := @ih (acc ++ [m]) (by simpa using ascending)
    rw [← @insert_of_lt m.1 m.2 acc last] at next
    rw [List.foldl_cons, next, insert_of_lt last, List.append_assoc, List.singleton_append]

theorem sorted_eq_object {ms : List (String × Json)}
    (ascending : (ms.map Prod.fst).Pairwise (· < ·)) : sorted ms = .object ms := by
  rw [sorted, foldl_insert (by simpa using ascending), List.nil_append]

/-- A member that is put in is found under its key. -/
theorem find?_insert (key other : String) (value : Json) (ms : List (String × Json)) :
    find? other (insert key value ms) = if key = other then some value else find? other ms := by
  have head (k : String) (v : Json) (rest : List (String × Json)) :
      find? other ((k, v) :: rest) = if k = other then some v else find? other rest := by
    by_cases h : k = other <;> simp [find?, h]
  induction ms with
  | nil => rw [insert, head]
  | cons m rest ih =>
    obtain ⟨k, v⟩ := m
    rw [insert, head]
    split
    · rw [head, head]
    · split
      · next same =>
        subst same
        rw [head]
        split <;> rfl
      · next apart =>
        rw [head, ih]
        by_cases own : k = other
        · rw [if_pos own, if_pos own, if_neg (own ▸ apart)]
        · rw [if_neg own, if_neg own]

/-- The last of several members with one key is found when they are sorted. -/
theorem member?_sorted (ms : List (String × Json)) (key : String) :
    (sorted ms).member? key = find? key ms.reverse := by
  change find? key (ms.foldl (fun acc (k, v) => insert k v acc) []) = _
  induction ms using List.reverseRecOn with
  | nil => rfl
  | append_singleton ms m ih =>
    rw [List.foldl_append, List.foldl_cons, List.foldl_nil, find?_insert, ih, List.reverse_append,
      List.reverse_singleton, List.singleton_append]
    by_cases own : m.1 = key <;> simp [find?, own]

/-! ### Normal values -/

/-- The items of an array are normal one by one. -/
theorem normalItems?_map {α : Type} {f g : α → Json} {levels : Nat}
    (h : ∀ a, normal? levels (f a) = some (g a)) (as : List α) :
    normalItems? levels (as.map f) = some (as.map g) := by
  induction as with
  | nil => rfl
  | cons a as ih =>
    rw [List.map_cons, normalItems?, h, ih]
    rfl

/-- An object that holds texts only is normal when its members are sorted. -/
theorem normal?_texts {ms : List (String × Json)} (texts : ∀ m ∈ ms, ∃ s, m.2 = .string s)
    (levels : Nat) : normal? (levels + 1) (.object ms) = some (sorted ms) := by
  have same : normalMembers? levels ms = some ms := by
    induction ms with
    | nil => rfl
    | cons m rest ih =>
      obtain ⟨⟨s, text⟩, others⟩ := List.forall_mem_cons.mp texts
      obtain ⟨k, v⟩ := m
      obtain rfl : v = .string s := text
      have atom : normal? levels (.string s) = some (.string s) := rfl
      rw [normalMembers?, atom, ih others]
      rfl
  rw [normal?, same, Option.map_some]

theorem forall_memberUnless {P : String × Json → Prop} {empty : Bool} {key : String} {value : Json}
    (h : P (key, value)) : ∀ m ∈ memberUnless empty key value, P m := by
  cases empty with
  | true => exact List.forall_mem_nil _
  | false => exact List.forall_mem_singleton.mpr h

mutual

/-- A plain value with its keys in order is the free-form value of itself. -/
theorem normal?_eq_self (levels : Nat) : (j : Json) → Plain j → Ordered j → depth j ≤ levels →
    normal? levels j = some j
  | .null, _, _, _ => rfl
  | .bool _, _, _, _ => rfl
  | .number _, _, _, _ => rfl
  | .string _, _, _, _ => rfl
  | .array items, plain, ordered, shallow => by
    obtain ⟨levels, rfl⟩ : ∃ n, levels = n + 1 := Nat.exists_eq_add_one.mpr (by
      rw [depth] at shallow
      omega)
    have within : depthItems items ≤ levels := by simpa [depth] using shallow
    rw [normal?, normalItems?_eq_self levels items plain ordered within]
    rfl
  | .object members, plain, ordered, shallow => by
    obtain ⟨levels, rfl⟩ : ∃ n, levels = n + 1 := Nat.exists_eq_add_one.mpr (by
      rw [depth] at shallow
      omega)
    rw [Ordered] at ordered
    have within : depthMembers members ≤ levels := by simpa [depth] using shallow
    rw [normal?, normalMembers?_eq_self levels members plain ordered.2 within, Option.map_some,
      sorted_eq_object ordered.1]

theorem normalItems?_eq_self (levels : Nat) : (js : List Json) → PlainItems js →
    OrderedItems js → depthItems js ≤ levels → normalItems? levels js = some js
  | [], _, _, _ => rfl
  | j :: js, plain, ordered, shallow => by
    rw [PlainItems] at plain
    rw [OrderedItems] at ordered
    rw [depthItems, Nat.max_le] at shallow
    rw [normalItems?, normal?_eq_self levels j plain.1 ordered.1 shallow.1,
      normalItems?_eq_self levels js plain.2 ordered.2 shallow.2]
    rfl

theorem normalMembers?_eq_self (levels : Nat) : (ms : List (String × Json)) → PlainMembers ms →
    OrderedMembers ms → depthMembers ms ≤ levels → normalMembers? levels ms = some ms
  | [], _, _, _ => rfl
  | (k, j) :: ms, plain, ordered, shallow => by
    rw [PlainMembers] at plain
    rw [OrderedMembers] at ordered
    rw [depthMembers, Nat.max_le] at shallow
    rw [normalMembers?, normal?_eq_self levels j plain.1 ordered.1 shallow.1,
      normalMembers?_eq_self levels ms plain.2 ordered.2 shallow.2]
    rfl

end

/-- What is left of an optional value when null counts as none. -/
def withoutNull : Option Json → Option Json
  | some .null => none
  | value => value

namespace Decoder

theorem freeform_eq_self {j : Json} (h : j.IsFreeform) : freeform j = .ok j := by
  have shallow := h.shallow
  rw [freeform, normal?_eq_self _ j h.plain h.ordered (by omega)]

theorem option_freeform {j : Json} (h : j.IsFreeform) :
    option freeform j = .ok (withoutNull (some j)) := by
  cases j with
  | null => rfl
  | unreadable => exact absurd h.plain id
  | _ => simp [option, freeform_eq_self h, withoutNull, Except.map]

end Decoder

end Galley.Json
