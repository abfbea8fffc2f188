import Galley.Json.Decode
import Galley.Proofs.Results
/-!
# What decoders give

A decoder that gives a value has checked it. What all values of a decoder have in common is put together
from its parts, field by field for a record.
-/
namespace Galley

namespace Json

variable {α β : Type}

/-- Whether all that a decoder gives has a property. -/
def Decoder.Yields (decode : Decoder α) (P : α → Prop) : Prop :=
  ∀ ⦃j a⦄, decode j = .ok a → P a

theorem refuse_ne_ok (j : Json) (wanted : String) (a : α) : refuse j wanted ≠ .ok a := by
  unfold refuse
  split <;> exact nofun

namespace Fields

/-- Whether all that fields are put together to has a property. -/
structure Yields (fields : Fields α) (P : α → Prop) : Prop where
  members : ∀ ⦃ms a⦄, fields.ofMembers ms = .ok a → P a
  items : ∀ ⦃wanted index js a rest⦄, fields.ofItems wanted index js = .ok (a, rest) → P a

variable {P : β → Prop} {Q : α → Prop}

theorem yields_pure {a : α} (h : Q a) : (Pure.pure a : Fields α).Yields Q where
  members _ _ eq := Except.ok.inj eq ▸ h
  items _ _ _ _ _ eq := (Prod.mk.inj (Except.ok.inj eq)).1 ▸ h

/-- Nothing need be known of a field. -/
theorem Yields.any (fields : Fields α) : fields.Yields fun _ => True :=
  ⟨fun _ _ _ => trivial, fun _ _ _ _ _ _ => trivial⟩

theorem Yields.seq {f : Fields (α → β)} {x : Fields α} (hx : x.Yields Q)
    (hf : f.Yields fun g => ∀ a, Q a → P (g a)) : (f <*> x).Yields P where
  members ms b eq := by
    obtain ⟨g, first, eq⟩ := bind_eq_ok.mp eq
    obtain ⟨a, second, eq⟩ := bind_eq_ok.mp eq
    exact Except.ok.inj eq ▸ hf.members first a (hx.members second)
  items wanted index js b rest eq := by
    obtain ⟨⟨g, left⟩, first, eq⟩ := bind_eq_ok.mp eq
    obtain ⟨⟨a, last⟩, second, eq⟩ := bind_eq_ok.mp eq
    exact (Prod.mk.inj (Except.ok.inj eq)).1 ▸ hf.items first a (hx.items second)

theorem Yields.map {x : Fields α} {g : α → β} (hx : x.Yields Q) (h : ∀ a, Q a → P (g a)) :
    (g <$> x).Yields P :=
  hx.seq (yields_pure h)

theorem yields_fieldWith {names : List String} {decode : Decoder α} {absent : Option α}
    (h : decode.Yields Q) (missing : ∀ a, absent = some a → Q a) :
    (fieldWith names decode absent).Yields Q where
  members ms a eq := by
    dsimp only [fieldWith] at eq
    split at eq
    · exact h eq
    · exact missing _ (congrArg some (Except.ok.inj eq))
    · exact nomatch eq
  items wanted index js a rest eq := by
    dsimp only [fieldWith] at eq
    split at eq
    · obtain ⟨b, read, eq⟩ := map_eq_ok.mp eq
      exact (Prod.mk.inj eq).1 ▸ h read
    · exact missing _ (congrArg some (Prod.mk.inj (Except.ok.inj eq)).1)
    · exact nomatch eq

theorem yields_field {name : String} {decode : Decoder α} (h : decode.Yields Q) :
    (field name decode).Yields Q :=
  yields_fieldWith h fun _ none => nomatch none

theorem yields_fieldD {name : String} {decode : Decoder α} {absent : α} (h : decode.Yields Q)
    (missing : Q absent) : (fieldD name decode absent).Yields Q :=
  yields_fieldWith h fun _ same => Option.some.inj same ▸ missing

end Fields

namespace Decoder

variable {Q : α → Prop}

theorem Yields.map {decode : Decoder α} {P : β → Prop} {f : α → β} (h : decode.Yields Q)
    (hf : ∀ a, Q a → P (f a)) : Yields (fun j => (decode j).map f) P := by
  intro j b eq
  obtain ⟨a, read, rfl⟩ := map_eq_ok.mp eq
  exact hf a (h read)

theorem yields_integer (wanted : String) (low high : Int) :
    (integer wanted low high).Yields fun n => low ≤ n ∧ n ≤ high := by
  intro j n eq
  unfold integer at eq
  split at eq
  · split at eq
    · next inside => exact Except.ok.inj eq ▸ inside
    · exact nomatch eq
  · exact absurd eq (refuse_ne_ok _ _ n)

theorem yields_nat (wanted : String) (bound : Nat) :
    Yields (fun j => (integer wanted 0 bound j).map Int.toNat) (· ≤ bound) :=
  (yields_integer wanted 0 bound).map fun n inside => by omega

theorem yields_list {item : Decoder α} (h : item.Yields Q) :
    (list item).Yields fun as => ∀ a ∈ as, Q a := by
  have all (js : List Json) (as : List α) (eq : items item js = .ok as) : ∀ a ∈ as, Q a := by
    induction js generalizing as with
    | nil =>
      obtain rfl := Except.ok.inj eq
      simp
    | cons j js ih =>
      obtain ⟨a, first, eq⟩ := bind_eq_ok.mp eq
      obtain ⟨rest, others, eq⟩ := bind_eq_ok.mp eq
      obtain rfl := Except.ok.inj eq
      exact List.forall_mem_cons.mpr ⟨h first, ih rest others⟩
  intro j as eq
  unfold list at eq
  split at eq
  · exact all _ as eq
  · exact absurd eq (refuse_ne_ok _ _ as)

theorem yields_option {decode : Decoder α} (h : decode.Yields Q) :
    (option decode).Yields fun a => ∀ b ∈ a, Q b := by
  intro j a eq
  unfold option at eq
  split at eq
  · obtain rfl := Except.ok.inj eq
    simp
  · obtain ⟨b, read, rfl⟩ := map_eq_ok.mp eq
    intro c hc
    exact Option.some.inj hc ▸ h read

theorem yields_record {name : String} {fields : Fields α} (h : fields.Yields Q) :
    (record name fields).Yields Q := by
  intro j a eq
  unfold record at eq
  split at eq
  · obtain ⟨_, -, eq⟩ := bind_eq_ok.mp eq
    exact h.members eq
  · obtain ⟨⟨b, rest⟩, read, eq⟩ := bind_eq_ok.mp eq
    dsimp only at eq
    split at eq
    · exact Except.ok.inj eq ▸ h.items read
    · exact nomatch eq
  · exact absurd eq (refuse_ne_ok _ _ a)

end Decoder

end Json

end Galley
