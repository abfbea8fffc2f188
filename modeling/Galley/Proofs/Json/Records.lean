import Galley.Json.Decode
/-!
# Reading written records

The fields of a record are read from members in any company of members with other keys. A list of
members *writes* a record when it holds, each once, keys of the record with values that are read as
its fields; members of two parts of a record with different keys may be put one behind another.
Main statement: a record is decoded from an object with members that write it.
-/
namespace Galley.Json

/-- The keys that a record knows. -/
def Fields.names {α : Type} (fields : Fields α) : List String :=
  fields.known.flatMap Known.names

/-- Whether a member, if its key is known, comes under the first name of its field with a good
value. -/
def Checked (known : List Known) (m : String × Json) : Prop :=
  ∀ k, known.find? (·.names.contains m.1) = some k →
    k.names.headD "" = m.1 ∧ k.check m.2 = .ok ()

/-- Members with good values under different keys are passed. -/
theorem scan_of_checked {known : List Known} {seen : List String} {members : List (String × Json)}
    (checked : ∀ m ∈ members, Checked known m)
    (nodup : (seen ++ members.map Prod.fst).Nodup) : scan known seen members = .ok () := by
  induction members generalizing seen with
  | nil => rfl
  | cons m rest ih =>
    have hrest : ∀ m ∈ rest, Checked known m := fun m' hm => checked m' (by simp [hm])
    have swapped : (m.1 :: (seen ++ rest.map Prod.fst)).Nodup := by
      refine (List.Perm.nodup_iff ?_).mp nodup
      simp
    rw [scan]
    split
    · exact ih hrest (List.nodup_cons.mp swapped).2
    · next k hk =>
      obtain ⟨first, good⟩ := checked m (by simp) k hk
      have fresh : seen.contains m.1 = false := by
        have := (List.nodup_cons.mp swapped).1
        simp_all
      simp only [first, fresh, Bool.false_eq_true, if_false, good]
      exact ih hrest (by simpa using swapped)

namespace Fields

variable {α β : Type}

/-- The members `ms` write `a`. -/
structure Writes (fields : Fields α) (a : α) (ms : List (String × Json)) : Prop where
  keys : ∀ m ∈ ms, m.1 ∈ fields.names
  nodup : (ms.map Prod.fst).Nodup
  checked : ∀ m ∈ ms, Checked fields.known m
  reads : ∀ before behind, (∀ m ∈ before ++ behind, m.1 ∉ fields.names) →
    fields.ofMembers (before ++ (ms ++ behind)) = .ok a

theorem writes_pure (a : α) : (Pure.pure a : Fields α).Writes a [] where
  keys := by simp
  nodup := by simp
  checked := by simp
  reads _ _ _ := rfl

theorem names_seq (f : Fields (α → β)) (x : Fields α) :
    (f <*> x).names = f.names ++ x.names := by
  show (f.known ++ x.known).flatMap Known.names = _
  rw [List.flatMap_append]
  rfl

theorem find?_eq_none_of_not_mem {known : List Known} {key : String}
    (h : key ∉ known.flatMap Known.names) :
    known.find? (fun k => k.names.contains key) = none := by
  rw [List.find?_eq_none]
  intro k hk
  simp only [List.mem_flatMap, not_exists, not_and] at h
  simpa using h k hk

theorem find?_isSome_of_mem {known : List Known} {key : String}
    (h : key ∈ known.flatMap Known.names) :
    (known.find? (fun k => k.names.contains key)).isSome = true := by
  simpa using h

theorem Writes.seq {f : Fields (α → β)} {g : α → β} {x : Fields α} {a : α}
    {ms ns : List (String × Json)} (hf : f.Writes g ms) (hx : x.Writes a ns)
    (apart : ∀ n ∈ x.names, n ∉ f.names) : (f <*> x).Writes (g a) (ms ++ ns) where
  keys m hm := by
    rw [names_seq, List.mem_append]
    exact (List.mem_append.mp hm).imp (hf.keys m) (hx.keys m)
  nodup := by
    rw [List.map_append, List.nodup_append]
    refine ⟨hf.nodup, hx.nodup, fun a ha b hb hab => ?_⟩
    obtain ⟨m, hm, rfl⟩ := List.mem_map.mp ha
    obtain ⟨n, hn, rfl⟩ := List.mem_map.mp hb
    exact apart _ (hx.keys n hn) (hab ▸ hf.keys m hm)
  checked m hm k hk := by
    have split : (f.known ++ x.known).find? (fun k => k.names.contains m.1) = some k := hk
    rw [List.find?_append] at split
    rcases List.mem_append.mp hm with hm | hm
    · obtain ⟨k', hk'⟩ := Option.isSome_iff_exists.mp (find?_isSome_of_mem (hf.keys m hm))
      rw [hk', Option.some_or] at split
      exact hf.checked m hm k (hk'.trans split)
    · rw [find?_eq_none_of_not_mem (apart _ (hx.keys m hm)), Option.none_or] at split
      exact hx.checked m hm k split
  reads before behind others := by
    have away (m : String × Json) (hm : m ∈ before ++ behind) :
        m.1 ∉ f.names ∧ m.1 ∉ x.names := by
      have := others m hm
      rw [names_seq, List.mem_append] at this
      exact not_or.mp this
    have first : f.ofMembers (before ++ (ms ++ (ns ++ behind))) = .ok g := by
      refine hf.reads before (ns ++ behind) fun m hm => ?_
      simp only [List.mem_append] at hm
      rcases hm with hm | hm | hm
      · exact (away m (by simp [hm])).1
      · exact apart _ (hx.keys m hm)
      · exact (away m (by simp [hm])).1
    have second : x.ofMembers ((before ++ ms) ++ (ns ++ behind)) = .ok a := by
      refine hx.reads (before ++ ms) behind fun m hm => ?_
      simp only [List.mem_append] at hm
      rcases hm with (hm | hm) | hm
      · exact (away m (by simp [hm])).2
      · exact fun h => apart _ h (hf.keys m hm)
      · exact (away m (by simp [hm])).2
    rw [List.append_assoc] at second ⊢
    show (do
      let g ← f.ofMembers _
      let a ← x.ofMembers _
      return g a) = _
    rw [first, second]
    rfl

theorem find?_member {names : List String} {before ms behind : List (String × Json)}
    (others : ∀ m ∈ before ++ behind, m.1 ∉ names) :
    (before ++ (ms ++ behind)).find? (fun m => names.contains m.1) =
      ms.find? (fun m => names.contains m.1) := by
  have none_of (xs : List (String × Json)) (h : ∀ m ∈ xs, m.1 ∉ names) :
      xs.find? (fun m => names.contains m.1) = none := by
    rw [List.find?_eq_none]
    intro m hm
    simpa using h m hm
  rw [List.find?_append, none_of before fun m hm => others m (by simp [hm]), Option.none_or,
    List.find?_append, none_of behind fun m hm => others m (by simp [hm]), Option.or_none]

/-- A field under its first name. -/
theorem writes_fieldWith {names : List String} {decode : Decoder α} {absent : Option α}
    {key : String} {value : Json} {a : α} (hkey : names.headD "" = key) (hmem : key ∈ names)
    (h : decode value = .ok a) : (fieldWith names decode absent).Writes a [(key, value)] where
  keys := by simpa [Fields.names, fieldWith] using hmem
  nodup := by simp
  checked m hm k hk := by
    obtain rfl : m = (key, value) := by simpa using hm
    obtain rfl : ⟨names, fun j => (decode j).map fun _ => ()⟩ = k := by
      simpa [fieldWith, hmem] using hk
    exact ⟨hkey, by simp [h, Except.map]⟩
  reads before behind others := by
    have others' : ∀ m ∈ before ++ behind, m.1 ∉ names := by
      simpa [Fields.names, fieldWith] using others
    simp only [fieldWith]
    rw [find?_member others']
    simp [hmem, h]

/-- A field that is missing has its default. -/
theorem writes_absent {names : List String} {decode : Decoder α} {a : α} :
    (fieldWith names decode (some a)).Writes a [] where
  keys := by simp
  nodup := by simp
  checked := by simp
  reads before behind others := by
    have others' : ∀ m ∈ before ++ behind, m.1 ∉ names := by
      simpa [Fields.names, fieldWith] using others
    simp only [fieldWith]
    rw [find?_member others']
    rfl

theorem writes_field (name : String) {decode : Decoder α} {value : Json} {a : α}
    (h : decode value = .ok a) : (field name decode).Writes a [(name, value)] :=
  writes_fieldWith rfl (by simp) h

theorem writes_fieldD (name : String) {decode : Decoder α} {absent : α} {value : Json} {a : α}
    (h : decode value = .ok a) : (fieldD name decode absent).Writes a [(name, value)] :=
  writes_fieldWith rfl (by simp) h

theorem writes_field? (name : String) {decode : Decoder α} {value : Json} {a : Option α}
    (h : Decoder.option decode value = .ok a) :
    (field? name decode).Writes a [(name, value)] :=
  writes_fieldWith rfl (by simp) h

/-- A member that is left out when its value is the default. -/
theorem writes_memberUnless (name : String) {decode : Decoder α} {absent : α} {value : Json}
    {a : α} {empty : Bool} (h : decode value = .ok a) (default : empty = true → absent = a) :
    (fieldD name decode absent).Writes a (memberUnless empty name value) := by
  unfold memberUnless
  cases empty with
  | false => exact writes_fieldD name h
  | true =>
    obtain rfl := default rfl
    exact writes_absent

/-- The first field of a record, before whose key there is no other. -/
theorem Writes.map {x : Fields α} {a : α} {ms : List (String × Json)} (hx : x.Writes a ms)
    (f : α → β) : (f <$> x).Writes (f a) ms :=
  (writes_pure f).seq hx fun _ _ => List.not_mem_nil

/-- One more field with a key of its own. -/
theorem Writes.field {f : Fields (α → β)} {g : α → β} {ms : List (String × Json)}
    (hf : f.Writes g ms) (name : String) {decode : Decoder α} {value : Json} {a : α}
    (h : decode value = .ok a) (fresh : f.names.contains name = false) :
    (f <*> Fields.field name decode).Writes (g a) (ms ++ [(name, value)]) :=
  hf.seq (writes_field name h) fun n hn => by
    obtain rfl : n = name := by simpa [Fields.names, Fields.field, fieldWith] using hn
    simpa using fresh

theorem Writes.fieldD {f : Fields (α → β)} {g : α → β} {ms : List (String × Json)}
    (hf : f.Writes g ms) (name : String) (absent : α) {decode : Decoder α} {value : Json} {a : α}
    (h : decode value = .ok a) (fresh : f.names.contains name = false) :
    (f <*> Fields.fieldD name decode absent).Writes (g a) (ms ++ [(name, value)]) :=
  hf.seq (writes_fieldD name h) fun n hn => by
    obtain rfl : n = name := by simpa [Fields.names, Fields.fieldD, fieldWith] using hn
    simpa using fresh

theorem Writes.field? {f : Fields (Option α → β)} {g : Option α → β}
    {ms : List (String × Json)} (hf : f.Writes g ms) (name : String) {decode : Decoder α}
    {value : Json} {a : Option α} (h : Decoder.option decode value = .ok a)
    (fresh : f.names.contains name = false) :
    (f <*> Fields.field? name decode).Writes (g a) (ms ++ [(name, value)]) :=
  hf.seq (writes_field? name h) fun n hn => by
    obtain rfl : n = name := by simpa [Fields.names, Fields.field?, fieldWith] using hn
    simpa using fresh

/-- One more field with a key of its own, left out when it is empty. -/
theorem Writes.unless {f : Fields (α → β)} {g : α → β} {ms : List (String × Json)}
    (hf : f.Writes g ms) (name : String) {decode : Decoder α} {absent : α} {value : Json} {a : α}
    {empty : Bool} (h : decode value = .ok a) (default : empty = true → absent = a)
    (fresh : f.names.contains name = false) :
    (f <*> Fields.fieldD name decode absent).Writes (g a)
      (ms ++ memberUnless empty name value) :=
  hf.seq (writes_memberUnless name h default) fun n hn => by
    obtain rfl : n = name := by simpa [Fields.names, Fields.fieldD, fieldWith] using hn
    simpa using fresh

end Fields

theorem record_object {α : Type} {name : String} {fields : Fields α} {a : α}
    {ms : List (String × Json)} (h : fields.Writes a ms) :
    Decoder.record name fields (.object ms) = .ok a := by
  have scanned : scan fields.known [] ms = .ok () := scan_of_checked h.checked (by simpa using h.nodup)
  have read := h.reads [] [] (by simp)
  rw [List.nil_append, List.append_nil] at read
  show (do
    scan fields.known [] ms
    fields.ofMembers ms) = _
  rw [scanned, read]
  rfl

/-! ### What a record demands -/

namespace Fields

variable {α β : Type}

/-- Whether members that are read as the fields have a property. -/
def Demands (fields : Fields α) (P : List (String × Json) → Prop) : Prop :=
  ∀ ms a, fields.ofMembers ms = .ok a → P ms

theorem Demands.seq_left {f : Fields (α → β)} {x : Fields α} {P : List (String × Json) → Prop}
    (h : f.Demands P) : (f <*> x).Demands P := fun ms b hb => by
  change (do
    let g ← f.ofMembers ms
    let a ← x.ofMembers ms
    return g a) = .ok b at hb
  cases hg : f.ofMembers ms with
  | error e =>
    rw [hg] at hb
    exact nomatch hb
  | ok g => exact h ms g hg

theorem Demands.seq_right {f : Fields (α → β)} {x : Fields α} {P : List (String × Json) → Prop}
    (h : x.Demands P) : (f <*> x).Demands P := fun ms b hb => by
  change (do
    let g ← f.ofMembers ms
    let a ← x.ofMembers ms
    return g a) = .ok b at hb
  cases hg : f.ofMembers ms with
  | error e =>
    rw [hg] at hb
    exact nomatch hb
  | ok g =>
    rw [hg] at hb
    cases ha : x.ofMembers ms with
    | error e =>
      rw [ha] at hb
      exact nomatch hb
    | ok a => exact h ms a ha

theorem Demands.map {x : Fields α} {P : List (String × Json) → Prop} (h : x.Demands P)
    (f : α → β) : (f <$> x).Demands P :=
  Demands.seq_right (f := Pure.pure f) h

/-- The value of a field without a default is good. -/
theorem demands_value (name : String) (decode : Decoder α) :
    (field name decode).Demands fun ms =>
      ∃ m a, ms.find? (fun m => [name].contains m.1) = some m ∧ decode m.2 = .ok a :=
  fun ms a h => by
    simp only [field, fieldWith] at h
    cases hm : ms.find? (fun m => [name].contains m.1) with
    | none =>
      rw [hm] at h
      exact nomatch h
    | some m =>
      rw [hm] at h
      exact ⟨m, a, hm, h⟩

/-- A field without a default is among the members. -/
theorem demands_field (name : String) (decode : Decoder α) :
    (field name decode).Demands fun ms => name ∈ ms.map Prod.fst := fun ms a h => by
  obtain ⟨m, -, hm, -⟩ := demands_value name decode ms a h
  have key : m.1 = name := by simpa using List.find?_some hm
  exact List.mem_map.mpr ⟨m, List.mem_of_find?_eq_some hm, key⟩

end Fields

/-- Members without what the record demands are refused. -/
theorem record_object_ne_ok {α : Type} {name : String} {fields : Fields α}
    {P : List (String × Json) → Prop} (demands : fields.Demands P) {ms : List (String × Json)}
    (h : ¬ P ms) (a : α) : Decoder.record name fields (.object ms) ≠ .ok a := fun ha => by
  change (do
    scan fields.known [] ms
    fields.ofMembers ms) = .ok a at ha
  cases hs : scan fields.known [] ms with
  | error e =>
    rw [hs] at ha
    exact nomatch ha
  | ok u =>
    rw [hs] at ha
    exact h (demands ms a ha)

/-! ### Single values -/

namespace Decoder

@[simp] theorem string_string (s : String) : string (.string s) = .ok s := rfl

@[simp] theorem bool_bool (b : Bool) : bool (.bool b) = .ok b := rfl

theorem integer_int {wanted : String} {low high n : Int} (h : low ≤ n) (h' : n ≤ high) :
    integer wanted low high (.int n) = .ok n := by
  rw [Json.int, integer, if_pos ⟨h, h'⟩]

theorem u32_nat {n : Nat} (h : n ≤ Text.Numeral.maxU32) : u32 (.nat n) = .ok n := by
  rw [u32, Json.nat, ← Json.int, integer_int (by omega) (by omega)]
  rfl

theorem u64_nat {n : Nat} (h : n ≤ Text.Numeral.maxU64) : u64 (.nat n) = .ok n := by
  rw [u64, Json.nat, ← Json.int, integer_int (by omega) (by omega)]
  rfl

theorem i64_int {n : Int} (h : Text.Numeral.minI64 ≤ n) (h' : n ≤ Text.Numeral.maxI64) :
    i64 (.int n) = .ok n :=
  integer_int h h'

theorem list_array {α : Type} {item : Decoder α} {encode : α → Json} {as : List α}
    (h : ∀ a ∈ as, item (encode a) = .ok a) : list item (.array (as.map encode)) = .ok as := by
  rw [list]
  induction as with
  | nil => rfl
  | cons a as ih =>
    rw [List.map_cons, items, h a (by simp), ih fun b hb => h b (by simp [hb])]
    rfl

@[simp] theorem list_strings (ss : List String) : list string (.strings ss) = .ok ss :=
  list_array fun _ _ => rfl

end Decoder

end Galley.Json
