import Galley.AppServer
import Galley.Proofs.Json.Freeform
import Galley.Proofs.Json.Records
import Galley.Proofs.Json.Values
/-!
# What answers about an app say

In the result of an answer the keys of all objects are sorted. Main statements: a page of apps is decoded from
such a result as it was, and the descriptions of resources and their contents are found in it under their keys.
-/
namespace Galley

open Json Json.Fields Json.Decoder

namespace Json

/-- A list under a key, as it is found in a result. -/
theorem freeform_list {α : Type} {f g : α → Json}
    (h : ∀ levels a, normal? (levels + 1) (f a) = some (g a)) (key : String) (as : List α) :
    freeform (.object [(key, .array (as.map f))]) = .object [(key, .array (as.map g))] := by
  have items : normal? 126 (.array (as.map f)) = some (.array (as.map g)) := by
    rw [normal?, normalItems?_map (h 124), Option.map_some]
  have whole : normal? 127 (.object [(key, .array (as.map f))]) =
      some (.object [(key, .array (as.map g))]) := by
    rw [normal?, normalMembers?, items]
    rfl
  rw [freeform, maxLevels, whole, Option.getD_some]

end Json

namespace Catalog

/-! ### Pages of apps -/

/-- An app as it stands in a result. -/
def AppInfo.inOrder (a : AppInfo) : Json :=
  .object [("description", .string a.description), ("name", .string a.name), ("uuid", .string a.uuid)]

theorem AppInfo.normal?_encode (levels : Nat) (a : AppInfo) :
    normal? (levels + 1) a.encode = some a.inOrder := by
  rw [encode, normal?_texts (by simp)]
  rfl

theorem AppInfo.decode_inOrder (a : AppInfo) : decode a.inOrder = .ok a := rfl

theorem AppsResult.decode_freeform {r : AppsResult} (early : Text.Numeral.minI64 ≤ r.page)
    (late : r.page ≤ Text.Numeral.maxI64) (least : 0 ≤ r.totalPages)
    (few : r.totalPages ≤ Text.Numeral.maxI64) : decode r.encode.freeform = .ok r := by
  let members := [("apps", Json.array (r.apps.map AppInfo.inOrder)), ("page", .int r.page),
    ("total_pages", .int r.totalPages)]
  have apps : normal? 126 (.array (r.apps.map AppInfo.encode)) =
      some (.array (r.apps.map AppInfo.inOrder)) := by
    rw [normal?, normalItems?_map (AppInfo.normal?_encode 124), Option.map_some]
  have whole : normal? 127 r.encode = some (sorted members) := by
    rw [encode, normal?, normalMembers?, apps]
    rfl
  have ascending : (members.map Prod.fst).Pairwise (· < ·) := by
    simp only [members, List.map_cons, List.map_nil]
    decide
  have infos : list AppInfo.decode (.array (r.apps.map AppInfo.inOrder)) = .ok r.apps :=
    list_array fun a _ => a.decode_inOrder
  have writes := ((writes_field "apps" infos).map AppsResult.mk)
    |>.field "page" (i64_int early late) (by decide)
    |>.field "total_pages" (i64_int (Int.le_trans (by decide) least) few) (by decide)
  rw [Json.freeform, maxLevels, whole, Option.getD_some, sorted_eq_object ascending]
  exact record_object writes

theorem AppsParams.decode_encode {p : AppsParams} (page : Text.Numeral.minI64 ≤ p.page)
    (page' : p.page ≤ Text.Numeral.maxI64) (limit : Text.Numeral.minI64 ≤ p.limit)
    (limit' : p.limit ≤ Text.Numeral.maxI64) : decode p.encode = .ok p := by
  have first : (fieldD "page" i64 0).Writes p.page [("page", .int p.page)] :=
    writes_fieldD "page" (i64_int page page')
  have writes := (first.map AppsParams.mk).fieldD "limit" 0 (i64_int limit limit') (by decide)
  exact record_object writes

/-- A page that is asked for has a number of 64 bits. -/
theorem AppsParams.yields_decode :
    AppsParams.decode.Yields fun p => Text.Numeral.minI64 ≤ p.page ∧ p.page ≤ Text.Numeral.maxI64 := by
  have page : (fieldD "page" i64 0).Yields fun n => Text.Numeral.minI64 ≤ n ∧ n ≤ Text.Numeral.maxI64 :=
    yields_fieldD (yields_integer _ _ _) (by decide)
  exact yields_record ((Fields.Yields.any _).seq (page.map fun n inside _ _ => inside))

/-! ### Resources -/

theorem Resource.normal?_encode (levels : Nat) (r : Resource) :
    normal? (levels + 1) r.encode = some (sorted r.encode.members) := by
  refine normal?_texts ?_ levels
  simp only [List.forall_mem_append]
  exact ⟨⟨by simp, forall_memberUnless ⟨_, rfl⟩⟩, forall_memberUnless ⟨_, rfl⟩⟩

theorem Resource.member?_uri (r : Resource) :
    (sorted r.encode.members).member? "uri" = some (.string r.uri) := by
  rw [member?_sorted]
  simp only [encode, members, memberUnless]
  split <;> split <;> rfl

theorem Content.normal?_encode (levels : Nat) (c : Content) :
    normal? (levels + 1) c.encode = some (sorted c.encode.members) := by
  refine normal?_texts ?_ levels
  simp only [List.forall_mem_append]
  exact ⟨⟨⟨by simp, forall_memberUnless ⟨_, rfl⟩⟩, forall_memberUnless ⟨_, rfl⟩⟩,
    forall_memberUnless ⟨_, rfl⟩⟩

theorem Content.member?_uri (c : Content) :
    (sorted c.encode.members).member? "uri" = some (.string c.uri) := by
  rw [member?_sorted]
  simp only [encode, members, memberUnless]
  split <;> split <;> split <;> rfl

/-- A text that is empty is left out. -/
theorem Content.textAt_text (c : Content) : (sorted c.encode.members).textAt "text" = c.text := by
  rw [textAt, textAt?, at_, member?_sorted]
  simp only [encode, members, memberUnless]
  by_cases empty : c.text.isEmpty
  · rw [if_pos empty, String.isEmpty_iff.mp empty]
    split <;> split <;> rfl
  · rw [if_neg empty]
    split <;> split <;> rfl

end Catalog

/-- The parameters of a request are read off some value. -/
theorem Rpc.Request.exists_decodeParams {α : Type} (r : Request) (decode : Decoder α) :
    ∃ j, r.decodeParams decode = decode j := by
  unfold decodeParams
  split <;> exact ⟨_, rfl⟩

end Galley
