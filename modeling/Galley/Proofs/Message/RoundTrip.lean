import Galley.Message.Catalog
import Galley.Message.Progress
import Galley.Message.Rpc
import Galley.Proofs.Cookbook.Codec
import Galley.Proofs.Json.Freeform
/-!
# Messages read back

What goes over the wire is written as a compact text. Progress, requests, responses, tools, calls of
tools and cookbooks are read back from their texts as they were, but for an optional value of null,
which comes back as none. Main statement: one round trip for all of them.
-/
namespace Galley

open Json Json.Fields Json.Decoder

/-! ### Optional members -/

namespace Rpc

theorem plainMembers_optional {key : String} {value : Option Json} (h : ∀ j ∈ value, j.Plain) :
    PlainMembers (optional key value) := by
  cases value with
  | none => trivial
  | some j => exact ⟨h j rfl, trivial⟩

variable {α β : Type}

/-- An optional member writes what its value is decoded to, and none when it is left out. -/
theorem writes_optional (key : String) {decode : Decoder α} {value : Option Json} {a : Option α}
    (present : ∀ j ∈ value, option decode j = .ok a) (absent : value = none → a = none) :
    (field? key decode).Writes a (optional key value) := by
  cases value with
  | none =>
    rw [absent rfl]
    exact writes_absent
  | some j => exact writes_field? key (present j rfl)

theorem writes_andOptional {f : Fields (Option α → β)} {g : Option α → β}
    {ms : List (String × Json)} (hf : f.Writes g ms) (key : String) {decode : Decoder α}
    {value : Option Json} {a : Option α} (present : ∀ j ∈ value, option decode j = .ok a)
    (absent : value = none → a = none) (fresh : f.names.contains key = false) :
    (f <*> field? key decode).Writes (g a) (ms ++ optional key value) :=
  hf.seq (writes_optional key present absent) fun n hn => by
    obtain rfl : n = key := by simpa [Fields.names, Fields.field?, fieldWith] using hn
    simpa using fresh

/-- A free-form member, of which null counts as none. -/
theorem option_freeform_of_mem {value : Option Json} (h : ∀ j ∈ value, j.IsFreeform) :
    ∀ j ∈ value, option freeform j = .ok (withoutNull value) := by
  rintro j rfl
  exact option_freeform (h j rfl)

theorem withoutNull_of_none {value : Option Json} (h : value = none) : withoutNull value = none := by
  rw [h]
  rfl

/-! ### Requests -/

structure Request.IsFreeform (r : Request) : Prop where
  id : ∀ j ∈ r.id, j.IsFreeform
  params : ∀ j ∈ r.params, j.IsFreeform

/-- The request as it comes back. -/
def Request.withoutNulls (r : Request) : Request :=
  { r with id := withoutNull r.id, params := withoutNull r.params }

namespace Request

variable {r : Request}

theorem plain_encode (h : r.IsFreeform) : r.encode.Plain := by
  refine plainMembers_append (plainMembers_append (plainMembers_append ⟨trivial, trivial⟩ ?_) ?_) ?_
  · exact plainMembers_optional fun j hj => (h.id j hj).plain
  · exact plainMembers_memberUnless trivial
  · exact plainMembers_optional fun j hj => (h.params j hj).plain

theorem decode_encode (h : r.IsFreeform) : decode r.encode = .ok r.withoutNulls := by
  have version : (fieldD "jsonrpc" string "").Writes r.jsonrpc [("jsonrpc", .string r.jsonrpc)] :=
    writes_fieldD "jsonrpc" (string_string r.jsonrpc)
  have first := writes_andOptional (version.map Request.mk) "id" (option_freeform_of_mem h.id)
    withoutNull_of_none (by decide)
  have second := first.unless "method" (string_string r.method) eq_empty_of_isEmpty (by decide)
  have writes := writes_andOptional second "params" (option_freeform_of_mem h.params)
    withoutNull_of_none (by decide)
  exact record_object writes

end Request

/-! ### Responses -/

structure Response.IsFreeform (r : Response) : Prop where
  id : ∀ j ∈ r.id, j.IsFreeform
  result : ∀ j ∈ r.result, j.IsFreeform

/-- The response as it comes back. -/
def Response.withoutNulls (r : Response) : Response :=
  { r with id := withoutNull r.id, result := withoutNull r.result }

namespace Response

variable {r : Response}

theorem plain_encode (h : r.IsFreeform) : r.encode.Plain := by
  refine plainMembers_append (plainMembers_append (plainMembers_append ⟨trivial, trivial⟩ ?_) ?_) ?_
  · exact plainMembers_optional fun j hj => (h.id j hj).plain
  · exact plainMembers_optional fun j hj => (h.result j hj).plain
  · refine plainMembers_optional fun j hj => ?_
    obtain ⟨message, -, rfl⟩ := Option.map_eq_some_iff.mp hj
    trivial

theorem decode_encode (h : r.IsFreeform) : decode r.encode = .ok r.withoutNulls := by
  have error : ∀ j ∈ r.error.map Json.string, option string j = .ok r.error := by
    intro j hj
    obtain ⟨message, same, rfl⟩ := Option.map_eq_some_iff.mp hj
    rw [same]
    rfl
  have first := writes_andOptional
    ((writes_field "jsonrpc" (string_string r.jsonrpc)).map Response.mk) "id"
    (option_freeform_of_mem h.id) withoutNull_of_none (by decide)
  have second := writes_andOptional first "result" (option_freeform_of_mem h.result)
    withoutNull_of_none (by decide)
  have writes := writes_andOptional second "error" error Option.map_eq_none_iff.mp (by decide)
  exact record_object writes

end Response

end Rpc

/-! ### Progress -/

namespace Progress

theorem plain_encode (m : Progress) : m.encode.Plain :=
  ⟨trivial, trivial, trivial, trivial, trivial, trivial⟩

theorem decode_encode (m : Progress) : decode m.encode = .ok m := by
  have writes := ((writes_field "PageID" (string_string m.pageId)).map Progress.mk)
    |>.field "UUID" (string_string m.uuid) (by decide)
    |>.field "ViewType" (string_string m.viewType) (by decide)
    |>.field "Cmd" (string_string m.command) (by decide)
    |>.field "Msg" (string_string m.payload) (by decide)
  exact record_object writes

end Progress

/-! ### Tools -/

namespace Catalog

theorem ToolCall.plain_encode {c : ToolCall} (h : c.arguments.IsFreeform) : c.encode.Plain :=
  ⟨trivial, h.plain, trivial⟩

theorem ToolCall.decode_encode {c : ToolCall} (h : c.arguments.IsFreeform) :
    ToolCall.decode c.encode = .ok c := by
  have writes := ((writes_field "name" (string_string c.name)).map ToolCall.mk)
    |>.fieldD "arguments" .null (freeform_eq_self h) (by decide)
  exact record_object writes

theorem Tool.plain_encode {t : Tool} (h : t.inputSchema.IsFreeform) : t.encode.Plain :=
  plainMembers_append (plainMembers_append ⟨trivial, trivial⟩ (plainMembers_memberUnless trivial))
    (plainMembers_memberUnless h.plain)

theorem eq_null_of_isNull {j : Json} (h : j.isNull = true) : Json.null = j := by
  cases j with
  | null => rfl
  | _ => cases h

theorem Tool.decode_encode {t : Tool} (h : t.inputSchema.IsFreeform) :
    Tool.decode t.encode = .ok t := by
  have writes := ((writes_field "name" (string_string t.name)).map Tool.mk)
    |>.unless "description" (string_string t.description) eq_empty_of_isEmpty (by decide)
    |>.unless "inputSchema" (freeform_eq_self h) eq_null_of_isNull (by decide)
  exact record_object writes

end Catalog

/-! ### Texts -/

theorem Json.decoded_compact {α : Type} {decode : Decoder α} {j : Json} {a : α} (plain : j.Plain)
    (h : decode j = .ok a) : (ofText? j.compact).map decode = some (.ok a) := by
  rw [ofText?_compact plain, Option.map_some, h]

open Catalog Rpc in
/-- Whatever goes over the wire is read back from its text. The one change is that an optional value
of null comes back as none. -/
theorem messages_read_back :
    (∀ m : Progress, (ofText? m.text).map Progress.decode = some (.ok m)) ∧
    (∀ r : Request, r.IsFreeform →
      (ofText? r.encode.compact).map Request.decode = some (.ok { r with
        id := withoutNull r.id, params := withoutNull r.params })) ∧
    (∀ r : Response, r.IsFreeform →
      (ofText? r.text).map Response.decode = some (.ok { r with
        id := withoutNull r.id, result := withoutNull r.result })) ∧
    (∀ c : ToolCall, c.arguments.IsFreeform →
      (ofText? c.encode.compact).map ToolCall.decode = some (.ok c)) ∧
    (∀ t : Tool, t.inputSchema.IsFreeform →
      (ofText? t.encode.compact).map Tool.decode = some (.ok t)) ∧
    ∀ book : Cookbook, book.InRange → Cookbook.ofText? book.encode.compact = some book := by
  refine ⟨fun m => ?_, fun r h => ?_, fun r h => ?_, fun c h => ?_, fun t h => ?_, fun book h => ?_⟩
  · exact decoded_compact m.plain_encode m.decode_encode
  · exact decoded_compact (Request.plain_encode h) (Request.decode_encode h)
  · exact decoded_compact (Response.plain_encode h) (Response.decode_encode h)
  · exact decoded_compact (ToolCall.plain_encode h) (ToolCall.decode_encode h)
  · exact decoded_compact (Tool.plain_encode h) (Tool.decode_encode h)
  · exact Cookbook.ofText?_compact h

/-- A free-form value with one of each kind in it. -/
def assorted : Json :=
  .object [("no", .null), ("some", .array [.bool true, .int (-1), .string "a\n\""]),
    ("void", .object [])]

theorem assorted_isFreeform : assorted.IsFreeform where
  plain := ⟨trivial, ⟨trivial, ⟨by decide, by decide⟩, trivial, trivial⟩, trivial, trivial⟩
  ordered := ⟨by decide, trivial, ⟨trivial, trivial, trivial, trivial⟩, ⟨.nil, trivial⟩, trivial⟩
  shallow := by decide

open Catalog Rpc in
theorem messages_read_back_assorted :
    (ofText? (Request.encode ⟨version, some .null, "lemc.run", some assorted⟩).compact).map
      Request.decode = some (.ok ⟨version, none, "lemc.run", some assorted⟩) ∧
    (ofText? (Response.text ⟨version, some assorted, some .null, none⟩)).map Response.decode =
      some (.ok ⟨version, some assorted, none, none⟩) ∧
    (ofText? (ToolCall.encode ⟨runRecipeTool, assorted⟩).compact).map ToolCall.decode =
      some (.ok ⟨runRecipeTool, assorted⟩) ∧
    (ofText? (Tool.encode ⟨runRecipeTool, "", assorted⟩).compact).map Tool.decode =
      some (.ok ⟨runRecipeTool, "", assorted⟩) ∧
    Cookbook.ofText? (Cookbook.encode ⟨⟨[], []⟩, [⟨3, "", []⟩], [(2, "aGk="), (10, "")]⟩).compact =
      some ⟨⟨[], []⟩, [⟨3, "", []⟩], [(2, "aGk="), (10, "")]⟩ := by
  have null : Json.null.IsFreeform := ⟨trivial, trivial, by decide⟩
  have value (j : Json) (h : j.IsFreeform) : ∀ k ∈ some j, k.IsFreeform := by
    rintro k ⟨⟩
    exact h
  obtain ⟨-, request, response, call, tool, book⟩ := messages_read_back
  refine ⟨request _ ⟨value _ null, value _ assorted_isFreeform⟩,
    response _ ⟨value _ assorted_isFreeform, value _ null⟩, call _ assorted_isFreeform,
    tool _ assorted_isFreeform, book _ ⟨?_, ?_, ?_⟩⟩
  · simp [Page.InRange, Text.Numeral.maxU32]
  · simp [Text.Numeral.maxU32]
  · simp

end Galley
