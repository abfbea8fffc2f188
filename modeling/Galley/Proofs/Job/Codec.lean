import Galley.Job.Codec
import Galley.Proofs.Json.Lexing
import Galley.Proofs.Json.Records
import Galley.Proofs.Json.RoundTrip
/-!
# Jobs read back from JSON

Jobs, steps and options carry numbers of 32 and 64 bits; where these are in their ranges, the
written form is plain and is decoded to what was written. A written job is no step's job and the
other way round, since each lacks members that the other must have. Main statements: one round trip
for each codec.
-/
namespace Galley

open Json Json.Fields Json.Decoder

/-! ### Ranges -/

def Step.InRange (s : Step) : Prop := s.step ≤ Text.Numeral.maxU32

def Recipe.InRange (r : Recipe) : Prop := ∀ s ∈ r.steps, s.InRange

/-- Whether the numbers of a job have the widths that they are kept with. -/
structure Job.InRange (j : Job) : Prop where
  timeout : j.containerTimeoutSecs ≤ Text.Numeral.maxU64
  recipe : j.recipe.InRange
  recipients : ∀ n ∈ j.recipients, Text.Numeral.minI64 ≤ n ∧ n ≤ Text.Numeral.maxI64

def StepJob.InRange (s : StepJob) : Prop := s.step.InRange ∧ s.job.InRange

def Task.InRange : Task → Prop
  | .recipe job => job.InRange
  | .step s => s.InRange

def Options.InRange (o : Options) : Prop :=
  o.maxRetries ≤ Text.Numeral.maxU32 ∧ o.retryInterval ≤ Text.Numeral.maxU64

theorem Options.default_inRange : Options.default.InRange := by
  simp [Options.InRange, Options.default]

/-! ### Plain values -/

namespace Json

theorem plain_nat {n : Nat} (h : n ≤ Text.Numeral.maxU64) : (Json.nat n).Plain := by
  rw [Json.nat, Plain, Text.Numeral.minI64]
  omega

theorem plain_strings (ss : List String) : (Json.strings ss).Plain := by
  rw [strings, Plain, plainItems_iff]
  intro j hj
  obtain ⟨s, -, rfl⟩ := List.mem_map.mp hj
  trivial

theorem plain_array_map {α : Type} {encode : α → Json} {as : List α}
    (h : ∀ a ∈ as, (encode a).Plain) : (Json.array (as.map encode)).Plain := by
  rw [Plain, plainItems_iff]
  intro j hj
  obtain ⟨a, ha, rfl⟩ := List.mem_map.mp hj
  exact h a ha

theorem plainMembers_append {ms ns : List (String × Json)} (h : PlainMembers ms)
    (h' : PlainMembers ns) : PlainMembers (ms ++ ns) := by
  rw [plainMembers_iff] at h h' ⊢
  intro m hm
  exact (List.mem_append.mp hm).elim (h m) (h' m)

theorem plainMembers_memberUnless {empty : Bool} {key : String} {value : Json}
    (h : value.Plain) : PlainMembers (memberUnless empty key value) := by
  unfold memberUnless
  split
  · trivial
  · exact ⟨h, trivial⟩

end Json

/-! ### Steps and recipes -/

theorem Step.plain_encode {s : Step} (h : s.InRange) : s.encode.Plain := by
  have number : (Json.nat s.step).Plain := plain_nat (by
    simp only [Step.InRange, Text.Numeral.maxU32] at h
    simp only [Text.Numeral.maxU64]
    omega)
  refine plainMembers_append (plainMembers_append (plainMembers_append (plainMembers_append
    (plainMembers_append (plainMembers_append ⟨number, trivial, trivial, trivial⟩ ?_) ?_) ?_) ?_)
    ?_) ⟨trivial, trivial, trivial⟩
  · exact plainMembers_memberUnless trivial
  all_goals exact plainMembers_memberUnless (plain_strings _)

theorem eq_nil_of_isEmpty {α : Type} {as : List α} (h : as.isEmpty = true) : [] = as :=
  (List.isEmpty_iff.mp h).symm

theorem eq_empty_of_isEmpty {s : String} (h : s.isEmpty = true) : "" = s :=
  (String.isEmpty_iff.mp h).symm

theorem Step.decode_encode {s : Step} (h : s.InRange) : Step.decode s.encode = .ok s := by
  have writes := ((writes_field "step" (u32_nat h)).map Step.mk)
    |>.field "name" (string_string s.name) (by decide)
    |>.field "image" (string_string s.image) (by decide)
    |>.unless "registry_auth" (string_string s.registryAuth) eq_empty_of_isEmpty (by decide)
    |>.unless "entrypoint" (list_strings s.entrypoint) eq_nil_of_isEmpty (by decide)
    |>.unless "command" (list_strings s.command) eq_nil_of_isEmpty (by decide)
    |>.unless "env" (list_strings s.env) eq_nil_of_isEmpty (by decide)
    |>.unless "environment" (list_strings s.environment) eq_nil_of_isEmpty (by decide)
    |>.field "do" (string_string s.trigger) (by decide)
    |>.fieldD "timeout" "" (string_string s.timeout) (by decide)
  simp only [List.append_assoc, List.cons_append, List.nil_append] at writes
  rw [Step.encode]
  simp only [List.append_assoc, List.cons_append, List.nil_append]
  exact record_object writes

theorem FormField.plain_encode (f : FormField) : f.encode.Plain :=
  plainMembers_append (plainMembers_append (plainMembers_append
    (plainMembers_memberUnless trivial) (plainMembers_memberUnless trivial))
    (plainMembers_memberUnless trivial)) ⟨trivial, trivial⟩

theorem FormField.decode_encode (f : FormField) : FormField.decode f.encode = .ok f := by
  have writes := ((writes_memberUnless "variable" (string_string f.variableName)
      eq_empty_of_isEmpty).map FormField.mk)
    |>.unless "name" (string_string f.name) eq_empty_of_isEmpty (by decide)
    |>.unless "description" (string_string f.description) eq_empty_of_isEmpty (by decide)
    |>.fieldD "type" "" (string_string f.kind) (by decide)
  exact record_object writes

theorem Recipe.plain_encode {r : Recipe} (h : r.InRange) : r.encode.Plain := by
  have steps : (Json.array (r.steps.map Step.encode)).Plain :=
    plain_array_map fun s hs => Step.plain_encode (h s hs)
  have form : (Json.array (r.form.map FormField.encode)).Plain :=
    plain_array_map fun f _ => f.plain_encode
  exact plainMembers_append (plainMembers_append (plainMembers_append ⟨trivial, trivial⟩
    (plainMembers_memberUnless trivial)) (plainMembers_memberUnless form)) ⟨steps, trivial⟩

/-- A recipe's name is written under the first of its two keys. -/
theorem Recipe.decode_encode {r : Recipe} (h : r.InRange) : Recipe.decode r.encode = .ok r := by
  have named : (fieldWith ["recipe", "name"] Decoder.string none).Writes r.name
      [("recipe", .string r.name)] :=
    writes_fieldWith rfl (by simp) (string_string r.name)
  have form : list FormField.decode (.array (r.form.map FormField.encode)) = .ok r.form :=
    list_array fun f _ => f.decode_encode
  have steps : list Step.decode (.array (r.steps.map Step.encode)) = .ok r.steps :=
    list_array fun s hs => Step.decode_encode (h s hs)
  have writes := (named.map Recipe.mk)
    |>.unless "description" (string_string r.description) eq_empty_of_isEmpty (by decide)
    |>.unless "form" form eq_nil_of_isEmpty (by decide)
    |>.fieldD "steps" [] steps (by decide)
  exact record_object writes

/-! ### Jobs -/

theorem Entity.decode_encode (e : Entity) : Entity.decode e.encode = .ok e := by
  cases e <;> rfl

theorem Job.plain_encode {j : Job} (h : j.InRange) : j.encode.Plain := by
  have timeout := plain_nat h.timeout
  have recipients : (Json.array (j.recipients.map Json.int)).Plain :=
    plain_array_map fun n hn => by
      have := h.recipients n hn
      simp only [Json.int, Plain, Text.Numeral.maxI64, Text.Numeral.maxU64] at this ⊢
      omega
  exact plainMembers_append ⟨trivial, trivial, trivial, trivial, trivial, trivial, trivial,
    trivial, trivial, plain_strings _, timeout, Recipe.plain_encode h.recipe, trivial⟩
    (plainMembers_memberUnless recipients)

theorem Job.decode_encode {j : Job} (h : j.InRange) : Job.decode j.encode = .ok j := by
  have recipients : list i64 (.array (j.recipients.map Json.int)) = .ok j.recipients :=
    list_array fun n hn => i64_int (h.recipients n hn).1 (h.recipients n hn).2
  have writes := ((writes_field "job_type" j.entity.decode_encode).map Job.mk)
    |>.field "uuid" (string_string j.uuid) (by decide)
    |>.fieldD "cookbook_id" "" (string_string j.cookbookId) (by decide)
    |>.fieldD "app_id" "" (string_string j.appId) (by decide)
    |>.field "user_id" (string_string j.userId) (by decide)
    |>.fieldD "username" "" (string_string j.username) (by decide)
    |>.field "page_id" (string_string j.pageId) (by decide)
    |>.fieldD "step_id" "" (string_string j.stepId) (by decide)
    |>.field "scope" (string_string j.scope) (by decide)
    |>.fieldD "env" [] (list_strings j.env) (by decide)
    |>.fieldD "container_timeout_secs" 0 (u64_nat h.timeout) (by decide)
    |>.field "recipe" (Recipe.decode_encode h.recipe) (by decide)
    |>.unless "recipient_user_ids" recipients eq_nil_of_isEmpty (by decide)
  exact record_object writes

theorem StepJob.plain_encode {s : StepJob} (h : s.InRange) : s.encode.Plain :=
  ⟨Step.plain_encode h.1, Job.plain_encode h.2, trivial⟩

theorem StepJob.decode_encode {s : StepJob} (h : s.InRange) : StepJob.decode s.encode = .ok s := by
  have writes := ((writes_field "step" (Step.decode_encode h.1)).map StepJob.mk)
    |>.field "recipe_job" (Job.decode_encode h.2) (by decide)
  exact record_object writes

theorem Options.plain_encode {o : Options} (h : o.InRange) : o.encode.Plain := by
  have retries : (Json.nat o.maxRetries).Plain := plain_nat (by
    have := h.1
    simp only [Text.Numeral.maxU32, Text.Numeral.maxU64] at this ⊢
    omega)
  exact ⟨retries, plain_nat h.2, trivial, trivial, trivial⟩

theorem Options.decode_encode {o : Options} (h : o.InRange) : Options.decode o.encode = .ok o := by
  have writes := ((writes_field "MaxRetries" (u32_nat h.1)).map Options.mk)
    |>.field "RetryInterval" (u64_nat h.2) (by decide)
    |>.field "Replace" (bool_bool o.replace) (by decide)
    |>.field "Suspended" (bool_bool o.suspended) (by decide)
  exact record_object writes

/-! ### The two kinds of jobs -/

/-- A written job has no step of its own. -/
theorem StepJob.decode_job_ne_ok (j : Job) (s : StepJob) : StepJob.decode j.encode ≠ .ok s := by
  have demands := Demands.seq_left (x := field "recipe_job" Job.decode)
    ((demands_field "step" Step.decode).map StepJob.mk)
  refine record_object_ne_ok demands ?_ s
  have other : "step" ∉ (memberUnless j.recipients.isEmpty "recipient_user_ids"
      (.array (j.recipients.map Json.int))).map Prod.fst := by
    unfold memberUnless
    split <;> simp
  rw [List.map_append, List.mem_append]
  exact fun h => h.elim (by simp) other

/-- A written step's job does not say what it belongs to. -/
theorem Job.decode_stepJob_ne_ok (s : StepJob) (j : Job) : Job.decode s.encode ≠ .ok j := by
  have demands : Demands _ _ := (demands_field "job_type" Entity.decode).map Job.mk
    |>.seq_left (x := field "uuid" string)
    |>.seq_left (x := fieldD "cookbook_id" string "")
    |>.seq_left (x := fieldD "app_id" string "")
    |>.seq_left (x := field "user_id" string)
    |>.seq_left (x := fieldD "username" string "")
    |>.seq_left (x := field "page_id" string)
    |>.seq_left (x := fieldD "step_id" string "")
    |>.seq_left (x := field "scope" string)
    |>.seq_left (x := fieldD "env" (list string) [])
    |>.seq_left (x := fieldD "container_timeout_secs" u64 0)
    |>.seq_left (x := field "recipe" Recipe.decode)
    |>.seq_left (x := fieldD "recipient_user_ids" (list i64) [])
  exact record_object_ne_ok demands (by simp) j

theorem Task.plain_encode {t : Task} (h : t.InRange) : t.encode.Plain := by
  cases t with
  | recipe job => exact Job.plain_encode h
  | step s => exact StepJob.plain_encode h

end Galley
