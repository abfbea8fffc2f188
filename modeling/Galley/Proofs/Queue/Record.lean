import Galley.Proofs.Job.Codec
import Galley.Proofs.Trigger.Text
import Galley.Queue.Record
/-!
# Records read back

A written record is read in every queue that holds its kind of job and refused in every other. What
comes back is what was written, up to the part of a trigger's duration that 64 bits do not hold.
-/
namespace Galley

open Json Json.Fields Json.Decoder

/-- Whether the numbers of a filed task have the widths that they are kept with. -/
structure Filed.InRange (f : Filed) : Prop where
  task : f.task.InRange
  options : f.options.InRange
  early : Text.Numeral.minI64 ≤ f.nextRun
  late : f.nextRun ≤ Text.Numeral.maxI64

/-- The task as it comes back from a record. -/
def Filed.capped (f : Filed) : Filed :=
  { f with trigger := f.trigger.capped }

theorem Filed.InRange.capped {f : Filed} (h : f.InRange) : f.capped.InRange :=
  ⟨h.task, h.options, h.early, h.late⟩

namespace Record

/-- The kinds of jobs are told apart by what they must have. -/
theorem decodeTask_encode {t : Task} (h : t.InRange) (q : QueueName) (t' : Task) :
    decodeTask q t.encode = .ok t' ↔ t' = t ∧ t.isStep = decide (q ≠ .now) := by
  have recipe (job : Job) (hj : job.InRange) :
      (Job.decode job.encode).map Task.recipe = .ok (.recipe job) := by
    rw [Job.decode_encode hj]
    rfl
  have step (s : StepJob) (hs : s.InRange) :
      (StepJob.decode s.encode).map Task.step = .ok (.step s) := by
    rw [StepJob.decode_encode hs]
    rfl
  have noRecipe (s : StepJob) : (Job.decode s.encode).map Task.recipe ≠ .ok t' := fun hk => by
    cases hd : Job.decode s.encode with
    | error e =>
      rw [hd] at hk
      exact nomatch hk
    | ok j => exact Job.decode_stepJob_ne_ok s j hd
  have noStep (job : Job) : (StepJob.decode job.encode).map Task.step ≠ .ok t' := fun hk => by
    cases hd : StepJob.decode job.encode with
    | error e =>
      rw [hd] at hk
      exact nomatch hk
    | ok s => exact StepJob.decode_job_ne_ok job s hd
  cases t with
  | recipe job =>
    have hr := recipe job h
    cases q with
    | now => simp [decodeTask, Task.encode, hr, Task.isStep, eq_comm]
    | delayed => simp [decodeTask, Task.encode, noStep job, Task.isStep]
    | recurring => simp [decodeTask, Task.encode, noStep job, Task.isStep]
  | step s =>
    have hs := step s h
    cases q with
    | now => simp [decodeTask, Task.encode, noRecipe s, Task.isStep]
    | delayed => simp [decodeTask, Task.encode, hs, Task.isStep, eq_comm]
    | recurring => simp [decodeTask, Task.encode, hs, Task.isStep, eq_comm]

theorem fits_eq (f : Filed) (q : QueueName) :
    f.fits q = true ↔ f.task.isStep = decide (q ≠ .now) := by
  cases q <;> simp [Filed.fits]

theorem plain_encode {f : Filed} (h : f.InRange) : (encode f).Plain := by
  have time : (Json.int f.nextRun).Plain := by
    have := h.late
    simp only [Json.int, Plain, Text.Numeral.maxI64, Text.Numeral.maxU64] at this ⊢
    exact ⟨h.early, by omega⟩
  exact ⟨Task.plain_encode h.task, trivial, trivial, trivial, Options.plain_encode h.options,
    trivial, time, trivial⟩

/-- The fields of a record whose task is read. -/
theorem decodeRaw_encode {f : Filed} (h : f.InRange) {q : QueueName}
    (task : decodeTask q f.task.encode = .ok f.task) :
    decodeRaw q (encode f) = .ok ⟨f.task, f.key, f.task.description, f.group, some f.options,
      f.trigger.text, f.nextRun⟩ := by
  have options : Decoder.option Options.decode f.options.encode = .ok (some f.options) := by
    have := Options.decode_encode h.options
    simp only [Options.encode] at this ⊢
    simp only [Decoder.option, this]
    rfl
  have writes := ((writes_field "job" task).map Raw.mk)
    |>.field "job_key" (string_string f.key) rfl
    |>.fieldD "description" "" (string_string f.task.description) rfl
    |>.fieldD "group" "" (string_string f.group) rfl
    |>.field? "job_options" options rfl
    |>.field "trigger" (string_string f.trigger.text) rfl
    |>.field "next_run_time" (i64_int h.early h.late) rfl
  exact record_object writes

/-- A record is refused when its task is. -/
theorem decodeRaw_encode_ne_ok {f : Filed} {q : QueueName}
    (task : ∀ t, decodeTask q f.task.encode ≠ .ok t) (raw : Raw) :
    decodeRaw q (encode f) ≠ .ok raw := by
  have demands : Demands _ _ := (demands_value "job" (decodeTask q)).map Raw.mk
    |>.seq_left (x := field "job_key" string)
    |>.seq_left (x := fieldD "description" string "")
    |>.seq_left (x := fieldD "group" string "")
    |>.seq_left (x := field? "job_options" Options.decode)
    |>.seq_left (x := field "trigger" string)
    |>.seq_left (x := field "next_run_time" i64)
  refine record_object_ne_ok demands ?_ raw
  rintro ⟨m, t, hm, ht⟩
  obtain rfl : ("job", f.task.encode) = m := by simpa using hm
  exact task t ht

/-- The bytes are a JSON text that is a record of the queue, with these fields. -/
def IsRaw (q : QueueName) (bytes : List UInt8) (raw : Raw) : Prop :=
  ∃ j, Json.ofBytes? bytes = some j ∧ decodeRaw q j = .ok raw

/-- A record is read when its trigger is. -/
theorem decode_eq_ok_iff {q : QueueName} {bytes : List UInt8} {f : Filed} :
    decode q bytes = .ok f ↔ ∃ raw t, IsRaw q bytes raw ∧ Trigger.parse raw.trigger = .ok t ∧
      f = ⟨raw.task, raw.key, raw.group, raw.options.getD .default, t, raw.nextRun⟩ := by
  constructor
  · intro h
    unfold decode at h
    split at h
    · exact nomatch h
    · next j text =>
      unfold ofJson at h
      split at h
      · exact nomatch h
      · next raw fields =>
        unfold ofRaw at h
        split at h
        · exact nomatch h
        · next t parsed => exact ⟨raw, t, ⟨j, text, fields⟩, parsed, (Except.ok.inj h).symm⟩
  · rintro ⟨raw, t, ⟨j, text, fields⟩, parsed, rfl⟩
    simp only [decode, text, ofJson, fields, ofRaw, parsed]

/-- What a written record is read as, in the queues of its kind of job. -/
theorem decode_bytes_of_fits {f : Filed} (h : f.InRange) {q : QueueName} (fits : f.fits q = true) :
    decode q (bytes f) = .ok f.capped := by
  have task := (decodeTask_encode h.task q f.task).mpr ⟨rfl, (fits_eq f q).mp fits⟩
  rw [decode, bytes, text, ofBytes?_utf8_pretty (plain_encode h)]
  simp only [ofJson, decodeRaw_encode h task, ofRaw, Trigger.parse_text]
  rfl

theorem decode_bytes_of_not_fits {f : Filed} (h : f.InRange) {q : QueueName}
    (fits : f.fits q ≠ true) (g : Filed) : decode q (bytes f) ≠ .ok g := by
  have task (t : Task) : decodeTask q f.task.encode ≠ .ok t := fun ht =>
    fits ((fits_eq f q).mpr ((decodeTask_encode h.task q t).mp ht).2)
  rw [decode, bytes, text, ofBytes?_utf8_pretty (plain_encode h)]
  cases hd : decodeRaw q (encode f) with
  | error e => simp [ofJson, hd]
  | ok raw => exact absurd hd (decodeRaw_encode_ne_ok task raw)

/-- Records are read back exactly in the queues of their kind of job, with all they were written
with but the part of the trigger's duration beyond 64 bits. -/
theorem decode_bytes_iff {f : Filed} (h : f.InRange) (q : QueueName) :
    ((∃ g, decode q (bytes f) = .ok g) ↔ f.fits q = true) ∧
      ∀ g, decode q (bytes f) = .ok g → g = { f with trigger := f.trigger.capped } := by
  have refused (fits : f.fits q ≠ true) (g : Filed) : decode q (bytes f) ≠ .ok g :=
    decode_bytes_of_not_fits h fits g
  refine ⟨⟨fun ⟨g, hg⟩ => ?_, fun fits => ⟨_, decode_bytes_of_fits h fits⟩⟩, fun g hg => ?_⟩
  · by_contra fits
    exact refused fits g hg
  · by_cases fits : f.fits q = true
    · rw [decode_bytes_of_fits h fits] at hg
      exact (Except.ok.inj hg).symm
    · exact absurd hg (refused fits g)

/-- A recipe with a delay that 64 bits do not hold. -/
def longDelayed : Filed where
  task := .recipe ⟨.app, "u-1", "", "crêpe", "ann", "", "p-2", "", "shared", ["A=\n\"ß\""], 60,
    ⟨"brunch", "", [], [⟨1, "beat", "eggs", "", [], [], [], [], "now", ""⟩]⟩, [-7]⟩
  key := "[app][shared][appid:crêpe][page:p-2][uuid:u-1][queue:now]"
  group := "⇶"
  options := .default
  trigger := .once (.ofSeconds Text.Numeral.maxU64)
  nextRun := -1

theorem longDelayed_inRange : longDelayed.InRange where
  task := by
    refine ⟨by decide, fun s hs => ?_, by simp [Text.Numeral.minI64, Text.Numeral.maxI64]⟩
    obtain rfl := List.mem_singleton.mp hs
    exact (by decide : (1 : Nat) ≤ Text.Numeral.maxU32)
  options := Options.default_inRange
  early := by decide
  late := by decide

theorem decode_bytes_longDelayed : longDelayed.InRange ∧
    ((∃ g, decode .now (bytes longDelayed) = .ok g) ↔ longDelayed.fits .now = true) ∧
      ∀ g, decode .now (bytes longDelayed) = .ok g →
        g = { longDelayed with trigger := longDelayed.trigger.capped } :=
  ⟨longDelayed_inRange, decode_bytes_iff longDelayed_inRange .now⟩

end Record

end Galley
