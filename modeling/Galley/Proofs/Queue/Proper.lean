import Galley.Execution
import Galley.Proofs.Job.Key
import Galley.Proofs.Json.Values
import Galley.Proofs.Queue.Record
import Galley.Submission
/-!
# Tasks as the program files them

The program files a task under the key of its job for the queue, after the submission of the job was
checked. Such a task passes the check of its queue, and it stays so when its time is changed or when
it is read back from a record. Main statements: submissions and steps file such tasks.
-/
namespace Galley

/-- A task as it is filed in a queue by the program itself. -/
structure Filed.Proper (q : QueueName) (f : Filed) : Prop where
  inRange : f.InRange
  check : Queue.check q f = .ok ()
  key : f.task.job.key q = .ok f.key
  submitted : f.task.job.validateSubmission = .ok ()
  once : q ≠ .recurring → ∃ delay expired, f.trigger = .runOnce delay expired

/-! ### Checks -/

theorem requireText_ok {text field detail : String} :
    requireText text field detail = .ok () ↔ text ≠ "" := by
  unfold requireText
  split <;> simp_all

theorem Job.validateSubmission_iff {job : Job} : job.validateSubmission = .ok () ↔
    job.validate = .ok () ∧ ∀ s ∈ job.recipe.steps, s.validate = .ok () := by
  unfold Job.validateSubmission
  rw [bind_eq_ok]
  constructor
  · rintro ⟨⟨⟩, h, h'⟩
    exact ⟨h, forM_eq_ok.mp h'⟩
  · rintro ⟨h, h'⟩
    exact ⟨(), h, forM_eq_ok.mpr h'⟩

theorem Step.texts_of_validate {s : Step} (h : s.validate = .ok ()) : s.name ≠ "" ∧ s.image ≠ "" := by
  unfold Step.validate at h
  obtain ⟨⟨⟩, hn, h⟩ := bind_eq_ok.mp h
  obtain ⟨⟨⟩, hi, -⟩ := bind_eq_ok.mp h
  exact ⟨requireText_ok.mp hn, requireText_ok.mp hi⟩

theorem Step.parse_of_validate {s : Step} (h : s.validate = .ok ()) :
    ∃ t, StepTrigger.parse s.trigger = .ok t := by
  unfold Step.validate at h
  obtain ⟨⟨⟩, -, h⟩ := bind_eq_ok.mp h
  obtain ⟨⟨⟩, -, h⟩ := bind_eq_ok.mp h
  split at h
  · exact nomatch h
  · next t ht => exact ⟨t, ht⟩

theorem StepJob.validate_eq_ok {s : StepJob} (name : s.step.name ≠ "") (image : s.step.image ≠ "")
    (job : s.job.validate = .ok ()) : s.validate = .ok () := by
  unfold StepJob.validate
  rw [requireText_ok.mpr name, requireText_ok.mpr image]
  exact job

theorem Job.key_ne_empty {job : Job} {q : QueueName} {key : String} (h : job.key q = .ok key) :
    key ≠ "" := by
  rintro rfl
  have last := keyEnd_suffix h
  cases q <;> exact absurd last (by decide)

/-- A task of the queue's kind under a key passes the check when its job does. -/
theorem Queue.check_eq_ok {q : QueueName} {f : Filed} (key : f.key ≠ "") (fits : f.fits q = true)
    (recipe : ∀ job, f.task = .recipe job → job.validate = .ok ())
    (step : ∀ s, f.task = .step s → s.validate = .ok ()) : Queue.check q f = .ok () := by
  have valid : f.validate = .ok () := by
    unfold Filed.validate
    rw [requireText_ok.mpr key]
    cases ht : f.task with
    | recipe job => exact recipe job ht
    | step s => exact step s ht
  rw [Queue.check, valid]
  exact if_pos fits

theorem Queue.fits_of_check {q : QueueName} {f : Filed} (h : Queue.check q f = .ok ()) :
    f.fits q = true := by
  unfold Queue.check at h
  split at h
  · exact nomatch h
  · by_contra fits
    rw [if_neg fits] at h
    exact nomatch h

/-- The check looks at nothing but the key and the job. -/
theorem Queue.check_congr {q : QueueName} {f g : Filed} (task : g.task = f.task)
    (key : g.key = f.key) : Queue.check q g = Queue.check q f := by
  unfold Queue.check Filed.validate
  rw [task, key]
  have fits : g.fits q = f.fits q := by
    cases q <;> simp only [Filed.fits, task]
  rw [fits]

namespace Filed.Proper

variable {q : QueueName} {f : Filed}

/-- Another time in range keeps a task proper. -/
theorem withNextRun (h : f.Proper q) {t : Int} (early : Text.Numeral.minI64 ≤ t)
    (late : t ≤ Text.Numeral.maxI64) : { f with nextRun := t }.Proper q where
  inRange := ⟨h.inRange.task, h.inRange.options, early, late⟩
  check := (Queue.check_congr rfl rfl).trans h.check
  key := h.key
  submitted := h.submitted
  once := h.once

theorem capped (h : f.Proper q) : f.capped.Proper q where
  inRange := h.inRange.capped
  check := (Queue.check_congr rfl rfl).trans h.check
  key := h.key
  submitted := h.submitted
  once hq := by
    obtain ⟨delay, expired, ht⟩ := h.once hq
    exact ⟨delay.capped, expired, by rw [Filed.capped, ht]; rfl⟩

theorem fits (h : f.Proper q) : f.fits q = true := Queue.fits_of_check h.check

theorem exists_recipe (h : f.Proper .now) : ∃ job, f.task = .recipe job := by
  have fits := h.fits
  cases ht : f.task with
  | recipe job => exact ⟨job, rfl⟩
  | step s => simp [Filed.fits, ht, Task.isStep] at fits

theorem exists_step (h : f.Proper q) (hq : q ≠ .now) : ∃ s, f.task = .step s := by
  have fits := h.fits
  cases ht : f.task with
  | step s => exact ⟨s, rfl⟩
  | recipe job => cases q <;> simp_all [Filed.fits, Task.isStep]

theorem not_isNowKey (h : f.Proper q) (hq : q ≠ .now) : ¬ IsNowKey f.key :=
  Job.not_isNowKey hq h.key

theorem isNowKey (h : f.Proper .now) : IsNowKey f.key := ⟨_, h.key⟩

theorem nextFire_eq_none (h : f.Proper .now) (prev now : Int) :
    f.trigger.nextFire prev now = none := by
  obtain ⟨delay, expired, ht⟩ := h.once (by decide)
  rw [ht, Trigger.nextFire_runOnce]

end Filed.Proper

/-! ### What is filed -/

theorem saturate_range (n : Int) : Text.Numeral.minI64 ≤ Text.Numeral.saturate n ∧
    Text.Numeral.saturate n ≤ Text.Numeral.maxI64 := by
  simp only [Text.Numeral.saturate, Text.Numeral.minI64, Text.Numeral.maxI64]
  omega

theorem Submission.filed_proper {job : Job} {key : String} (range : job.InRange)
    (valid : job.validateSubmission = .ok ()) (hkey : job.key .now = .ok key) (now : Int) :
    (filed job key now).Proper .now where
  inRange := ⟨range, ⟨Nat.zero_le _, Nat.zero_le _⟩, (saturate_range _).1, (saturate_range _).2⟩
  check := Queue.check_eq_ok (Job.key_ne_empty hkey) rfl
    (fun _ h => Task.recipe.inj h ▸ (Job.validateSubmission_iff.mp valid).1) fun _ h => nomatch h
  key := hkey
  submitted := valid
  once _ := ⟨_, _, rfl⟩

theorem Execution.stepTask_proper {job : Job} {step : Step} {q : QueueName} {key : String}
    {trigger : Trigger} (range : job.InRange) (valid : job.validateSubmission = .ok ())
    (hs : step ∈ job.recipe.steps) (hq : q ≠ .now) (hkey : job.key q = .ok key)
    (once : q ≠ .recurring → ∃ delay expired, trigger = .runOnce delay expired) (now : Int) :
    (stepTask job step key trigger now).Proper q where
  inRange := ⟨⟨range.recipe step hs, range⟩, Options.default_inRange, (saturate_range _).1,
    (saturate_range _).2⟩
  check := by
    have ⟨whole, steps⟩ := Job.validateSubmission_iff.mp valid
    have ⟨name, image⟩ := Step.texts_of_validate (steps step hs)
    refine Queue.check_eq_ok (Job.key_ne_empty hkey) ?_ (fun _ h => nomatch h) fun s h => ?_
    · cases q <;> first | exact absurd rfl hq | rfl
    · obtain rfl := Task.step.inj h
      exact StepJob.validate_eq_ok name image whole
  key := hkey
  submitted := valid
  once := once

/-- The run of a recipe changes no number of its job. -/
theorem Job.InRange.withEnv {job : Job} (h : job.InRange) (stepId : String) (env : List String) :
    { job with stepId, env }.InRange :=
  ⟨h.timeout, h.recipe, h.recipients⟩

end Galley
