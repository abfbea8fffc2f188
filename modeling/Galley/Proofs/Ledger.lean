import Galley.Proofs.Interleaving
/-!
# The ledger of keys

A key for runs at once is taken before anything is done under it and given up once. The ledger is
the discipline that says so: a call unmarks such a key, files a task under it or evicts it only
while it holds it. Main statement: every call follows the ledger, and one that is over holds nothing
but what it hands on.
-/
namespace Galley

/-! ### Changes of what is held -/

namespace Action

variable (held : List String)

theorem held_pop_ok (q : QueueName) (f : Filed) :
    (pop q).held held (.ok f) = if q = .now then f.key :: held else held := by
  cases q <;> rfl

@[simp] theorem held_pop_error (q : QueueName) (e : QueueError) :
    (pop q).held held (.error e) = held := by
  cases q <;> rfl

theorem held_push_ok (q : QueueName) (f : Filed) (t : Int) :
    (push q f).held held (.ok t) = if q = .now then held.erase f.key else held := by
  cases q <;> rfl

theorem held_refile (q : QueueName) (f : Filed) (r : Except QueueError Int) :
    (refile q f).held held r = (push q f).held held r := by
  cases q <;> cases r <;> rfl

theorem held_refile_ok (q : QueueName) (f : Filed) (t : Int) :
    (refile q f).held held (.ok t) = if q = .now then held.erase f.key else held :=
  (held_refile held q f _).trans (held_push_ok held q f t)

@[simp] theorem held_unmark (key : String) (u : Unit) :
    (unmark key).held held u = held.erase key := rfl

@[simp] theorem held_evict (q : QueueName) (key : String) (r : Except QueueError Nat) :
    (evict q key).held held r = held := rfl

end Action

/-- What a call may do by what it holds. It is promised that queues hand out proper tasks and take
them. -/
def ledger : Discipline (List String) where
  allows held
    | .unmark key => IsNowKey key → key ∈ held
    | .push q f => f.Proper q ∧ (q = .now → f.key ∈ held)
    | .refile q f => f.Proper q ∧ (q = .now → f.key ∈ held)
    | .evict q key => q = .now → key ∈ held
    | _ => True
  promises
    | .pop q, .ok f => f.Proper q
    | .push _ _, r => ∃ t, r = .ok t
    | .refile _ _, r => ∃ t, r = .ok t
    | _, _ => True
  after held a r := a.held held r

theorem ledger_quiet (held : List String) (a : Action) (h : a.IsQuiet) :
    ledger.allows held a ∧ ∀ r, ledger.after held a r = held :=
  ⟨by cases a <;> trivial, Action.held_of_isQuiet held h⟩

/-- What is held when a task was popped from a queue. -/
def Filed.stake (q : QueueName) (f : Filed) : List String :=
  if q = .now then [f.key] else []

theorem erase_own (key : String) : [key].erase key = [] := List.erase_cons_head _ _

open Process

/-- A quiet process holds in the end what it held before. -/
theorem Process.Quiet.ledger {α : Type} {p : Process α} (h : p.Quiet) (held : List String) :
    p.Follows Galley.ledger (fun held' _ => held' = held) held :=
  h.follows ledger_quiet held

/-! ### Looks at a queue -/

namespace Trigger

theorem nextFire_range {t : Trigger} {prev now time : Int} (h : t.nextFire prev now = some time) :
    Text.Numeral.minI64 ≤ time ∧ time ≤ Text.Numeral.maxI64 := by
  cases t with
  | runOnce delay expired => exact nomatch h
  | simple interval =>
    simp only [nextFire] at h
    split at h
    · obtain rfl := Option.some.inj h
      exact saturate_range _
    · obtain rfl := Option.some.inj h
      exact saturate_range _

end Trigger

namespace Dispatch

theorem putBack_follows {q : QueueName} {f : Filed} (hf : f.Proper q) :
    (putBack q f).Follows ledger (fun held _ => held = []) (f.stake q) := by
  unfold putBack
  by_cases hq : q = .now
  · subst hq
    refine ⟨⟨hf, fun _ => List.mem_singleton_self _⟩, fun r hr => ?_⟩
    obtain ⟨t, rfl⟩ := hr
    exact erase_own _
  · rw [Filed.stake, if_neg hq, if_pos hq]
    refine ⟨fun now => absurd now (hf.not_isNowKey hq), fun _ _ => ?_⟩
    refine ⟨⟨hf, fun now => absurd now hq⟩, fun r hr => ?_⟩
    obtain ⟨t, rfl⟩ := hr
    exact (Action.held_refile_ok _ q f t).trans (if_neg hq)

theorem recur_follows {q : QueueName} {f : Filed} (hf : f.Proper q) (now : Int) :
    (recur q f now).Follows ledger (fun held _ => held = f.stake q) (f.stake q) := by
  unfold recur
  split
  · rfl
  · next time ht =>
    have hq : q ≠ .now := by
      rintro rfl
      rw [hf.nextFire_eq_none] at ht
      exact nomatch ht
    have range := Trigger.nextFire_range ht
    refine ⟨⟨hf.withNextRun range.1 range.2, fun now => absurd now hq⟩, fun r hr => ?_⟩
    obtain ⟨t, rfl⟩ := hr
    exact (Action.held_refile_ok _ q _ t).trans (if_neg hq)

/-- What a look at a queue holds when it is over. -/
def Hands (q : QueueName) (held : List String) : Option Filed → Prop
  | none => held = []
  | some f => f.Proper q ∧ held = f.stake q

/-- A look at a queue holds in the end what it hands out. -/
theorem popDue_follows (q : QueueName) : (popDue q).Follows ledger (Hands q) [] := by
  refine ⟨trivial, fun r hr => ?_⟩
  cases r with
  | error e => exact Action.held_pop_error _ q e
  | ok f =>
    have stake : (Action.pop q).held [] (.ok f) = f.stake q := Action.held_pop_ok [] q f
    refine ⟨trivial, fun now _ => ?_⟩
    change Follows ledger _ ((Action.pop q).held [] (.ok f)) (ite _ _ _)
    rw [stake]
    split
    · exact (putBack_follows hr).bind fun held _ h => h
    · exact (recur_follows hr now).bind fun held _ h => ⟨hr, h⟩

end Dispatch

/-! ### Submissions -/

namespace Submission

theorem evictAll_follows {job : Job} {key : String} (hkey : job.key .now = .ok key)
    (queues : List QueueName) :
    (evictAll job queues).Follows ledger (fun held _ => held = [key]) [key] := by
  induction queues with
  | nil => rfl
  | cons q rest ih =>
    rw [evictAll]
    split
    · rfl
    · next key' hk =>
      have own : q = .now → key' ∈ [key] := by
        rintro rfl
        exact List.mem_singleton.mpr (Except.ok.inj (hk.symm.trans hkey))
      refine ⟨own, fun r _ => ?_⟩
      cases r with
      | error e => rfl
      | ok n => exact ih

theorem replacePrevious_follows (locker : Locker) {job : Job} {key : String}
    (hkey : job.key .now = .ok key) :
    (replacePrevious locker job).Follows ledger (fun held _ => held = [key]) [key] := by
  refine (evictAll_follows hkey _).andThen (fun _ _ h => h) fun held _ h => ?_
  subst h
  split
  · rfl
  · exact ((removeContainers_quiet _ job _).ledger [key]).bind fun _ _ h => h

theorem accept_follows (locker : Locker) {job : Job} {key : String} (range : job.InRange)
    (valid : job.validateSubmission = .ok ()) (hkey : job.key .now = .ok key) :
    (accept locker job key).Follows ledger (fun held _ => held = []) [] := by
  refine ⟨trivial, fun taken _ => ?_⟩
  cases taken with
  | false => rfl
  | true =>
    have filing : (file job key).Follows ledger
        (fun held r => held = match r with
          | .error _ => [key]
          | .ok _ => []) [key] := by
      refine ⟨trivial, fun now _ => ?_⟩
      refine ⟨⟨filed_proper range valid hkey now, fun _ => List.mem_singleton_self _⟩, ?_⟩
      rintro r ⟨t, rfl⟩
      exact erase_own _
    have whole : ((replacePrevious locker job).andThen id fun _ => file job key).Follows ledger
        (fun held r => held = match r with
          | .error _ => [key]
          | .ok _ => []) [key] := by
      refine (replacePrevious_follows locker hkey).andThen (fun _ _ h => h) fun held _ h => ?_
      subst h
      exact filing
    refine whole.bind fun held r h => ?_
    cases r with
    | ok t => exact h
    | error e =>
      subst h
      exact ⟨fun _ => List.mem_singleton_self _, fun _ _ => erase_own _⟩

end Submission

/-- A submission that is over holds nothing. -/
theorem Job.submit_follows (locker : Locker) {job : Job} (range : job.InRange) :
    (job.submit locker).Follows ledger (fun held _ => held = []) [] := by
  unfold Job.submit
  split
  · rfl
  · next hv =>
    split
    · rfl
    · next key hkey =>
      refine (Submission.ping_quiet.ledger []).andThen (fun _ _ h => h) fun held _ h => ?_
      subst h
      refine ((Submission.checkImages_quiet job).ledger []).andThen (fun _ _ h => h)
        fun held _ h => ?_
      subst h
      exact Submission.accept_follows locker range hv hkey

/-! ### Executions -/

namespace Execution

theorem fileStep_follows {job : Job} {step : Galley.Step} {q : QueueName} {trigger : Trigger}
    (range : job.InRange) (valid : job.validateSubmission = .ok ())
    (hs : step ∈ job.recipe.steps) (hq : q ≠ .now)
    (once : q ≠ .recurring → ∃ delay expired, trigger = .runOnce delay expired)
    (held : List String) :
    (fileStep job step q trigger).Follows ledger (fun held' _ => held' = held) held := by
  unfold fileStep
  split
  · rfl
  · next key hkey =>
    refine ⟨trivial, fun now _ => ⟨⟨stepTask_proper range valid hs hq hkey once now,
      fun now => absurd now hq⟩, ?_⟩⟩
    rintro r ⟨t, rfl⟩
    exact (Action.held_push_ok _ q _ t).trans (if_neg hq)

/-- The steps of a recipe give up nothing of what is held. -/
theorem runSteps_follows (locker : Locker) {job : Job} {steps : List Galley.Step}
    (range : job.InRange) (valid : job.validateSubmission = .ok ())
    (own : ∀ s ∈ steps, s ∈ job.recipe.steps) (held : List String) :
    (runSteps locker job steps).Follows ledger (fun held' _ => held' = held) held := by
  induction steps generalizing job with
  | nil => rfl
  | cons step rest ih =>
    have hs := own step List.mem_cons_self
    have rest' : ∀ s ∈ rest, s ∈ job.recipe.steps := fun s h => own s (List.mem_cons_of_mem _ h)
    have there : (atStep job step).InRange := range.withEnv _ _
    rw [runSteps]
    split
    · rfl
    · refine ((Job.runStep_quiet locker _ step).ledger held).andThen (fun _ _ h => h)
        fun held' outcome h => ?_
      subst h
      exact ih (there.withEnv _ _) valid rest'
    · refine (fileStep_follows there valid hs (by decide) (fun _ => ⟨_, _, rfl⟩) held).andThen
        (fun _ _ h => h) fun held' _ h => ?_
      subst h
      exact ih there valid rest'
    · refine (fileStep_follows there valid hs (by decide) (fun h => absurd rfl h) held).andThen
        (fun _ _ h => h) fun held' _ h => ?_
      subst h
      exact ih there valid rest'

theorem runRecipe_follows (locker : Locker) {job : Job} (range : job.InRange)
    (valid : job.validateSubmission = .ok ()) (held : List String) :
    (runRecipe locker job).Follows ledger (fun held' _ => held' = held) held := by
  refine ((tellApp_quiet _ _).ledger held).bind fun held' _ h => ?_
  subst h
  refine (runSteps_follows locker range valid (fun _ h => h) _).andThen (fun _ _ h => h)
    fun held' _ h => ?_
  subst h
  exact ((tellApp_quiet _ _).ledger _).bind fun _ _ h => h

/-- A step that was filed holds the key of its recipe while it runs. -/
theorem runFiledStep_follows (locker : Locker) (s : StepJob) :
    (runFiledStep locker s).Follows ledger (fun held _ => held = []) [] := by
  unfold runFiledStep
  split
  · rfl
  · next key hkey =>
    refine ⟨trivial, fun taken _ => ?_⟩
    cases taken with
    | false => rfl
    | true =>
      refine ((Job.runStep_quiet locker _ _).ledger [key]).bind fun held r h => ?_
      subst h
      exact ⟨fun _ => List.mem_singleton_self _, fun _ _ => erase_own _⟩

end Execution

/-- An execution that is over holds nothing. -/
theorem Filed.execute_follows (locker : Locker) {q : QueueName} {f : Filed} (hf : f.Proper q) :
    (f.execute locker).Follows ledger (fun held _ => held = []) (f.stake q) := by
  unfold Filed.execute
  by_cases hq : q = .now
  · subst hq
    obtain ⟨job, hjob⟩ := hf.exists_recipe
    have range := hf.inRange.task
    have valid := hf.submitted
    rw [hjob] at range valid ⊢
    refine (Execution.runRecipe_follows locker range valid [f.key]).bind fun held r h => ?_
    subst h
    exact ⟨fun _ => List.mem_singleton_self _, fun _ _ => erase_own _⟩
  · obtain ⟨s, hs⟩ := hf.exists_step hq
    rw [hs, Filed.stake, if_neg hq]
    refine (Execution.runFiledStep_follows locker s).bind fun held r h => ?_
    subst h
    exact ⟨fun now => absurd now (hf.not_isNowKey hq), fun _ _ => rfl⟩

end Galley
