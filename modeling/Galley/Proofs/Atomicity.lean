import Galley.Proofs.Advance
import Galley.Proofs.Carriage
import Galley.Proofs.Solitude
/-!
# Submissions that take effect or none

A submission on its own, in front of queues in which anything may lie. Main statement: where it fails
for another reason than its files it has changed nothing, and where it succeeds its job is the only one
filed under the job's keys and everything under other keys is as it was.
-/
namespace Galley

open Process Submission

namespace Submission

/-! ### Evictions -/

/-- Whether one state came of another by taking what is filed under a job's keys out of some queues. -/
structure Cleared (job : Job) (queues : List QueueName) (s s' : Shared) : Prop where
  named : s'.Named
  running : s'.running = s.running
  tasks : ∀ q key, job.key q = .ok key →
    s'.tasks q = if q ∈ queues then (s.tasks q).filter (·.key ≠ key) else s.tasks q

theorem Cleared.cons {job : Job} {q : QueueName} {key : String} {queues : List QueueName}
    {s s' s'' : Shared} (hkey : job.key q = .ok key) (h : Shared.Evicted q key s s')
    (rest : Cleared job queues s' s'') : Cleared job (q :: queues) s s'' where
  named := rest.named
  running := rest.running.trans h.running
  tasks q' key' hkey' := by
    rw [rest.tasks q' key' hkey']
    by_cases hq : q' = q
    · subst hq
      obtain rfl := Except.ok.inj (hkey.symm.trans hkey')
      rw [h.tasks, if_pos List.mem_cons_self, List.filter_filter]
      simp only [Bool.and_self, ite_self]
    · have same : s'.tasks q' = s.tasks q' := by rw [Shared.tasks, h.others q' hq]; rfl
      rw [same]
      simp only [List.mem_cons, hq, false_or]

theorem evictAll_ensures {job : Job} (keys : ∀ q, ∃ key, job.key q = .ok key)
    (queues : List QueueName) {s : Shared} (named : s.Named) (past : List Event) :
    (evictAll job queues).Ensures (fun s' _ r => r = .ok () ∧ Cleared job queues s s') s past := by
  induction queues generalizing s past with
  | nil => exact ⟨rfl, named, rfl, fun q key _ => (if_neg List.not_mem_nil).symm⟩
  | cons q rest ih =>
    obtain ⟨key, hkey⟩ := keys q
    rw [evictAll, hkey]
    intro r s₁ does
    obtain ⟨⟨n, rfl⟩, evicted⟩ := does.evict named
    refine (ih evicted.named _).mono ?_
    rintro s' _ r ⟨rfl, cleared⟩
    exact ⟨rfl, cleared.cons hkey evicted⟩

/-! ### The end of a submission -/

/-- What a submission has done when it gives the key of its run. -/
structure Accepted (job : Job) (key : String) (past : List Event) (s s' : Shared) : Prop where
  own : job.key .now = .ok key
  free : s.running.isRunning key = false
  marked : s'.running = s.running.mark key
  /-- Under the key there is the job alone, to be run once 100 ms after it was filed or later, as far as
  64 bits hold that time. -/
  once : ∃ now t, ⟨.now, now⟩ ∈ past ∧ (now + 100000000 ≤ t ∨ t = Text.Numeral.maxI64) ∧
    (s'.tasks .now).filter (·.key = key) =
      [{ task := .recipe job
         key := key
         group := job.group
         options := { maxRetries := 0, retryInterval := 0, replace := true, suspended := false }
         trigger := .runOnce ⟨100000000⟩ false
         nextRun := t }]
  cleared : ∀ q key', q ≠ .now → job.key q = .ok key' → ∀ f ∈ s'.tasks q, f.key ≠ key'
  others : ∀ q key', job.key q = .ok key' →
    (s'.tasks q).filter (·.key ≠ key') = (s.tasks q).filter (·.key ≠ key')

/-- The time of a run at once is 100 ms after it was filed, as far as 64 bits hold it. -/
theorem le_of_nextRun_le {job : Job} {key : String} {now t : Int}
    (late : (filed job key now).nextRun ≤ t) (last : t ≤ Text.Numeral.maxI64) :
    now + 100000000 ≤ t ∨ t = Text.Numeral.maxI64 := by
  rw [filed_eq] at late
  dsimp only [Text.Numeral.saturate] at late
  omega

variable {job : Job} {key : String} {s s₁ s' : Shared} {past : List Event}

theorem Cleared.tasks_eq (h : Cleared job QueueName.all s s₁) {q : QueueName}
    (hkey : job.key q = .ok key) : s₁.tasks q = (s.tasks q).filter (·.key ≠ key) := by
  rw [h.tasks q key hkey]
  exact if_pos (QueueName.mem_all q)

section Inserted

variable {before behind : List Filed} {g : Filed}

theorem filter_inserted (own : g.key = key) (foreign : ∀ f ∈ before ++ behind, f.key ≠ key) :
    (before ++ g :: behind).filter (·.key = key) = [g] := by
  rw [List.forall_mem_append] at foreign
  have none (fs : List Filed) (h : ∀ f ∈ fs, f.key ≠ key) : fs.filter (·.key = key) = [] :=
    List.filter_eq_nil_iff.mpr fun f hf => by simpa using h f hf
  rw [List.filter_append, List.filter_cons_of_pos (by simpa using own), none before foreign.1,
    none behind foreign.2, List.nil_append]

theorem filter_beside_inserted (own : g.key = key) :
    (before ++ g :: behind).filter (·.key ≠ key) = (before ++ behind).filter (·.key ≠ key) := by
  rw [List.filter_append, List.filter_append, List.filter_cons_of_neg (by simpa using own)]

end Inserted

/-- Where everything under the job's keys was taken out, the job that is filed is the only one. -/
theorem Accepted.of_filing (hkey : job.key .now = .ok key) (free : s.running.isRunning key = false)
    (cleared : Cleared job QueueName.all { s with running := s.running.mark key } s₁) {now : Int}
    (mem : ⟨.now, now⟩ ∈ past) (filing : Shared.Filing .now (filed job key now) s₁ s') :
    Accepted job key past s s' := by
  have untouched (q : QueueName) (hq : q ≠ .now) : s'.tasks q = s₁.tasks q := by
    rw [Shared.tasks, filing.others q hq]
    rfl
  have left {q : QueueName} {key' : String} (hkey' : job.key q = .ok key') :
      s₁.tasks q = (s.tasks q).filter (·.key ≠ key') := cleared.tasks_eq hkey'
  have gone {q : QueueName} {key' : String} (hkey' : job.key q = .ok key') (f : Filed)
      (hf : f ∈ s₁.tasks q) : f.key ≠ key' := by
    rw [left hkey'] at hf
    simpa using List.of_mem_filter hf
  obtain ⟨t, before, behind, late, last, whole, new⟩ := filing.tasks
  have short : Trigger.nowDelay.nanos ≤ Text.Numeral.maxU64 := by decide
  have whole' : (s₁.shelves .now).stored { filed job key now with nextRun := t } =
      { filed job key now with nextRun := t } := Shelf.stored_eq_self _ short
  rw [whole'] at new
  refine ⟨hkey, free, filing.running.trans cleared.running, ⟨now, t, mem, le_of_nextRun_le late last,
    ?_⟩, fun q key' hq hkey' f hf => gone hkey' f (untouched q hq ▸ hf), fun q key' hkey' => ?_⟩
  · rw [new]
    exact filter_inserted rfl fun f hf => gone hkey f (whole ▸ hf)
  · have same : (s'.tasks q).filter (·.key ≠ key') = (s₁.tasks q).filter (·.key ≠ key') := by
      by_cases hq : q = .now
      · subst hq
        obtain rfl := Except.ok.inj (hkey.symm.trans hkey')
        rw [new, whole]
        exact filter_beside_inserted rfl
      · rw [untouched q hq]
    rw [same, left hkey', List.filter_filter]
    simp only [Bool.and_self]

/-! ### Submissions -/

/-- What a submission on its own comes to: nothing at all, unless files are in its way, or its job in
the place of all that was filed under the job's keys. -/
def AllOrNothing (job : Job) (s s' : Shared) (past : List Event) (r : Except SubmitError String) :
    Prop :=
  (∀ e, r = .error e → (∀ e', e ≠ .queue (.io e')) → s' = s) ∧
    ∀ key, r = .ok key → Accepted job key past s s'

theorem AllOrNothing.nothing (job : Job) (s : Shared) (past : List Event) (e : SubmitError) :
    AllOrNothing job s s past (.error e) :=
  ⟨fun _ _ _ => rfl, fun _ h => nomatch h⟩

theorem file_ensures (range : job.InRange) (valid : job.validateSubmission = .ok ())
    (hkey : job.key .now = .ok key) (free : s.running.isRunning key = false)
    (cleared : Cleared job QueueName.all { s with running := s.running.mark key } s₁)
    (past : List Event) :
    ((file job key).bind (settle key)).Ensures (AllOrNothing job s) s₁ past := by
  intro now s₂ does
  obtain rfl := does_quiet (a := .now) trivial does
  intro r s₃ does
  have proper := filed_proper range valid hkey now
  rcases does.push cleared.named ⟨proper.inRange, proper.check⟩ with
    ⟨rfl, rfl⟩ | ⟨⟨t, rfl⟩, filing⟩
  · intro _ s₄ _
    change AllOrNothing job s s₄ _ (.error (.queue (.io .isDirectory)))
    refine ⟨fun e he other => ?_, fun _ h => nomatch h⟩
    exact absurd (Except.error.inj he).symm (other _)
  · change AllOrNothing job s s₃ _ (.ok key)
    refine ⟨fun _ h => (nomatch h), fun key' h => ?_⟩
    obtain rfl := Except.ok.inj h
    exact .of_filing hkey free cleared (List.mem_cons_of_mem _ List.mem_cons_self) filing

theorem accept_ensures (locker : Locker) (range : job.InRange)
    (valid : job.validateSubmission = .ok ()) (hkey : job.key .now = .ok key) (named : s.Named)
    (past : List Event) : (accept locker job key).Ensures (AllOrNothing job s) s past := by
  rw [accept_eq]
  intro taken s₁ does
  cases does with
  | once answers =>
    cases answers with
    | quiet _ _ quiet => exact quiet.elim
    | tryAcquire =>
      cases held : s.running.isRunning key with
      | true =>
        have refused : s.running.tryAcquire key = (false, s.running) := if_pos held
        rw [refused]
        exact .nothing job s _ _
      | false =>
        have took : s.running.tryAcquire key = (true, s.running.mark key) :=
          if_neg (by simp [held])
        obtain ⟨layout, hl⟩ := exists_layout locker hkey
        rw [took]
        dsimp only
        rw [if_pos rfl, filing_eq hl]
        have marked : ({ s with running := s.running.mark key } : Shared).Named := named
        refine (evictAll_ensures (Job.exists_key hkey) _ marked _).bind ?_
        rintro s₂ past₂ r ⟨rfl, cleared⟩
        refine ((removeContainers_quiet _ _ _).ensures _ _).bind ?_
        rintro s₃ past₃ - rfl
        exact file_ensures range valid hkey held cleared past₃

/-- A submission on its own that fails, but for files in its way, changes no queue and no mark. One
that succeeds took a free key and leaves its job alone under the job's keys, with all else unchanged. -/
theorem submission_all_or_nothing {locker : Locker} {r : Except SubmitError String} {n : Nat}
    (range : job.InRange) (named : s.Named)
    (run : Course.Run s ⟨job.submit locker, [], 0⟩ s' ⟨.done r, past, n⟩) :
    AllOrNothing job s s' past r := by
  refine run.ensured (AllOrNothing job s) ?_
  cases valid : job.validateSubmission with
  | error e =>
    unfold Job.submit
    rw [valid]
    exact .nothing job s _ _
  | ok _ =>
    cases hkey : job.key .now with
    | error e =>
      unfold Job.submit
      rw [valid]
      dsimp only
      rw [hkey]
      exact .nothing job s _ _
    | ok key =>
      rw [submit_eq locker valid hkey]
      have failed (past : List Event) (e : SubmitError) : AllOrNothing job s s past (.error e) :=
        .nothing job s past e
      refine (ping_quiet.ensures s []).andThen (fun _ past e h => h ▸ failed past e) ?_
      rintro _ past₁ - rfl
      refine ((checkImages_quiet job).ensures _ past₁).andThen
        (fun _ past e h => h ▸ failed past e) ?_
      rintro _ past₂ - rfl
      exact accept_ensures locker range valid hkey named past₂

end Submission

/-! ### A feast in the place of pancakes -/

namespace Feast

open Job

def againKey : String := "[app][individual][userid:42][page:1][uuid:u-1][queue:every]"

theorem feast_againKey : feast.key .recurring = .ok againKey := by decide

/-- What an earlier submission of the page filed. -/
def leftover : Filed := Submission.filed pancakes nowKey (-1)

/-- What was filed for another page at the time at which the feast is. -/
def elsewhere : Filed := { filed with key := "[app][individual][userid:42][page:2][uuid:u-1][queue:now]" }

def late : Filed := { filed with nextRun := 100000001 }

/-- The first eviction of a submission leaves the tasks under other keys in memory. -/
theorem run_evicted {s after : Shared} {q : QueueName} {queue : MemoryQueue} {key : String}
    (left : List Filed) (hkey : feast.key q = .ok key) (hq : s.shelves q = .memory queue)
    (same : queue.tasks.filter (·.key ≠ key) = left)
    (state : s.setShelf q (.memory ⟨left⟩) = after) (rest : List QueueName)
    (f : Except SubmitError Unit → Process (Except SubmitError String)) (past : List Event) :
    ∃ past', Course.Run s ⟨(evictAll feast (q :: rest)).bind f, past, 0⟩ after
      ⟨(evictAll feast rest).bind f, past', 0⟩ := by
  rw [evictAll_cons hkey, ← state, ← same]
  exact ⟨_, Course.run_evict hq key _ past 0⟩

theorem push_late : (larder [nowKey] [elsewhere] []).push .now filed =
    (.ok 100000001, larder [nowKey] [elsewhere, late] []) :=
  Prod.ext (by decide) (larder_eq rfl rfl rfl rfl)

theorem run_resubmit : ∃ past, Course.Run (larder [] [leftover, elsewhere] [simmer])
    ⟨feast.submit locker, [], 0⟩ (larder [nowKey] [elsewhere, late] [])
    ⟨.done (.ok nowKey), past, 0⟩ := by
  obtain ⟨past, -, taken⟩ := Submission.exists_taken locker feast_valid feast_nowKey
    (s := larder [] [leftover, elsewhere] [simmer]) rfl
  obtain ⟨layout, hl⟩ := exists_layout locker feast_nowKey
  rw [filing_eq hl] at taken
  let first := larder [nowKey] [leftover, elsewhere] [simmer]
  let second := larder [nowKey] [elsewhere] [simmer]
  let third := larder [nowKey] [elsewhere] []
  have now : first.setShelf .now (.memory ⟨[elsewhere]⟩) = second := larder_eq rfl rfl rfl rfl
  have later : second.setShelf .delayed (.memory ⟨[]⟩) = third := larder_eq rfl rfl rfl rfl
  have again : third.setShelf .recurring (.memory ⟨[]⟩) = third := larder_eq rfl rfl rfl rfl
  let last := replaced layout feast nowKey
  obtain ⟨past₁, one⟩ := run_evicted [elsewhere] feast_nowKey rfl (by decide) now
    [.delayed, .recurring] last past
  obtain ⟨past₂, two⟩ := run_evicted [] feast_laterKey rfl (by decide) later [.recurring] last past₁
  obtain ⟨past₃, three⟩ := run_evicted [] feast_againKey rfl rfl again [] last past₂
  have room : ((larder [nowKey] [elsewhere] []).shelves .now).HasRoom
      (Submission.filed feast nowKey 0) := rfl
  obtain ⟨past₄, filed⟩ := run_replaced layout feast nowKey room push_late past₃
  exact ⟨past₄, (((taken.trans one).trans two).trans three).trans filed⟩

theorem submission_all_or_nothing_feast : ∃ past,
    (larder [] [leftover, elsewhere] [simmer]).Named ∧
    Course.Run (larder [] [leftover, elsewhere] [simmer]) ⟨feast.submit locker, [], 0⟩
      (larder [nowKey] [elsewhere, late] []) ⟨.done (.ok nowKey), past, 0⟩ ∧
    AllOrNothing feast (larder [] [leftover, elsewhere] [simmer])
      (larder [nowKey] [elsewhere, late] []) past (.ok nowKey) := by
  obtain ⟨past, run⟩ := run_resubmit
  have named : (larder [] [leftover, elsewhere] [simmer]).Named := by
    intro q
    cases q <;> trivial
  exact ⟨past, named, run, submission_all_or_nothing feast_inRange named run⟩

end Feast

end Galley
