import Galley.Proofs.Exclusion
import Galley.Proofs.Restraint
/-!
# Replacement of what was filed

A submission takes what earlier ones filed out of the queues, but a look at a queue that has popped
a task and is not over may still put it back. Main statement: what was filed under a key stays away
from the end of its eviction on, whatever looks follow, exactly when no look holds such a task then.
-/
namespace Galley

/-! ### Restrained calls -/

def Call.IsLook : Call → Prop
  | .dispatch _ => True
  | _ => False

/-- What is so throughout a submission or a look. -/
def Call.Keeps : (call : Call) → List String → Process call.Result → Prop
  | .submit _ => Submission.Replaces
  | .dispatch _ => Dispatch.Returns
  | .execute _ _ => fun _ _ => False

theorem Call.Keeps.restrained {call : Call} {keys : List String} {p : Process call.Result}
    (h : call.Keeps keys p) : p.IsRestrained keys := by
  cases call with
  | submit job => exact Submission.Replaces.restrained h
  | dispatch q => exact Dispatch.Returns.restrained h
  | execute q f => exact h.elim

namespace Thread

def Restrained (t : Thread) : Prop :=
  t.course.process.Throughout t.call.Keeps (poppedAfter t.course.past)

/-- Whether a call has popped a task under a key and is not over. -/
def Straddles (t : Thread) (key : String) : Prop :=
  t.course.process.isDone = false ∧ key ∈ poppedAfter t.course.past

def accepted (job : Job) (key : String) (past : List Event) (n : Nat) : Thread :=
  ⟨.submit job, .done (.ok key), past, n⟩

/-- Only a look can hold a task that it has popped. -/
theorem Straddles.canRefile {t : Thread} {key : String} (h : t.Straddles key)
    (restrained : t.Restrained) : CanRefile key t.course.process := by
  obtain ⟨call, course⟩ := t
  obtain ⟨goes, popped⟩ : course.process.isDone = false ∧ key ∈ poppedAfter course.past := h
  have here := restrained.here
  cases call with
  | submit job =>
    have nothing : poppedAfter course.past = [] := Submission.Replaces.nothing here
    rw [nothing] at popped
    exact nomatch popped
  | dispatch q =>
    refine (Dispatch.Returns.returns here key popped).resolve_left ?_
    intro ended
    exact nomatch goes.symm.trans ended
  | execute q f => exact here.elim

end Thread

namespace System

/-- A submission and looks, all of which keep to what they may file. -/
structure Restrained (sys : System) : Prop where
  sound : sys.Sound
  threads : ∀ t ∈ sys.threads, t.Restrained

variable {locker : Locker} {sys sys' : System}

theorem inRange_of_isLook (call : Call) (h : call.IsLook) : call.InRange := by
  cases call <;> trivial

theorem restrained_submit {s : Shared} (hs : s.Sound) {job : Job} (range : job.InRange) :
    Restrained ⟨s, [.begin locker (.submit job)]⟩ where
  sound := by
    have alone : Sound ⟨s, []⟩ := ⟨hs, fun _ h => nomatch h⟩
    exact alone.append (Job.submit_follows locker range)
  threads t ht := by
    obtain rfl := List.mem_singleton.mp ht
    exact Job.submit_throughout locker range

/-- What is so of looks and is kept by every step of a call is so of all calls. -/
theorem Reaches.forall_threads {P : Thread → Prop} (h : Reaches locker Call.IsLook sys sys')
    (looks : ∀ q, P (.begin locker (.dispatch q)))
    (kept : ∀ (s s' : Shared) (call : Call) (p p' : Course call.Result),
      p.Step s s' p' → P ⟨call, p⟩ → P ⟨call, p'⟩)
    (all : ∀ t ∈ sys.threads, P t) : ∀ t ∈ sys'.threads, P t := by
  induction h with
  | refl => exact all
  | tail _ step ih =>
    cases step with
    | submit start => exact start.elim
    | dispatch _ =>
      simp only [List.forall_mem_append, List.forall_mem_singleton]
      exact ⟨ih, looks _⟩
    | run step =>
      simp only [List.forall_mem_append, List.forall_mem_cons] at ih ⊢
      exact ⟨ih.1, kept _ _ _ _ _ step ih.2.1, ih.2.2⟩
    | handOver start => exact start.elim

theorem Reaches.restrained (h : Reaches locker Call.IsLook sys sys') (hs : sys.Restrained) :
    sys'.Restrained where
  sound := h.sound inRange_of_isLook hs.sound
  threads := h.forall_threads Dispatch.popDue_throughout
    (fun _ _ _ _ _ step own => step.throughout own) hs.threads

end System

/-! ### Keys that nothing is filed under -/

section Free

variable {s s' : Shared} {key : String}

/-- Whether no task is filed under a key. -/
def Shared.Free (key : String) (s : Shared) : Prop :=
  ∀ q, ∀ f ∈ s.tasks q, f.key ≠ key

theorem Shared.Free.without {q : QueueName} {f : Filed} (h : s.Free key)
    (without : s.Without s' q f) : s'.Free key :=
  fun q' g hg => h q' g (without.mem hg)

theorem Shared.Free.push {q : QueueName} {f : Filed} (h : s.Free key) (hs : s.Sound)
    (proper : f.Proper q) (room : (s.shelves q).HasRoom f) (other : f.key ≠ key) :
    (s.push q f).2.Free key := by
  obtain ⟨t, g, s', hp, hg, -, -, without⟩ := hs.push proper room
  rw [hp]
  intro q' f' hf'
  rcases without.eq_or_mem hf' with rfl | hf'
  · exact hg.trans_ne other
  · exact h q' f' hf'

/-- A restrained action files nothing under a key that is for no run at once, unless a task was popped
under it. -/
theorem Shared.Answers.free {a : Action} {r : a.Answer} (h : s.Answers a r s') (hs : s.Sound)
    {held keys : List String} (allowed : ledger.allows held a) (restrained : a.IsRestrained keys)
    (later : ¬ IsNowKey key) (free : s.Free key) (hkeys : key ∉ keys) :
    s'.Free key ∧ key ∉ a.popped keys r := by
  cases h with
  | tryAcquire k => exact ⟨free, hkeys⟩
  | unmark k => exact ⟨free, hkeys⟩
  | pop q =>
    rcases hs.pop q with ⟨-, hp⟩ | ⟨f, s', hp, -, -, without⟩
    · rw [hp]
      exact ⟨free, hkeys⟩
    · rw [hp]
      have other := free q f (without.perm.mem_iff.mpr List.mem_cons_self)
      exact ⟨free.without without, List.not_mem_cons_of_ne_of_not_mem other.symm hkeys⟩
  | push q f room =>
    obtain rfl : q = .now := restrained
    have other : f.key ≠ key := fun own => later (own ▸ allowed.1.isNowKey)
    exact ⟨free.push hs allowed.1 room other, hkeys⟩
  | refile q f room =>
    have other : f.key ≠ key := fun own => hkeys (own ▸ restrained)
    exact ⟨free.push hs allowed.1 room other, hkeys⟩
  | quiet a r quiet =>
    rw [Action.popped_of_isQuiet keys quiet]
    exact ⟨free, hkeys⟩

variable {α : Type} {post : List String → α → Prop} {p p' : Course α}

/-- An eviction only takes tasks out. -/
theorem Course.Step.free (h : p.Step s s' p') (hs : s.Sound) (hp : p.Sound post)
    (restrained : p.process.IsRestrained (poppedAfter p.past)) (later : ¬ IsNowKey key)
    (free : s.Free key) (idle : key ∉ poppedAfter p.past) :
    s'.Free key ∧ key ∉ poppedAfter p'.past := by
  cases h with
  | act h => exact h.free hs hp.1 restrained later free idle
  | @removed _ q k f next past n h =>
    rcases hs.remove q k with ⟨-, hr⟩ | ⟨f, s', hr, -, -, -, without⟩
    · rw [h] at hr
      exact nomatch hr
    · rw [h] at hr
      obtain ⟨-, rfl⟩ := Prod.mk.inj hr
      exact ⟨free.without without, idle⟩
  | @swept _ q k next past n h =>
    rcases hs.remove q k with ⟨-, hr⟩ | ⟨f, s', hr, -⟩
    · rw [h] at hr
      obtain ⟨-, rfl⟩ := Prod.mk.inj hr
      exact ⟨free, idle⟩
    · rw [h] at hr
      exact nomatch hr

theorem Course.Step.isDone_eq_false (h : p.Step s s' p') : p.process.isDone = false := by
  cases h <;> rfl

end Free

namespace System

variable {locker : Locker} {sys sys' : System} {key : String}

/-- Whether no task is filed under a key and no call can put one back. -/
structure Free (key : String) (sys : System) : Prop where
  shared : sys.shared.Free key
  threads : ∀ t ∈ sys.threads, ¬ t.Straddles key

theorem Step.free (h : Step locker Call.IsLook sys sys') (hs : sys.Restrained)
    (later : ¬ IsNowKey key) (free : sys.Free key) : sys'.Free key := by
  have idle := free.threads
  have all := hs.threads
  cases h with
  | submit start => exact start.elim
  | dispatch _ =>
    refine ⟨free.shared, ?_⟩
    intro t ht
    rcases List.mem_append.mp ht with ht | ht
    · exact idle t ht
    · obtain rfl := List.mem_singleton.mp ht
      intro straddles
      exact nomatch straddles.2
  | @run s s' before behind call p p' step =>
    simp only [List.forall_mem_append, List.forall_mem_cons] at idle all
    have unpopped : key ∉ poppedAfter p.past := fun popped =>
      idle.2.1 ⟨step.isDone_eq_false, popped⟩
    obtain ⟨shared, unpopped'⟩ := step.free hs.sound.shared hs.sound.thread
      all.2.1.here.restrained later free.shared unpopped
    refine ⟨shared, ?_⟩
    simp only [List.forall_mem_append, List.forall_mem_cons]
    exact ⟨idle.1, fun straddles => unpopped' straddles.2, idle.2.2⟩
  | handOver start => exact start.elim

theorem Reaches.free (h : Reaches locker Call.IsLook sys sys') (hs : sys.Restrained)
    (later : ¬ IsNowKey key) (free : sys.Free key) : sys'.Free key := by
  induction h with
  | refl => exact free
  | tail reached step ih => exact step.free (Reaches.restrained reached hs) later ih

end System

/-! ### A task that is put back -/

/-- Where the queues for later runs are empty, a process that can put back a task does so. -/
theorem CanRefile.run {α : Type} {key : String} {p : Process α} (h : CanRefile key p) {s : Shared}
    (hs : s.Sound) {post : List String → α → Prop} {held : List String}
    (follows : p.Follows ledger post held) {job : Job} {q : QueueName}
    (hkey : job.key q = .ok key) (none : s.tasks q = []) (past : List Event) (n : Nat) :
    ∃ s' p', Course.Run s ⟨p, past, n⟩ s' p' ∧ ∃ f ∈ s'.tasks q, f.key = key := by
  induction h generalizing s held past with
  | @quiet a next quiet r _ ih =>
    have rest := follows.2 r (by cases a <;> trivial)
    obtain ⟨s', p', run, filed⟩ := ih hs rest none (⟨a, r⟩ :: past)
    exact ⟨s', p', (Course.run_quiet quiet r next past n).trans run, filed⟩
  | @unmark k next _ ih =>
    have rest := follows.2 () trivial
    have sound : Shared.Sound { s with running := s.running.unmark k } := hs
    obtain ⟨s', p', run, filed⟩ := ih sound rest none (⟨.unmark k, ()⟩ :: past)
    have step : Course.Step s ⟨.act (.unmark k) next, past, n⟩
        { s with running := s.running.unmark k } ⟨next (), ⟨.unmark k, ()⟩ :: past, n⟩ :=
      .act (.unmark k)
    exact ⟨s', p', step.run.trans run, filed⟩
  | @refile q' f next own =>
    have proper : f.Proper q' := follows.1.1
    obtain rfl : q' = q := by
      by_contra other
      exact Job.key_ne other proper.key hkey own
    have room : (s.shelves q').HasRoom f := (hs q').hasRoom none f
    obtain ⟨t, g, s', hp, hg, -, -, without⟩ := hs.push proper room
    refine ⟨_, _, (Course.Step.act (.refile q' f room)).run, ?_⟩
    rw [hp]
    exact ⟨g, without.perm.mem_iff.mpr List.mem_cons_self, hg.trans own⟩

namespace System

variable (locker : Locker)

/-- Looks that stop after their pop empty all queues. -/
theorem exists_all_drained {s : Shared} (hs : s.Sound) (threads : List Thread) :
    ∃ s' more, Reaches locker Call.IsLook ⟨s, threads⟩ ⟨s', threads ++ more⟩ ∧ s'.Sound ∧
      ∀ q, s'.tasks q = [] := by
  obtain ⟨s₁, fs₁, run₁, hs₁, none₁, -, -⟩ := exists_drained locker hs
    (show Call.IsLook (.dispatch .now) from trivial) threads
  obtain ⟨s₂, fs₂, run₂, hs₂, none₂, -, others₂⟩ := exists_drained locker hs₁
    (show Call.IsLook (.dispatch .delayed) from trivial) (threads ++ fs₁.map (.popped .now))
  obtain ⟨s₃, fs₃, run₃, hs₃, none₃, -, others₃⟩ := exists_drained locker hs₂
    (show Call.IsLook (.dispatch .recurring) from trivial)
    (threads ++ fs₁.map (.popped .now) ++ fs₂.map (.popped .delayed))
  have run := (run₁.trans run₂).trans run₃
  rw [List.append_assoc, List.append_assoc] at run
  refine ⟨s₃, _, run, hs₃, ?_⟩
  intro q
  cases q with
  | now => rw [Shared.tasks, others₃ _ (by decide), others₂ _ (by decide)]; exact none₁
  | delayed => rw [Shared.tasks, others₃ _ (by decide)]; exact none₂
  | recurring => exact none₃

def Accepted (job : Job) (sys : System) : Prop :=
  ∃ key past n, .accepted job key past n ∈ sys.threads

/-- A task that a look holds while a submission can still file its job can be put back after the
submission was accepted. -/
theorem exists_put_back {s : Shared} {before behind : List Thread} {job : Job}
    {c : Course (Call.submit job).Result}
    (hs : Restrained ⟨s, before ++ ⟨.submit job, c⟩ :: behind⟩) {k : String}
    (files : CanFile k c.process) {q : QueueName} (hq : q ≠ .now) {key : String}
    (hkey : job.key q = .ok key) {t : Thread} (ht : t ∈ before ++ behind)
    (straddles : t.Straddles key) :
    ∃ sys, Reaches locker Call.IsLook ⟨s, before ++ ⟨.submit job, c⟩ :: behind⟩ sys ∧
      Accepted job sys ∧ ∃ f ∈ sys.shared.tasks q, f.key = key := by
  obtain ⟨s₁, more, drained, hs₁, none⟩ := exists_all_drained locker
    hs.sound.shared (before ++ ⟨.submit job, c⟩ :: behind)
  rw [List.append_assoc, List.cons_append] at drained
  -- the submission files its job and is accepted
  obtain ⟨s₂, g, past, n, filed, hs₂, -, -, empty⟩ := files.run hs₁ (none .now) c.past c.evicted
  have accepted : Reaches locker Call.IsLook ⟨s₁, before ++ ⟨.submit job, c⟩ :: (behind ++ more)⟩
      ⟨s₂, before ++ .accepted job k past n :: (behind ++ more)⟩ :=
    reaches_of_run (.submit job) before (behind ++ more) filed
  -- the look puts back its task
  obtain ⟨call, course⟩ := t
  have whole := ((List.sublist_cons_self ⟨.submit job, c⟩ behind).append_left before).mem ht
  have look := straddles.canRefile (hs.threads _ whole)
  obtain ⟨s₃, course', back, filed'⟩ := look.run hs₂ (hs.sound.threads _ whole) hkey
    (empty q hq (none q)) course.past course.evicted
  have kept : behind.Sublist (.accepted job k past n :: (behind ++ more)) :=
    (List.sublist_append_left behind more).cons _
  obtain ⟨xs, ys, split⟩ := List.append_of_mem ((kept.append_left before).mem ht)
  rw [split] at accepted
  have run := (drained.trans accepted).trans (reaches_of_run call xs ys back)
  refine ⟨_, run, ⟨k, past, n, ?_⟩, filed'⟩
  have submitted : .accepted job k past n ∈ xs ++ ⟨call, course⟩ :: ys :=
    split ▸ List.mem_append_right _ List.mem_cons_self
  have other : .accepted job k past n ≠ (⟨call, course⟩ : Thread) := fun same =>
    nomatch (same ▸ straddles.1 : (Thread.accepted job k past n).course.process.isDone = false)
  simp only [List.mem_append, List.mem_cons] at submitted ⊢
  exact submitted.imp_right fun mem => .inr (mem.resolve_left other)

/-- Where a task is filed under a key of a job for later runs, a submission of the job can be accepted
and leave a task under the key all the same. -/
theorem exists_left_behind {s : Shared} (hs : s.Sound) {job : Job} (range : job.InRange)
    (valid : job.validateSubmission = .ok ()) {k : String} (hnow : job.key .now = .ok k)
    (free : s.running.isRunning k = false) {q : QueueName} (hq : q ≠ .now) {f : Filed}
    (hf : f ∈ s.tasks q) (hkey : job.key q = .ok f.key) :
    ∃ sys, Reaches locker Call.IsLook ⟨s, [.begin locker (.submit job)]⟩ sys ∧
      Accepted job sys ∧ ∃ g ∈ sys.shared.tasks q, g.key = f.key := by
  obtain ⟨past, -, taken⟩ := Submission.exists_taken locker valid hnow free
  have took : Reaches locker Call.IsLook ⟨s, [.begin locker (.submit job)]⟩
      ⟨{ s with running := s.running.mark k },
        [⟨.submit job, Submission.filing locker job k, past, 0⟩]⟩ := reaches_of_run _ [] [] taken
  -- the task is popped before the eviction
  have marked : Shared.Sound { s with running := s.running.mark k } := hs
  obtain ⟨s₁, fs, drained, -, -, perm, -⟩ := exists_drained locker marked
    (show Call.IsLook (.dispatch q) from trivial)
    [⟨.submit job, Submission.filing locker job k, past, 0⟩]
  have restrained : Restrained ⟨s₁, [] ++
      ⟨.submit job, Submission.filing locker job k, past, 0⟩ :: fs.map (.popped q)⟩ :=
    Reaches.restrained (took.trans drained) (restrained_submit hs range)
  have held : Thread.popped q f ∈ [] ++ fs.map (Thread.popped q) :=
    List.mem_map_of_mem (perm.mem_iff.mpr hf)
  have straddles : (Thread.popped q f).Straddles f.key := ⟨rfl, List.mem_singleton_self _⟩
  obtain ⟨sys, put, accepted, filed⟩ := exists_put_back locker restrained
    (Submission.canFile_filing locker range valid hnow) hq hkey held straddles
  exact ⟨sys, (took.trans drained).trans put, accepted, filed⟩

end System

/-! ### Evictions of accepted submissions -/

/-- Whether an event is the end of an eviction. -/
def Event.EndsEviction (q : QueueName) (key : String) (e : Event) : Prop :=
  ∃ n, e = ⟨.evict q key, .ok n⟩

/-- Whether a submission comes to the end of an eviction before it is accepted. -/
def Process.EvictsFirst (q : QueueName) (key : String) :
    Process (Except SubmitError String) → Prop
  | .done r => ∀ k, r ≠ .ok k
  | .act a next => ∀ r, Event.EndsEviction q key ⟨a, r⟩ ∨ (next r).EvictsFirst q key

namespace Submission

variable {q : QueueName} {key : String}

theorem evictsFirst_error (e : SubmitError) :
    Process.EvictsFirst q key (.done (.error e)) := fun _ h => nomatch h

theorem evictsFirst_check {check : Process (Except SubmitError Unit)}
    {f : Unit → Process (Except SubmitError String)} (hf : (f ()).EvictsFirst q key) :
    (check.andThen id f).EvictsFirst q key := by
  unfold Process.andThen
  induction check with
  | done r =>
    cases r with
    | error e => exact evictsFirst_error e
    | ok _ => exact hf
  | act a next ih => exact fun r => .inr (ih r)

theorem evictsFirst_evictAll {job : Job} (hkey : job.key q = .ok key) {queues : List QueueName}
    (mem : q ∈ queues) {f : Except SubmitError Unit → Process (Except SubmitError String)}
    (failed : ∀ e, (f (.error e)).EvictsFirst q key) :
    ((evictAll job queues).bind f).EvictsFirst q key := by
  induction queues with
  | nil => exact nomatch mem
  | cons q' rest ih =>
    obtain ⟨k, hk⟩ := Job.exists_key hkey q'
    rw [evictAll_cons hk]
    intro r
    cases r with
    | error e => exact .inr (failed _)
    | ok n =>
      by_cases hq : q = q'
      · subst hq
        obtain rfl := Except.ok.inj (hk.symm.trans hkey)
        exact .inl ⟨n, rfl⟩
      · exact .inr (ih ((List.mem_cons.mp mem).resolve_left hq))

theorem submit_evictsFirst (locker : Locker) {job : Job} (hkey : job.key q = .ok key) :
    (job.submit locker).EvictsFirst q key := by
  unfold Job.submit
  split
  · exact evictsFirst_error _
  split
  · exact evictsFirst_error _
  · next k hk =>
    refine evictsFirst_check (evictsFirst_check ?_)
    rw [accept_eq]
    intro taken
    right
    cases taken with
    | false => exact evictsFirst_error _
    | true =>
      obtain ⟨layout, hl⟩ := exists_layout locker hkey
      change (filing locker job k).EvictsFirst q key
      rw [filing_eq hl]
      refine evictsFirst_evictAll hkey (QueueName.mem_all q) ?_
      intro e
      exact fun _ => .inr (evictsFirst_error e)

end Submission

theorem Course.Step.evictsFirst {s s' : Shared} {p p' : Course (Except SubmitError String)}
    (h : p.Step s s' p') {q : QueueName} {key : String}
    (first : (∃ e ∈ p.past, e.EndsEviction q key) ∨ p.process.EvictsFirst q key) :
    (∃ e ∈ p'.past, e.EndsEviction q key) ∨ p'.process.EvictsFirst q key := by
  rcases first with ⟨e, he, ends⟩ | first
  · left
    cases h with
    | act _ => exact ⟨e, List.mem_cons_of_mem _ he, ends⟩
    | removed _ => exact ⟨e, he, ends⟩
    | swept _ => exact ⟨e, List.mem_cons_of_mem _ he, ends⟩
  · cases h with
    | act _ => exact (first _).imp_left fun ends => ⟨_, List.mem_cons_self, ends⟩
    | removed _ => exact .inr first
    | swept _ => exact (first _).imp_left fun ends => ⟨_, List.mem_cons_self, ends⟩

/-- Whether a call, if it is a submission of a job, evicts before it is accepted. -/
def Thread.EvictsFirst (job : Job) (q : QueueName) (key : String) : Thread → Prop
  | ⟨.submit j, c⟩ => j = job →
    (∃ e ∈ c.past, e.EndsEviction q key) ∨ c.process.EvictsFirst q key
  | _ => True

/-- Every submission that is accepted has come to the end of its eviction for each queue. -/
theorem System.evicted_of_accepted {locker : Locker} {shared : Shared} {job : Job} {q : QueueName}
    {key : String} (hkey : job.key q = .ok key) {sys : System}
    (reached : Reaches locker Call.IsLook ⟨shared, [.begin locker (.submit job)]⟩ sys)
    {k : String} {past : List Event} {n : Nat} (mem : .accepted job k past n ∈ sys.threads) :
    ∃ e ∈ past, e.EndsEviction q key := by
  have all : ∀ t ∈ sys.threads, t.EvictsFirst job q key := by
    refine reached.forall_threads (fun _ => trivial) ?_ ?_
    · intro s s' call p p' step first
      cases call with
      | submit j => exact fun same => step.evictsFirst (first same)
      | dispatch q => trivial
      | execute q f => trivial
    · intro t ht
      obtain rfl := List.mem_singleton.mp ht
      exact fun _ => .inr (Submission.submit_evictsFirst locker hkey)
  exact (all _ mem rfl).resolve_right fun first => first k rfl

/-! ### The end of an eviction -/

/-- An eviction ends by finding nothing more. -/
theorem Course.Step.of_evicted {α : Type} {s s' : Shared} {p p' : Course α} (h : p.Step s s' p')
    {q : QueueName} {key : String} {n : Nat}
    (evicted : p'.past = ⟨.evict q key, .ok n⟩ :: p.past) :
    ∃ next, p.process = .act (.evict q key) next ∧ p'.process = next (.ok n) ∧
      s.remove q key = (.error .notFound, s') := by
  cases h with
  | act h =>
    obtain ⟨rfl, hr⟩ := Event.mk.inj (List.cons.inj evicted).1
    cases h with
    | quiet _ _ quiet => exact quiet.elim
  | removed _ => exact absurd evicted.symm (List.cons_ne_self _ _)
  | @swept _ q' k next past m h =>
    obtain ⟨same, hr⟩ := Event.mk.inj (List.cons.inj evicted).1
    obtain ⟨rfl, rfl⟩ := Action.evict.inj same
    obtain rfl := Except.ok.inj (eq_of_heq hr)
    exact ⟨next, rfl, rfl, h⟩

namespace Submission

/-- In empty queues every eviction comes to its end. -/
theorem exists_evicted {s : Shared} (hs : s.Sound) (none : ∀ q, s.tasks q = []) {job : Job}
    {q : QueueName} {key : String} (hkey : job.key q = .ok key) {queues : List QueueName}
    (mem : q ∈ queues) (f : Except SubmitError Unit → Process (Except SubmitError String))
    (past : List Event) :
    ∃ c c', Course.Run s ⟨(evictAll job queues).bind f, past, 0⟩ s c ∧ c.Step s s c' ∧
      c'.past = ⟨.evict q key, .ok 0⟩ :: c.past := by
  induction queues generalizing past with
  | nil => exact nomatch mem
  | cons q' rest ih =>
    obtain ⟨k, hk⟩ := Job.exists_key hkey q'
    have nothing (g : Filed) (hg : g ∈ s.tasks q') : g.key ≠ k := by
      rw [none q'] at hg
      exact nomatch hg
    rw [evictAll_cons hk]
    by_cases hq : q = q'
    · subst hq
      obtain rfl := Except.ok.inj (hk.symm.trans hkey)
      exact ⟨_, _, .refl s _, Course.step_swept hs nothing _ past 0, rfl⟩
    · obtain ⟨c, c', run, step, evicted⟩ := ih ((List.mem_cons.mp mem).resolve_left hq)
        (⟨.evict q' k, .ok 0⟩ :: past)
      exact ⟨c, c', (Course.step_swept hs nothing _ past 0).run.trans run, step, evicted⟩

end Submission

namespace System

theorem Restrained.submission {s : Shared} {before behind : List Thread} {job : Job}
    {c : Course (Call.submit job).Result}
    (h : Restrained ⟨s, before ++ ⟨.submit job, c⟩ :: behind⟩) :
    Submission.Replaces (poppedAfter c.past) c.process :=
  (h.threads ⟨.submit job, c⟩ (List.mem_append_right _ List.mem_cons_self)).here

/-- After the end of an eviction nothing is filed under its key in any queue. -/
theorem free_of_evicted {s s' : Shared} (hs : s.Sound) {job : Job} {q : QueueName} {key : String}
    (hkey : job.key q = .ok key) (h : s.remove q key = (.error .notFound, s')) :
    s = s' ∧ s.Free key := by
  rcases hs.remove q key with ⟨none, hr⟩ | ⟨f, s'', hr, -⟩
  · refine ⟨(Prod.mk.inj (hr.symm.trans h)).2, ?_⟩
    intro q' f hf
    by_cases hq : q' = q
    · subst hq
      exact none f hf
    · exact Job.key_ne hq (hs.proper hf).key hkey
  · exact nomatch hr.symm.trans h

end System

/-- The end of an eviction for a queue of later runs is final exactly if no look that has popped a task
under the evicted key is still to come to its end. -/
theorem System.free_after_iff {locker : Locker} {job : Job} {q : QueueName} (hq : q ≠ .now)
    {key : String} (hkey : job.key q = .ok key) {s s' : Shared} {before behind : List Thread}
    {c c' : Course (Call.submit job).Result} {n : Nat}
    (restrained : Restrained ⟨s, before ++ ⟨.submit job, c⟩ :: behind⟩) (step : c.Step s s' c')
    (evicted : c'.past = ⟨.evict q key, .ok n⟩ :: c.past) :
    (∀ sys, Reaches locker Call.IsLook ⟨s', before ++ ⟨.submit job, c'⟩ :: behind⟩ sys →
        sys.Accepted job → sys.shared.Free key) ↔
      ∀ t ∈ before ++ behind, ¬ t.Straddles key := by
  have moved : Step locker Call.IsLook ⟨s, before ++ ⟨.submit job, c⟩ :: behind⟩
      ⟨s', before ++ ⟨.submit job, c'⟩ :: behind⟩ := .run step
  have restrained' := Reaches.restrained (.single moved) restrained
  obtain ⟨next, hc, hc', swept⟩ := step.of_evicted evicted
  obtain ⟨rfl, free⟩ := free_of_evicted restrained.sound.shared hkey swept
  constructor
  · intro away t ht straddles
    have files := restrained.submission.files
    rw [hc] at files
    obtain ⟨k, file⟩ := files n
    rw [← hc'] at file
    obtain ⟨sys, run, accepted, f, hf, own⟩ :=
      exists_put_back locker restrained' file hq hkey ht straddles
    exact away sys run accepted q f hf own
  · intro idle sys run _
    rw [List.forall_mem_append] at idle
    have none : Free key ⟨s, before ++ ⟨.submit job, c'⟩ :: behind⟩ := by
      refine ⟨free, ?_⟩
      simp only [List.forall_mem_append, List.forall_mem_cons]
      refine ⟨idle.1, ?_, idle.2⟩
      rintro ⟨-, popped⟩
      rw [restrained'.submission.nothing] at popped
      exact nomatch popped
    exact (run.free restrained' (Job.not_isNowKey hq hkey) none).shared

/-- Among looks at queues, every accepted submission has come to the end of its eviction for each queue
of later runs, and when it does, the following are the same: nothing is filed under the evicted key in
any queue once the submission is accepted, whatever looks there are meanwhile and afterwards; and no
look that has popped a task under the key is still to come to its end. -/
theorem evicted_stays_out_iff {locker : Locker} {shared : Shared} (sound : shared.Sound) {job : Job}
    (range : job.InRange) {q : QueueName} (hq : q ≠ .now) {key : String}
    (hkey : job.key q = .ok key) :
    (∀ sys, System.Reaches locker Call.IsLook ⟨shared, [.begin locker (.submit job)]⟩ sys →
        ∀ k past n, .accepted job k past n ∈ sys.threads → ∃ e ∈ past, e.EndsEviction q key) ∧
      ∀ (s s' : Shared) (before behind : List Thread) (c c' : Course (Call.submit job).Result)
        (n : Nat),
        System.Reaches locker Call.IsLook ⟨shared, [.begin locker (.submit job)]⟩
          ⟨s, before ++ ⟨.submit job, c⟩ :: behind⟩ →
        c.Step s s' c' → c'.past = ⟨.evict q key, .ok n⟩ :: c.past →
        ((∀ sys, System.Reaches locker Call.IsLook ⟨s', before ++ ⟨.submit job, c'⟩ :: behind⟩ sys →
            sys.Accepted job → ∀ q, ∀ f ∈ sys.shared.tasks q, f.key ≠ key) ↔
          ∀ t ∈ before ++ behind, ¬ t.Straddles key) := by
  constructor
  · intro sys reached k past n mem
    exact System.evicted_of_accepted hkey reached mem
  · intro s s' before behind c c' n reached step evicted
    have restrained := reached.restrained (System.restrained_submit sound range)
    exact System.free_after_iff hq hkey restrained step evicted

def stirring : Galley.Step where
  step := 1
  name := "stir"
  image := "alpine"
  registryAuth := ""
  entrypoint := []
  command := []
  env := []
  environment := []
  trigger := "every.1.hours"
  timeout := ""

/-- A recipe with a step that recurs. -/
def porridge : Job := { pancakes with recipe := ⟨"porridge", "", [], [stirring]⟩ }

/-- What an earlier submission filed for the step. -/
def stirLater : Filed :=
  Execution.stepTask porridge stirring
    "[app][individual][userid:42][page:1][uuid:u-1][queue:every]" (.simple (.ofSeconds 3600)) 0

namespace Job

theorem porridge_inRange : porridge.InRange where
  timeout := Nat.zero_le _
  recipe s hs := by
    obtain rfl := List.mem_singleton.mp hs
    change 1 ≤ Text.Numeral.maxU32
    decide
  recipients _ h := nomatch h

theorem porridge_valid : porridge.validateSubmission = .ok () := by decide

theorem porridge_key (q : QueueName) : porridge.key q =
    .ok ("[app][individual][userid:42][page:1][uuid:u-1][queue:" ++ q.text ++ "]") :=
  pancakes_key q

end Job

theorem stirLater_key : porridge.key .recurring = .ok stirLater.key := Job.porridge_key .recurring

theorem stirLater_proper : stirLater.Proper .recurring :=
  Execution.stepTask_proper Job.porridge_inRange Job.porridge_valid (List.mem_singleton_self _)
    (by decide) stirLater_key (fun h => absurd rfl h) 0

/-- Queues with nothing but that task. -/
def pots : QueueName → Shelf
  | .recurring => .memory ⟨[stirLater]⟩
  | _ => .memory .empty

theorem pots_sound : Shared.Sound ⟨.empty, pots⟩ := by
  intro q
  cases q with
  | now => exact fun _ h => nomatch h
  | delayed => exact fun _ h => nomatch h
  | recurring =>
    intro f hf
    obtain rfl := List.mem_singleton.mp hf
    exact stirLater_proper

/-- One recurring task is enough for an accepted submission to leave it behind. -/
theorem exists_stirring_left_behind : porridge.key .recurring = .ok stirLater.key ∧
    ∃ sys, System.Reaches ⟨"/", none⟩ Call.IsLook
        ⟨⟨.empty, pots⟩, [.begin ⟨"/", none⟩ (.submit porridge)]⟩ sys ∧
      sys.Accepted porridge ∧ ∃ f ∈ sys.shared.tasks .recurring, f.key = stirLater.key :=
  ⟨stirLater_key, System.exists_left_behind _ pots_sound Job.porridge_inRange Job.porridge_valid
    (Job.porridge_key .now) (Running.isRunning_empty _) (by decide)
    (List.mem_singleton_self stirLater) stirLater_key⟩

def stirred : Shared := (Shared.pop ⟨.empty, pots⟩ .recurring).2

theorem stirred_isEmpty (q : QueueName) : (stirred.shelves q).isEmpty := by
  cases q <;> rfl

/-- A look that has popped the task holds it when the submission comes to the end of its eviction. -/
theorem evicted_stays_out_iff_stirring :
    ∃ (s : Shared) (behind : List Thread) (c c' : Course (Call.submit porridge).Result) (n : Nat),
      System.Reaches ⟨"/", none⟩ Call.IsLook
        ⟨⟨.empty, pots⟩, [.begin ⟨"/", none⟩ (.submit porridge)]⟩
        ⟨s, [] ++ ⟨.submit porridge, c⟩ :: behind⟩ ∧ c.Step s s c' ∧
      c'.past = ⟨.evict .recurring stirLater.key, .ok n⟩ :: c.past ∧
      ¬ ∀ sys, System.Reaches ⟨"/", none⟩ Call.IsLook
          ⟨s, [] ++ ⟨.submit porridge, c'⟩ :: behind⟩ sys →
        sys.Accepted porridge → ∀ q, ∀ f ∈ sys.shared.tasks q, f.key ≠ stirLater.key := by
  have popped : System.Reaches ⟨"/", none⟩ Call.IsLook
      ⟨⟨.empty, pots⟩, [.begin ⟨"/", none⟩ (.submit porridge)]⟩
      ⟨stirred, [.begin ⟨"/", none⟩ (.submit porridge), .popped .recurring stirLater]⟩ :=
    System.reaches_popped trivial rfl _
  have hnow := Job.porridge_key .now
  obtain ⟨layout, hl⟩ := Submission.exists_layout ⟨"/", none⟩ hnow
  obtain ⟨past, -, taken⟩ := Submission.exists_taken ⟨"/", none⟩ Job.porridge_valid hnow
    (s := stirred) (by decide)
  rw [Submission.filing_eq hl] at taken
  obtain ⟨c, c', run, step, evicted⟩ := Submission.exists_evicted
    (s := { stirred with running := stirred.running.mark _ })
    (fun q => (stirred_isEmpty q).sound) (fun q => (stirred_isEmpty q).tasks_eq_nil)
    stirLater_key (QueueName.mem_all _) _ past
  have reached := popped.trans
    (System.reaches_of_run _ [] [.popped .recurring stirLater] (taken.trans run))
  refine ⟨_, _, c, c', 0, reached, step, evicted, fun away => ?_⟩
  have idle := ((evicted_stays_out_iff pots_sound Job.porridge_inRange (by decide)
    stirLater_key).2 _ _ _ _ c c' 0 reached step evicted).mp away
  exact idle _ (List.mem_singleton_self _) ⟨rfl, List.mem_singleton_self _⟩

end Galley
