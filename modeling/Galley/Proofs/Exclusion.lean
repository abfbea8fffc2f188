import Galley.Proofs.Schedules
/-!
# Exclusion

A key for runs at once belongs to one at a time: to a submission that took it, to a task that is
filed under it, to whoever popped that task, or to the execution of a step that guards it. The marks
say exactly which keys belong to somebody. Main statement: so it is in every state that calls lead
to from empty queues.
-/
namespace Galley

/-! ### Owners of a key -/

namespace Call

def isSubmission : Call → Bool
  | .submit _ => true
  | _ => false

/-- Whether a call pops tasks or runs one that was popped from the queue for runs at once. -/
def handlesPopped : Call → Bool
  | .dispatch _ => true
  | .execute .now _ => true
  | _ => false

/-- Whether a call runs a step that was filed. -/
def runsFiledStep : Call → Bool
  | .execute .delayed _ => true
  | .execute .recurring _ => true
  | _ => false

/-- Whether the numbers of a submitted job have their widths. -/
def InRange : Call → Prop
  | .submit job => job.InRange
  | _ => True

/-- What a call holds when it is over. -/
def final : (call : Call) → List String → call.Result → Prop
  | .submit _ => fun held _ => held = []
  | .dispatch q => Dispatch.Hands q
  | .execute _ _ => fun held _ => held = []

end Call

namespace Thread

/-- Whether a call has come to its end. A look at a queue that hands out a task is not over before
the task is executed. -/
def isOver : Thread → Bool
  | ⟨.dispatch _, .done (some _), _, _⟩ => false
  | ⟨_, .done _, _, _⟩ => true
  | _ => false

/-- Whether a call is under way and holds a key. -/
def holds (t : Thread) (key : String) : Bool :=
  !t.isOver && decide (key ∈ t.held)

end Thread

namespace System

/-- The calls of a kind that are under way and hold a key. -/
def holding (sys : System) (kind : Call → Bool) (key : String) : Nat :=
  sys.threads.countP fun t => kind t.call && t.holds key

/-- The submissions that took a key and have neither filed their job nor failed. -/
def submitting (sys : System) (key : String) : Nat :=
  sys.holding Call.isSubmission key

/-- The tasks that are filed under a key in the queue for runs at once. -/
def pending (sys : System) (key : String) : Nat :=
  sys.shared.pending key

/-- The tasks that were popped from the queue for runs at once and are neither filed again nor
finished. -/
def popped (sys : System) (key : String) : Nat :=
  sys.holding Call.handlesPopped key

/-- The executions of filed steps that guard a key. -/
def guarding (sys : System) (key : String) : Nat :=
  sys.holding Call.runsFiledStep key

/-- Everything that a key belongs to. -/
def owners (sys : System) (key : String) : Nat :=
  sys.submitting key + sys.pending key + sys.popped key + sys.guarding key

end System

/-! ### The balance of the whole -/

namespace Thread

def Sound (t : Thread) : Prop := t.course.Sound t.call.final

variable {t : Thread}

/-- A call that is over has given back what it held. -/
theorem Sound.held_of_isOver (h : t.Sound) (ended : t.isOver = true) : t.held = [] := by
  obtain ⟨call, process, past, n⟩ := t
  cases process with
  | act a next => cases call <;> exact nomatch ended
  | done r =>
    cases call with
    | submit job => exact h
    | execute q f => exact h
    | dispatch q =>
      cases r with
      | none => exact h
      | some f => exact nomatch ended

theorem Sound.holds_eq (h : t.Sound) (key : String) : t.holds key = decide (key ∈ t.held) := by
  rw [holds]
  cases ended : t.isOver with
  | false => rw [Bool.not_false, Bool.true_and]
  | true => simp [h.held_of_isOver ended]

end Thread

namespace System

/-- How often a key is held. -/
def stakes : List Thread → String → Nat
  | [], _ => 0
  | t :: threads, key => t.held.count key + stakes threads key

structure Sound (sys : System) : Prop where
  shared : sys.shared.Sound
  threads : ∀ t ∈ sys.threads, t.Sound

def Balanced (key : String) (sys : System) : Prop :=
  stakes sys.threads key + sys.shared.pending key = sys.shared.running.marks key

theorem stakes_cons (t : Thread) (ts : List Thread) (key : String) :
    stakes (t :: ts) key = t.held.count key + stakes ts key := rfl

theorem stakes_append (ts us : List Thread) (key : String) :
    stakes (ts ++ us) key = stakes ts key + stakes us key := by
  induction ts with
  | nil => exact (Nat.zero_add _).symm
  | cons t ts ih => rw [List.cons_append, stakes_cons, stakes_cons, ih, Nat.add_assoc]

theorem balanced_split {s : Shared} {before behind : List Thread} {t : Thread} {key : String} :
    Balanced key ⟨s, before ++ t :: behind⟩ ↔
      Galley.Balanced key (stakes before key + stakes behind key) s t.held := by
  unfold Balanced Galley.Balanced
  rw [stakes_append, stakes_cons]
  constructor <;> intro h <;> dsimp only at h ⊢ <;> omega

variable {locker : Locker} {starts : Call → Prop} {sys sys' : System}

theorem Sound.append {s : Shared} {threads : List Thread} (h : Sound ⟨s, threads⟩) {t : Thread}
    (ht : t.Sound) : Sound ⟨s, threads ++ [t]⟩ where
  shared := h.shared
  threads u hu := (List.mem_append.mp hu).elim (h.threads u) fun hu =>
    List.mem_singleton.mp hu ▸ ht

theorem Sound.replace {s s' : Shared} {before behind : List Thread} {t t' : Thread}
    (h : Sound ⟨s, before ++ t :: behind⟩) (hs : s'.Sound) (ht : t'.Sound) :
    Sound ⟨s', before ++ t' :: behind⟩ where
  shared := hs
  threads u hu := by
    rcases List.mem_append.mp hu with hu | hu
    · exact h.threads u (List.mem_append_left _ hu)
    rcases List.mem_cons.mp hu with rfl | hu
    · exact ht
    · exact h.threads u (List.mem_append_right _ (List.mem_cons_of_mem _ hu))

theorem Sound.thread {s : Shared} {before behind : List Thread} {t : Thread}
    (h : Sound ⟨s, before ++ t :: behind⟩) : t.Sound :=
  h.threads t (List.mem_append_right _ List.mem_cons_self)

/-- What a look hands out is executed with the ledger. -/
theorem handOver_sound {q : QueueName} {f : Filed} {past : List Event} {n : Nat}
    (h : Thread.Sound ⟨.dispatch q, .done (some f), past, n⟩) :
    Thread.Sound ⟨.execute q f, f.execute locker, past, 0⟩ := by
  obtain ⟨proper, stake⟩ : f.Proper q ∧ heldAfter past = f.stake q := h
  have follows := f.execute_follows locker proper
  rw [← stake] at follows
  exact follows

theorem Step.sound (typed : ∀ call, starts call → call.InRange)
    (h : Step locker starts sys sys') (hs : sys.Sound) : sys'.Sound := by
  cases h with
  | submit start => exact hs.append (Job.submit_follows locker (typed _ start))
  | dispatch _ => exact hs.append (Dispatch.popDue_follows _)
  | run step =>
    obtain ⟨shared, course⟩ := step.sound hs.shared hs.thread
    exact hs.replace shared course
  | handOver _ => exact hs.replace hs.shared (handOver_sound hs.thread)

theorem Step.balanced (h : Step locker starts sys sys') (hs : sys.Sound) {key : String}
    (hkey : IsNowKey key) (balanced : sys.Balanced key) : sys'.Balanced key := by
  have added {s : Shared} {threads : List Thread} (balanced : Balanced key ⟨s, threads⟩)
      (call : Call) : Balanced key ⟨s, threads ++ [.begin locker call]⟩ := by
    unfold Balanced at balanced ⊢
    rw [stakes_append, stakes_cons]
    exact balanced
  cases h with
  | submit _ => exact added balanced _
  | dispatch _ => exact added balanced _
  | run step =>
    rw [balanced_split] at balanced ⊢
    exact step.balanced hs.shared hs.thread hkey balanced
  | handOver _ =>
    rw [balanced_split] at balanced ⊢
    exact balanced

theorem Reaches.sound (typed : ∀ call, starts call → call.InRange)
    (h : Reaches locker starts sys sys') (hs : sys.Sound) : sys'.Sound := by
  induction h with
  | refl => exact hs
  | tail _ step ih => exact step.sound typed ih

/-- The run lemma: what is sound and balanced stays so. -/
theorem Reaches.balanced (typed : ∀ call, starts call → call.InRange)
    (h : Reaches locker starts sys sys') (hs : sys.Sound) {key : String} (hkey : IsNowKey key)
    (balanced : sys.Balanced key) : sys'.Balanced key := by
  induction h with
  | refl => exact balanced
  | tail reached step ih => exact step.balanced (Reaches.sound typed reached hs) hkey ih

/-! ### Counting owners -/

/-- Every call is of one kind. -/
theorem holding_eq (threads : List Thread) (key : String) (s : Shared) :
    submitting ⟨s, threads⟩ key + popped ⟨s, threads⟩ key + guarding ⟨s, threads⟩ key =
      threads.countP (·.holds key) := by
  unfold submitting popped guarding holding
  induction threads with
  | nil => rfl
  | cons t threads ih =>
    simp only [List.countP_cons] at ih ⊢
    have kinds : (if (t.call.isSubmission && t.holds key) = true then 1 else 0) +
        (if (t.call.handlesPopped && t.holds key) = true then 1 else 0) +
        (if (t.call.runsFiledStep && t.holds key) = true then 1 else 0) =
        if t.holds key = true then 1 else 0 := by
      generalize t.holds key = held
      obtain ⟨call, course⟩ := t
      match call with
      | .submit _ => simp [Call.isSubmission, Call.handlesPopped, Call.runsFiledStep]
      | .dispatch _ => simp [Call.isSubmission, Call.handlesPopped, Call.runsFiledStep]
      | .execute .now _ => simp [Call.isSubmission, Call.handlesPopped, Call.runsFiledStep]
      | .execute .delayed _ => simp [Call.isSubmission, Call.handlesPopped, Call.runsFiledStep]
      | .execute .recurring _ => simp [Call.isSubmission, Call.handlesPopped, Call.runsFiledStep]
    omega

/-- Where a key is held at most once, its holders are as many as its stakes. -/
theorem countP_holds {threads : List Thread} (sound : ∀ t ∈ threads, t.Sound) {key : String}
    (once : stakes threads key ≤ 1) : threads.countP (·.holds key) = stakes threads key := by
  induction threads with
  | nil => rfl
  | cons t threads ih =>
    obtain ⟨first, others⟩ := List.forall_mem_cons.mp sound
    rw [stakes_cons] at once ⊢
    rw [List.countP_cons, ih others (by omega), first.holds_eq]
    by_cases held : key ∈ t.held
    · have positive := List.count_pos_iff.mpr held
      rw [if_pos (by simpa using held)]
      omega
    · rw [if_neg (by simpa using held), List.count_eq_zero.mpr held]
      omega

theorem Balanced.owners_eq {key : String} (h : sys.Balanced key) (sound : sys.Sound) :
    sys.owners key = sys.shared.running.marks key := by
  have bound := sys.shared.running.marks_le key
  unfold Balanced at h
  have kinds := holding_eq sys.threads key sys.shared
  rw [countP_holds sound.threads (by omega)] at kinds
  unfold owners
  have all : sys.pending key = sys.shared.pending key := rfl
  have same : (⟨sys.shared, sys.threads⟩ : System) = sys := rfl
  rw [same] at kinds
  omega

end System

/-- From empty queues and no marks, a key for runs at once belongs to at most one submission, filed
task, popped task or guarding execution in every state, and it is marked exactly while it belongs to
one. -/
theorem fresh_exclusive {locker : Locker} {shelves : QueueName → Shelf}
    (empty : ∀ q, (shelves q).isEmpty) {sys : System}
    (reached : System.Reaches locker Call.InRange ⟨⟨.empty, shelves⟩, []⟩ sys) {job : Job}
    {key : String} (hkey : job.key .now = .ok key) :
    sys.submitting key + sys.pending key + sys.popped key + sys.guarding key ≤ 1 ∧
      (sys.shared.running.isRunning key = true ↔
        sys.submitting key + sys.pending key + sys.popped key + sys.guarding key = 1) := by
  have sound : System.Sound ⟨⟨.empty, shelves⟩, []⟩ :=
    ⟨fun q => (empty q).sound, fun _ h => nomatch h⟩
  have balanced : System.Balanced key ⟨⟨.empty, shelves⟩, []⟩ := by
    have none : Shared.pending ⟨.empty, shelves⟩ key = 0 := by
      rw [Shared.pending, Shared.tasks, (empty .now).tasks_eq_nil, List.countP_nil]
    exact (Nat.zero_add _).trans none
  have typed (call : Call) (h : call.InRange) : call.InRange := h
  have owners := (reached.balanced typed sound ⟨job, hkey⟩ balanced).owners_eq
    (reached.sound typed sound)
  change sys.owners key ≤ 1 ∧ (_ ↔ sys.owners key = 1)
  rw [owners, Running.marks]
  split <;> simp_all

/-- A recipe without steps. -/
def pancakes : Job where
  entity := .app
  uuid := "u-1"
  cookbookId := ""
  appId := "7"
  userId := "42"
  username := "ann"
  pageId := "1"
  stepId := ""
  scope := "individual"
  env := []
  containerTimeoutSecs := 0
  recipe := ⟨"pancakes", "", [], []⟩
  recipients := []

namespace Job

theorem pancakes_inRange : pancakes.InRange where
  timeout := Nat.zero_le _
  recipe _ h := nomatch h
  recipients _ h := nomatch h

theorem pancakes_valid : pancakes.validateSubmission = .ok () := by decide

theorem pancakes_key (q : QueueName) : pancakes.key q =
    .ok ("[app][individual][userid:42][page:1][uuid:u-1][queue:" ++ q.text ++ "]") := by
  cases q <;> decide

end Job

/-- A submission alone takes its key, which is marked then. -/
theorem fresh_exclusive_pancakes :
    ∃ sys key, System.Reaches ⟨"/", none⟩ Call.InRange
        ⟨⟨.empty, fun _ => .memory .empty⟩, []⟩ sys ∧ pancakes.key .now = .ok key ∧
      sys.shared.running.isRunning key = true ∧
      sys.submitting key + sys.pending key + sys.popped key + sys.guarding key ≤ 1 ∧
      (sys.shared.running.isRunning key = true ↔
        sys.submitting key + sys.pending key + sys.popped key + sys.guarding key = 1) := by
  have hkey := Job.pancakes_key .now
  obtain ⟨past, -, taken⟩ := Submission.exists_taken ⟨"/", none⟩ Job.pancakes_valid hkey
    (s := ⟨.empty, fun _ => .memory .empty⟩) rfl
  have begun : System.Step ⟨"/", none⟩ Call.InRange ⟨⟨.empty, fun _ => .memory .empty⟩, []⟩
      ⟨⟨.empty, fun _ => .memory .empty⟩, [.begin ⟨"/", none⟩ (.submit pancakes)]⟩ :=
    .submit Job.pancakes_inRange
  have reached := (Relation.ReflTransGen.single begun).trans (System.reaches_of_run _ [] [] taken)
  have empty (q : QueueName) : ((fun _ => .memory .empty : QueueName → Shelf) q).isEmpty := rfl
  refine ⟨_, _, reached, hkey, ?_, fresh_exclusive empty reached hkey⟩
  simp

end Galley
