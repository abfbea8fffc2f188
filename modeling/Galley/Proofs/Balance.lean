import Galley.Proofs.Ledger
/-!
# The balance of a key

What calls hold under a key for runs at once and what is pending under it are balanced against its
mark: together they are one where the key is marked and nothing where it is not. Main statement:
every step of a call that follows the ledger keeps the balance of every such key, whatever the
others hold.
-/
namespace Galley

/-! ### Operations on shared queues -/

namespace Shared

/-- Whether all queues hold proper tasks only. -/
def Sound (s : Shared) : Prop := ∀ q, (s.shelves q).Sound q

def tasks (s : Shared) (q : QueueName) : List Filed := (s.shelves q).tasks q

/-- How many tasks are filed under a key in the queue for runs at once. -/
def pending (s : Shared) (key : String) : Nat :=
  (s.tasks .now).countP (·.key = key)

/-- Whether the queues differ in one task of one queue, which is only in the first. -/
structure Without (s s' : Shared) (q : QueueName) (f : Filed) : Prop where
  perm : (s.tasks q).Perm (f :: s'.tasks q)
  others : ∀ q' ≠ q, s'.shelves q' = s.shelves q'

variable {s s' : Shared}

theorem Without.pending {q : QueueName} {f : Filed} (h : s.Without s' q f) (key : String) :
    s.pending key = s'.pending key + if q = .now ∧ f.key = key then 1 else 0 := by
  unfold Shared.pending
  by_cases hq : q = .now
  · subst hq
    rw [h.perm.countP_eq, List.countP_cons]
    simp
  · rw [tasks, tasks, h.others .now (Ne.symm hq), if_neg fun h => hq h.1]
    rfl

theorem Without.mem {q q' : QueueName} {f g : Filed} (h : s.Without s' q f)
    (hg : g ∈ s'.tasks q') : g ∈ s.tasks q' := by
  by_cases hq : q' = q
  · subst hq
    exact h.perm.mem_iff.mpr (List.mem_cons_of_mem _ hg)
  · rwa [tasks, h.others q' hq] at hg

theorem Without.eq_or_mem {q q' : QueueName} {f g : Filed} (h : s.Without s' q f)
    (hg : g ∈ s.tasks q') : g = f ∨ g ∈ s'.tasks q' := by
  by_cases hq : q' = q
  · subst hq
    exact List.mem_cons.mp (h.perm.mem_iff.mp hg)
  · right
    rwa [tasks, h.others q' hq]

theorem Sound.setShelf (h : s.Sound) {q : QueueName} {shelf : Shelf} (hs : shelf.Sound q) :
    (s.setShelf q shelf).Sound := fun q' => by
  by_cases hq : q' = q
  · subst hq
    rwa [setShelf_self]
  · rw [setShelf_ne s hq]
    exact h q'

theorem Sound.proper (h : s.Sound) {q : QueueName} {f : Filed} (hf : f ∈ s.tasks q) :
    f.Proper q := (h q).proper hf

theorem setShelf_shelves (q : QueueName) : s.setShelf q (s.shelves q) = s := by
  cases s with
  | mk running shelves =>
    refine congrArg (Shared.mk running) (funext fun q' => ?_)
    by_cases hq : q' = q
    · subst hq
      exact if_pos rfl
    · exact if_neg hq

theorem tasks_setShelf (q : QueueName) (shelf : Shelf) :
    (s.setShelf q shelf).tasks q = shelf.tasks q := by
  rw [tasks, setShelf_self]

theorem without_setShelf {q : QueueName} {shelf : Shelf} {f : Filed}
    (perm : (s.tasks q).Perm (f :: shelf.tasks q)) : s.Without (s.setShelf q shelf) q f where
  perm := by rwa [tasks_setShelf]
  others _ hq := setShelf_ne s hq shelf

/-- A pop changes nothing, or takes a task and marks its key. -/
theorem Sound.pop (h : s.Sound) (q : QueueName) :
    (s.tasks q = [] ∧ s.pop q = (.error .notFound, s)) ∨ ∃ f s', s.pop q = (.ok f, s') ∧
      s'.Sound ∧ s'.running = s.running.mark f.key ∧ s.Without s' q f := by
  unfold Shared.pop
  rcases (h q).pop with ⟨none, hp⟩ | ⟨f, shelf, hp, sound, perm⟩
  · left
    rw [hp]
    exact ⟨none, congrArg (Prod.mk _) (setShelf_shelves q)⟩
  · right
    rw [hp]
    have without := without_setShelf (s := s) perm
    exact ⟨f, _, rfl, h.setShelf sound, rfl, without.perm, without.others⟩

/-- A push files the same work under the same key. -/
theorem Sound.pushed (h : s.Sound) {q : QueueName} {f : Filed} (hf : f.Proper q)
    (room : (s.shelves q).HasRoom f) :
    ∃ t g s', s.push q f = (.ok t, s') ∧ g.task = f.task ∧ g.key = f.key ∧ s'.Sound ∧
      s'.running = s.running ∧ s'.Without s q g := by
  obtain ⟨t, g, shelf, hp, task, hk, sound, perm⟩ := (h q).push hf room
  refine ⟨t, g, s.setShelf q shelf, by rw [Shared.push, hp], task, hk, h.setShelf sound, rfl, ?_, ?_⟩
  · rwa [tasks_setShelf]
  · exact fun q' hq => (setShelf_ne s hq shelf).symm

theorem Sound.push (h : s.Sound) {q : QueueName} {f : Filed} (hf : f.Proper q)
    (room : (s.shelves q).HasRoom f) :
    ∃ t g s', s.push q f = (.ok t, s') ∧ g.key = f.key ∧ s'.Sound ∧ s'.running = s.running ∧
      s'.Without s q g := by
  obtain ⟨t, g, s', hp, -, facts⟩ := h.pushed hf room
  exact ⟨t, g, s', hp, facts⟩

/-- A removal finds nothing under its key and changes nothing, or takes a task. -/
theorem Sound.remove (h : s.Sound) (q : QueueName) (key : String) :
    ((∀ f ∈ s.tasks q, f.key ≠ key) ∧ s.remove q key = (.error .notFound, s)) ∨
      ∃ f s', s.remove q key = (.ok f, s') ∧ f.key = key ∧ s'.Sound ∧ s'.running = s.running ∧
        s.Without s' q f := by
  unfold Shared.remove
  rcases (h q).remove key with ⟨none, hp⟩ | ⟨f, shelf, hk, hp, sound, perm⟩
  · left
    rw [hp]
    exact ⟨none, congrArg (Prod.mk _) (setShelf_shelves q)⟩
  · right
    rw [hp]
    exact ⟨f, _, rfl, hk, h.setShelf sound, rfl, without_setShelf perm⟩

end Shared

/-! ### One step of one call -/

/-- How often a key is marked. -/
def Running.marks (r : Running) (key : String) : Nat :=
  if r.isRunning key then 1 else 0

theorem Running.marks_mark (r : Running) (key : String) : (r.mark key).marks key = 1 := by
  simp [marks]

theorem Running.marks_mark_ne (r : Running) {key other : String} (h : other ≠ key) :
    (r.mark key).marks other = r.marks other := by
  simp [marks, h]

theorem Running.marks_unmark (r : Running) (key : String) : (r.unmark key).marks key = 0 := by
  simp [marks]

theorem Running.marks_unmark_ne (r : Running) {key other : String} (h : other ≠ key) :
    (r.unmark key).marks other = r.marks other := by
  simp [marks, h]

theorem Running.marks_le (r : Running) (key : String) : r.marks key ≤ 1 := by
  unfold marks
  split <;> omega

/-- Whether what `n` others and a call hold and what is pending is balanced against the mark. -/
def Balanced (key : String) (n : Nat) (s : Shared) (held : List String) : Prop :=
  n + held.count key + s.pending key = s.running.marks key

section Course

variable {α : Type} {post : List String → α → Prop} {s s' : Shared} {p p' : Course α}

/-- A course that keeps to the ledger, given what it holds. -/
def Course.Sound (post : List String → α → Prop) (p : Course α) : Prop :=
  p.process.Follows ledger post (heldAfter p.past)

theorem Shared.Answers.sound {a : Action} {r : a.Answer} (h : s.Answers a r s') (hs : s.Sound)
    {held : List String} (allowed : ledger.allows held a) : s'.Sound ∧ ledger.promises a r := by
  cases h with
  | tryAcquire key => exact ⟨hs, trivial⟩
  | unmark key => exact ⟨hs, trivial⟩
  | pop q =>
    rcases hs.pop q with ⟨-, hp⟩ | ⟨f, s', hp, hs', -, without⟩
    · rw [hp]
      exact ⟨hs, trivial⟩
    · rw [hp]
      exact ⟨hs', hs.proper (without.perm.mem_iff.mpr List.mem_cons_self)⟩
  | push q f room =>
    obtain ⟨t, g, s', hp, -, hs', -⟩ := hs.push allowed.1 room
    rw [hp]
    exact ⟨hs', t, rfl⟩
  | refile q f room =>
    obtain ⟨t, g, s', hp, -, hs', -⟩ := hs.push allowed.1 room
    rw [hp]
    exact ⟨hs', t, rfl⟩
  | quiet a r quiet =>
    refine ⟨hs, ?_⟩
    cases a <;> trivial

/-- Every step of a call that keeps to the ledger leaves proper tasks in the queues and the call with
the ledger. -/
theorem Course.Step.sound (h : p.Step s s' p') (hs : s.Sound) (hp : p.Sound post) :
    s'.Sound ∧ p'.Sound post := by
  cases h with
  | act h =>
    obtain ⟨allowed, next⟩ := hp
    obtain ⟨hs', promised⟩ := h.sound hs allowed
    exact ⟨hs', next _ promised⟩
  | removed h =>
    rcases hs.remove _ _ with ⟨-, hr⟩ | ⟨f, s', hr, -, hs', -⟩
    · rw [h] at hr
      exact nomatch hr
    · rw [h] at hr
      obtain ⟨-, rfl⟩ := Prod.mk.inj hr
      exact ⟨hs', hp⟩
  | swept h =>
    rcases hs.remove _ _ with ⟨-, hr⟩ | ⟨f, s', hr, -⟩
    · rw [h] at hr
      obtain ⟨-, rfl⟩ := Prod.mk.inj hr
      exact ⟨hs, hp.2 _ trivial⟩
    · rw [h] at hr
      exact nomatch hr

theorem balanced_push (hs : s.Sound) {held : List String} {q : QueueName} {f : Filed}
    (allowed : f.Proper q ∧ (q = .now → f.key ∈ held)) (room : (s.shelves q).HasRoom f)
    {key : String} {n : Nat} (balanced : Balanced key n s held) :
    Balanced key n (s.push q f).2 ((Action.push q f).held held (s.push q f).1) := by
  obtain ⟨t, g, s', hp, hk, -, running, without⟩ := hs.push allowed.1 room
  have all := without.pending key
  rw [hk] at all
  unfold Balanced at balanced ⊢
  rw [hp, Action.held_push_ok]
  change _ + _ + s'.pending key = s'.running.marks key
  rw [running]
  by_cases hq : q = .now
  · rw [if_pos hq]
    by_cases own : f.key = key
    · have positive := List.count_pos_iff.mpr (own ▸ allowed.2 hq)
      rw [if_pos ⟨hq, own⟩] at all
      rw [own, List.count_erase_self]
      omega
    · rw [if_neg fun h => own h.2] at all
      rw [List.count_erase_of_ne (Ne.symm own)]
      omega
  · rw [if_neg fun h => hq h.1] at all
    rw [if_neg hq]
    omega

/-- Every answer leaves the balance of a key for runs at once: what is held and what is pending
change together with the mark. -/
theorem Shared.Answers.balanced {a : Action} {r : a.Answer} (h : s.Answers a r s') (hs : s.Sound)
    {held : List String} (allowed : ledger.allows held a) {key : String} (hkey : IsNowKey key)
    {n : Nat} (balanced : Balanced key n s held) : Balanced key n s' (a.held held r) := by
  have bound := s.running.marks_le key
  unfold Balanced at balanced ⊢
  cases h with
  | tryAcquire k =>
    by_cases marked : s.running.isRunning k = true
    · have same : s.running.tryAcquire k = (false, s.running) := if_pos marked
      rw [same]
      exact balanced
    · have took : s.running.tryAcquire k = (true, s.running.mark k) := if_neg marked
      rw [took]
      change n + (k :: held).count key + s.pending key = (s.running.mark k).marks key
      by_cases own : k = key
      · subst own
        rw [List.count_cons_self, Running.marks_mark]
        have free : s.running.marks k = 0 := if_neg marked
        omega
      · rw [List.count_cons_of_ne own, Running.marks_mark_ne _ (Ne.symm own)]
        exact balanced
  | unmark k =>
    change n + (held.erase k).count key + s.pending key = (s.running.unmark k).marks key
    by_cases own : k = key
    · subst own
      have positive := List.count_pos_iff.mpr (allowed hkey)
      rw [List.count_erase_self, Running.marks_unmark]
      omega
    · rw [List.count_erase_of_ne (Ne.symm own), Running.marks_unmark_ne _ (Ne.symm own)]
      exact balanced
  | pop q =>
    rcases hs.pop q with ⟨-, hp⟩ | ⟨f, s', hp, -, running, without⟩
    · rw [hp, Action.held_pop_error]
      exact balanced
    · rw [hp, Action.held_pop_ok]
      change _ + _ + s'.pending key = s'.running.marks key
      have proper := hs.proper (without.perm.mem_iff.mpr List.mem_cons_self)
      have all := without.pending key
      rw [running]
      by_cases hq : q = .now
      · rw [if_pos hq]
        by_cases own : f.key = key
        · rw [if_pos ⟨hq, own⟩] at all
          rw [own, List.count_cons_self, Running.marks_mark]
          omega
        · rw [if_neg fun h => own h.2] at all
          rw [List.count_cons_of_ne own, Running.marks_mark_ne _ (Ne.symm own)]
          omega
      · have other : key ≠ f.key := fun h => proper.not_isNowKey hq (h ▸ hkey)
        rw [if_neg fun h => hq h.1] at all
        rw [if_neg hq, Running.marks_mark_ne _ other]
        omega
  | push q f room => exact balanced_push hs allowed room balanced
  | refile q f room =>
    rw [Action.held_refile]
    exact balanced_push hs allowed room balanced
  | quiet a r quiet =>
    rw [Action.held_of_isQuiet held quiet]
    exact balanced

/-- An eviction for a held key finds nothing that is pending under it. -/
theorem Course.Step.balanced (h : p.Step s s' p') (hs : s.Sound) (hp : p.Sound post)
    {key : String} (hkey : IsNowKey key) {n : Nat}
    (balanced : Balanced key n s (heldAfter p.past)) :
    Balanced key n s' (heldAfter p'.past) := by
  cases h with
  | act h => exact h.balanced hs hp.1 hkey balanced
  | @removed _ q k f next past m h =>
    rcases hs.remove q k with ⟨-, hr⟩ | ⟨f, s', hr, hk, -, running, without⟩
    · rw [h] at hr
      exact nomatch hr
    · rw [h] at hr
      obtain ⟨-, rfl⟩ := Prod.mk.inj hr
      have bound := s.running.marks_le key
      have all := without.pending key
      rw [hk] at all
      have own : ¬ (q = .now ∧ k = key) := by
        rintro ⟨rfl, rfl⟩
        have held : k ∈ heldAfter past := hp.1 rfl
        have positive := List.count_pos_iff.mpr held
        rw [if_pos ⟨rfl, rfl⟩] at all
        unfold Balanced at balanced
        dsimp only at balanced
        omega
      rw [if_neg own] at all
      unfold Balanced at balanced ⊢
      rw [running]
      dsimp only at balanced ⊢
      omega
  | @swept _ q k next past m h =>
    rcases hs.remove q k with ⟨-, hr⟩ | ⟨f, s', hr, -⟩
    · rw [h] at hr
      obtain ⟨-, rfl⟩ := Prod.mk.inj hr
      exact balanced
    · rw [h] at hr
      exact nomatch hr

end Course

end Galley
