import Galley.Proofs.Queue.Listing
import Galley.Proofs.Schedules
/-!
# Calls on their own

A call that goes on while all others stand still. Its evictions are not cut into removals then, and
each of its actions is done as a whole. A process ensures a fact when it holds at the end of every
branch of its tree, whatever the actions on the way are answered with. Main statements: what a process
ensures holds after every run of it, and what actions on queues make of shelves on which anything may
lie.
-/
namespace Galley

open Process

/-! ### Actions as a whole -/

namespace Shared

/-- An eviction: removals until nothing is found. -/
inductive Evicts (q : QueueName) (key : String) : Shared → Shared → Prop
  | last {s s' : Shared} (h : s.remove q key = (.error .notFound, s')) : Evicts q key s s'
  | more {s s' s'' : Shared} {f : Filed} (h : s.remove q key = (.ok f, s'))
      (rest : Evicts q key s' s'') : Evicts q key s s''

/-- The answers to an action, evictions among them, with what it leaves behind. -/
inductive Does (s : Shared) : (a : Action) → a.Answer → Shared → Prop
  | once {a : Action} {r : a.Answer} {s' : Shared} (h : s.Answers a r s') : Does s a r s'
  | evicts {q : QueueName} {key : String} {s' : Shared} (h : Evicts q key s s') (n : Nat) :
      Does s (.evict q key) (.ok n) s'

end Shared

/-! ### What a process ensures -/

namespace Process

variable {α β ε ε' : Type}

def Ensures (post : Shared → List Event → α → Prop) (s : Shared) (past : List Event) :
    Process α → Prop
  | .done a => post s past a
  | .act a next => ∀ r s', s.Does a r s' → (next r).Ensures post s' (⟨a, r⟩ :: past)

variable {post mid : Shared → List Event → α → Prop} {s : Shared} {past : List Event}
  {p : Process α}

theorem Ensures.mono {post' : Shared → List Event → α → Prop} (h : p.Ensures post s past)
    (weaker : ∀ s past a, post s past a → post' s past a) : p.Ensures post' s past := by
  induction p generalizing s past with
  | done a => exact weaker s past a h
  | act a next ih => exact fun r s' does => ih r (h r s' does)

theorem Ensures.bind {post : Shared → List Event → β → Prop} {f : α → Process β}
    (h : p.Ensures mid s past) (hf : ∀ s past a, mid s past a → (f a).Ensures post s past) :
    (p.bind f).Ensures post s past := by
  induction p generalizing s past with
  | done a => exact hf s past a h
  | act a next ih => exact fun r s' does => ih r (h r s' does)

/-- A process that may fail, and what is done with its result. -/
theorem Ensures.andThen {mid : Shared → List Event → Except ε α → Prop}
    {post : Shared → List Event → Except ε' β → Prop} {p : Process (Except ε α)} {wrap : ε → ε'}
    {f : α → Process (Except ε' β)} (h : p.Ensures mid s past)
    (failed : ∀ s past e, mid s past (.error e) → post s past (.error (wrap e)))
    (hf : ∀ s past a, mid s past (.ok a) → (f a).Ensures post s past) :
    (p.andThen wrap f).Ensures post s past :=
  h.bind fun s past r hr =>
    match r with
    | .error e => failed s past e hr
    | .ok a => hf s past a hr

theorem Ends.ensures {P : α → Prop} (h : p.Ends P) (s : Shared) (past : List Event) :
    p.Ensures (fun _ _ a => P a) s past := by
  induction p generalizing s past with
  | done a => exact h
  | act a next ih => exact fun r s' _ => ih r (h r) s' _

theorem Ensures.and (h : p.Ensures post s past) (h' : p.Ensures mid s past) :
    p.Ensures (fun s past a => post s past a ∧ mid s past a) s past := by
  induction p generalizing s past with
  | done a => exact ⟨h, h'⟩
  | act a next ih => exact fun r s' does => ih r (h r s' does) (h' r s' does)

theorem does_quiet {a : Action} (quiet : a.IsQuiet) {r : a.Answer} {s' : Shared}
    (h : s.Does a r s') : s' = s := by
  cases h with
  | once h =>
    cases h with
    | quiet => rfl
    | tryAcquire | unmark | pop | push | refile => exact quiet.elim
  | evicts => exact quiet.elim

/-- A quiet process leaves marks and queues as they are. -/
theorem Quiet.ensures (h : p.Quiet) (s : Shared) (past : List Event) :
    p.Ensures (fun s' _ _ => s' = s) s past := by
  induction p generalizing past with
  | done a => rfl
  | act a next ih =>
    intro r s' does
    obtain rfl := does_quiet h.1 does
    exact ih r (h.2 r) _

end Process

/-- What a process ensures is ensured by what is left of it after a step. In the middle of an eviction
the rest of it is an eviction too. -/
theorem Course.Step.ensures {α : Type} {post : Shared → List Event → α → Prop} {s s' : Shared}
    {p p' : Course α} (step : p.Step s s' p') (h : p.process.Ensures post s p.past) :
    p'.process.Ensures post s' p'.past := by
  cases step with
  | act answers => exact h _ _ (.once answers)
  | removed hr =>
    intro r s'' does
    cases does with
    | once answers =>
      cases answers with
      | quiet _ _ quiet => exact quiet.elim
    | evicts rest n => exact h _ _ (.evicts (.more hr rest) n)
  | swept hr => exact h _ _ (.evicts (.last hr) _)

/-- What a process ensures holds when it has come to its end on its own. -/
theorem Course.Run.ensured {α : Type} {s s' : Shared}
    {p : Process α} {a : α} {past past' : List Event} {n n' : Nat}
    (run : Course.Run s ⟨p, past, n⟩ s' ⟨.done a, past', n'⟩)
    (post : Shared → List Event → α → Prop) (h : p.Ensures post s past) : post s' past' a := by
  suffices all : ∀ x y : Shared × Course α,
      Relation.ReflTransGen (fun x y : Shared × Course α => x.2.Step x.1 y.1 y.2) x y →
      x.2.process.Ensures post x.1 x.2.past → y.2.process.Ensures post y.1 y.2.past from
    all _ _ run h
  intro x y run h
  induction run with
  | refl => exact h
  | tail _ step ih => exact step.ensures ih

/-! ### Actions on shelves with anything on them -/

namespace Shared

def Named (s : Shared) : Prop := ∀ q, (s.shelves q).Named

variable {s s' : Shared} {q : QueueName} {key : String}

theorem Named.setShelf (h : s.Named) {shelf : Shelf} (there : shelf.Named) :
    (s.setShelf q shelf).Named := by
  intro q'
  by_cases hq : q' = q
  · subst hq
    rw [setShelf_self]
    exact there
  · rw [setShelf_ne s hq]
    exact h q'

/-- Whether one state came of another by taking what is filed under a key out of one queue. -/
structure Evicted (q : QueueName) (key : String) (s s' : Shared) : Prop where
  named : s'.Named
  running : s'.running = s.running
  others : ∀ q' ≠ q, s'.shelves q' = s.shelves q'
  tasks : s'.tasks q = (s.tasks q).filter (·.key ≠ key)

theorem Evicts.evicted (h : Evicts q key s s') (named : s.Named) : Evicted q key s s' := by
  induction h with
  | @last s s' hr =>
    rcases (named q).remove q key with ⟨nothing, none⟩ | ⟨f, shelf, found, -⟩
    · rw [Shared.remove, nothing] at hr
      obtain ⟨-, rfl⟩ := Prod.mk.inj hr
      rw [setShelf_eq_self s rfl]
      refine ⟨named, rfl, fun _ _ => rfl, (List.filter_eq_self.mpr fun f hf => ?_).symm⟩
      exact decide_eq_true (none f hf)
    · rw [Shared.remove, found] at hr
      exact nomatch (Prod.mk.inj hr).1
  | @more s s' s'' g hr _ ih =>
    rcases (named q).remove q key with ⟨nothing, -⟩ | ⟨f, shelf, found, there, same⟩
    · rw [Shared.remove, nothing] at hr
      exact nomatch (Prod.mk.inj hr).1
    · rw [Shared.remove, found] at hr
      obtain ⟨-, rfl⟩ := Prod.mk.inj hr
      have rest := ih (named.setShelf there)
      refine ⟨rest.named, rest.running, fun q' hq => ?_, ?_⟩
      · rw [rest.others q' hq, setShelf_ne s hq]
      · rw [rest.tasks, Shared.tasks, setShelf_self, same]
        rfl

theorem Does.evict {r : Except QueueError Nat} (h : s.Does (.evict q key) r s') (named : s.Named) :
    (∃ n, r = .ok n) ∧ Evicted q key s s' := by
  cases h with
  | once h =>
    cases h with
    | quiet _ _ quiet => exact quiet.elim
  | evicts h n => exact ⟨⟨n, rfl⟩, h.evicted named⟩

/-- Whether one state came of another by filing one task. -/
structure Filing (q : QueueName) (f : Filed) (s s' : Shared) : Prop where
  named : s'.Named
  running : s'.running = s.running
  others : ∀ q' ≠ q, s'.shelves q' = s.shelves q'
  tasks : ∃ t before behind, f.nextRun ≤ t ∧ t ≤ Text.Numeral.maxI64 ∧
    s.tasks q = before ++ behind ∧
    s'.tasks q = before ++ (s.shelves q).stored { f with nextRun := t } :: behind

/-- Whether one state came of another by filing one task at a time that was found for it. -/
structure FilingAt (q : QueueName) (f : Filed) (t : Int) (s s' : Shared) : Prop where
  late : f.nextRun ≤ t
  last : t ≤ Text.Numeral.maxI64
  named : s'.Named
  running : s'.running = s.running
  others : ∀ q' ≠ q, s'.shelves q' = s.shelves q'
  stored : (s'.shelves q).stored = (s.shelves q).stored
  tasks : ∃ before behind, s.tasks q = before ++ behind ∧
    s'.tasks q = before ++ (s.shelves q).stored { f with nextRun := t } :: behind

theorem FilingAt.filing {f : Filed} {t : Int} (h : FilingAt q f t s s') : Filing q f s s' := by
  obtain ⟨before, behind, whole, new⟩ := h.tasks
  exact ⟨h.named, h.running, h.others, t, before, behind, h.late, h.last, whole, new⟩

/-- A push fails where a directory is in the way, and files its task otherwise, at the time that it is
answered with. -/
theorem Does.push_at {f : Filed} {r : Except QueueError Int} (h : s.Does (.push q f) r s')
    (named : s.Named) (hf : f.Storable q) :
    r = .error (.io .isDirectory) ∧ s' = s ∨ ∃ t, r = .ok t ∧ FilingAt q f t s s' := by
  cases h with
  | once h =>
    cases h with
    | quiet _ _ quiet => exact quiet.elim
    | push _ _ room =>
      have kind := (s.shelves q).stored_push q f
      rw [Shared.push]
      rcases (named q).push hf room with
        failed | ⟨t, shelf, before, behind, pushed, late, last, there, whole, new⟩
      · left
        rw [failed]
        exact ⟨rfl, setShelf_eq_self s rfl⟩
      · right
        rw [pushed] at kind ⊢
        refine ⟨t, rfl, late, last, named.setShelf there, rfl, fun q' hq => setShelf_ne s hq _, ?_,
          before, behind, whole, ?_⟩
        · rw [setShelf_self]
          exact kind
        · rw [Shared.tasks, setShelf_self]
          exact new

theorem Does.push {f : Filed} {r : Except QueueError Int} (h : s.Does (.push q f) r s')
    (named : s.Named) (hf : f.Storable q) :
    r = .error (.io .isDirectory) ∧ s' = s ∨ (∃ t, r = .ok t) ∧ Filing q f s s' := by
  rcases h.push_at named hf with failed | ⟨t, rfl, filing⟩
  · exact .inl failed
  · exact .inr ⟨⟨t, rfl⟩, filing.filing⟩

end Shared

end Galley
