import Galley.Proofs.Solitude
/-!
# Traces

What a process may do on the way to its result: one event after another, each action answered in any
way. Main statements: a trace of two processes put one behind the other is a trace of the first and
then one of the second, and what a quiet process has done when it comes to its end is a trace of it.
-/
namespace Galley

namespace Process

variable {α β ε ε' : Type}

/-- The events on one branch of a process, the first one first, with the result at its end. -/
inductive Traces : Process α → List Event → α → Prop
  | done (a : α) : Traces (.done a) [] a
  | act {action : Action} {next : action.Answer → Process α} (r : action.Answer) {es : List Event}
      {a : α} (rest : Traces (next r) es a) : Traces (.act action next) (⟨action, r⟩ :: es) a

variable {p : Process α} {es : List Event} {a : α}

@[simp] theorem traces_done {b : α} : (done b).Traces es a ↔ es = [] ∧ a = b := by
  constructor
  · rintro ⟨⟩
    exact ⟨rfl, rfl⟩
  · rintro ⟨rfl, rfl⟩
    exact .done a

@[simp] theorem traces_act {action : Action} {next : action.Answer → Process α} :
    (act action next).Traces es a ↔
      ∃ r rest, es = ⟨action, r⟩ :: rest ∧ (next r).Traces rest a := by
  constructor
  · rintro ⟨⟩
    exact ⟨_, _, rfl, ‹_›⟩
  · rintro ⟨r, rest, rfl, h⟩
    exact .act r h

theorem Traces.bind {f : α → Process β} {es' : List Event} {b : β} (h : p.Traces es a)
    (h' : (f a).Traces es' b) : (p.bind f).Traces (es ++ es') b := by
  induction h with
  | done a => exact h'
  | act r _ ih => exact .act r (ih h')

theorem traces_bind {f : α → Process β} {b : β} : (p.bind f).Traces es b ↔
    ∃ front a back, es = front ++ back ∧ p.Traces front a ∧ (f a).Traces back b := by
  constructor
  · intro h
    induction p generalizing es with
    | done a => exact ⟨[], a, es, rfl, .done a, h⟩
    | act action next ih =>
      obtain ⟨r, rest, rfl, left⟩ := traces_act.mp h
      obtain ⟨front, a, back, rfl, first, second⟩ := ih r left
      exact ⟨⟨action, r⟩ :: front, a, back, rfl, .act r first, second⟩
  · rintro ⟨front, a, back, rfl, first, second⟩
    exact first.bind second

/-- The first process fails with the events of the whole, or the second goes on with its result. -/
theorem traces_andThen {p : Process (Except ε α)} {wrap : ε → ε'} {f : α → Process (Except ε' β)}
    {r : Except ε' β} : (p.andThen wrap f).Traces es r ↔
    (∃ e, p.Traces es (.error e) ∧ r = .error (wrap e)) ∨
      ∃ front a back, es = front ++ back ∧ p.Traces front (.ok a) ∧ (f a).Traces back r := by
  rw [andThen, traces_bind]
  constructor
  · rintro ⟨front, first, back, rfl, h, h'⟩
    cases first with
    | error e =>
      obtain ⟨rfl, rfl⟩ := traces_done.mp h'
      rw [List.append_nil]
      exact .inl ⟨e, h, rfl⟩
    | ok a => exact .inr ⟨front, a, back, rfl, h, h'⟩
  · rintro (⟨e, h, rfl⟩ | ⟨front, a, back, rfl, h, h'⟩)
    · exact ⟨es, .error e, [], (List.append_nil es).symm, h, .done _⟩
    · exact ⟨front, .ok a, back, rfl, h, h'⟩

theorem Only.of_traces {P : Action → Prop} (h : p.Only P) (trace : p.Traces es a) :
    ∀ e ∈ es, P e.action := by
  induction trace with
  | done a => simp
  | act r _ ih =>
    rw [List.forall_mem_cons]
    exact ⟨h.1, ih (h.2 r)⟩

/-- A quiet process leaves marks and queues as they are, and what it has done is a trace of it. -/
theorem Quiet.ensures_traces (h : p.Quiet) (s : Shared) (past : List Event) :
    p.Ensures (fun s' past' a => s' = s ∧ ∃ es, past' = es.reverse ++ past ∧ p.Traces es a)
      s past := by
  induction p generalizing past with
  | done a => exact ⟨rfl, [], rfl, .done a⟩
  | act action next ih =>
    intro r s' does
    obtain rfl := does_quiet h.1 does
    refine (ih r (h.2 r) _).mono ?_
    rintro _ _ a ⟨rfl, es, rfl, trace⟩
    exact ⟨rfl, ⟨action, r⟩ :: es, by simp, .act r trace⟩

end Process

end Galley
