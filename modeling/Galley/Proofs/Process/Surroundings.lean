import Galley.Process
/-!
# Processes in surroundings

What surrounds a process answers its actions, one way or another, and changes with each of them. Main
statement: a property that holds at the end of every branch, where the surroundings answer every action on
the way, is one of all runs, and there is a run.
-/
namespace Galley.Process

variable {α β ε ε' σ : Type}

/-- The answers to an action in a state of the surroundings, with the state after it. -/
abbrev Surroundings (σ : Type) := σ → (a : Action) → a.Answer → σ → Prop

variable {env : Surroundings σ}

/-- The runs of a process from its start to its result. -/
inductive Goes (env : Surroundings σ) : σ → Process α → σ → α → Prop
  | done (s : σ) (a : α) : Goes env s (.done a) s a
  | act {s s' s'' : σ} {action : Action} {r : action.Answer} {next : action.Answer → Process α}
      {a : α} (answered : env s action r s') (rest : Goes env s' (next r) s'' a) :
      Goes env s (.act action next) s'' a

/-- Whether the surroundings answer every action of a process, and all its branches end with `post`. -/
def Always (env : Surroundings σ) (post : σ → α → Prop) (s : σ) : Process α → Prop
  | .done a => post s a
  | .act action next =>
    (∃ r s', env s action r s') ∧ ∀ r s', env s action r s' → (next r).Always env post s'

variable {post : σ → α → Prop} {p : Process α} {s s' : σ} {a : α}

theorem Always.mono {post' : σ → α → Prop} (h : p.Always env post s)
    (weaker : ∀ s a, post s a → post' s a) : p.Always env post' s := by
  induction p generalizing s with
  | done a => exact weaker s a h
  | act action next ih => exact ⟨h.1, fun r s' answered => ih r (h.2 r s' answered)⟩

theorem Always.bind {mid : σ → α → Prop} {post : σ → β → Prop} {f : α → Process β}
    (h : p.Always env mid s) (hf : ∀ s a, mid s a → (f a).Always env post s) :
    (p.bind f).Always env post s := by
  induction p generalizing s with
  | done a => exact hf s a h
  | act action next ih => exact ⟨h.1, fun r s' answered => ih r (h.2 r s' answered)⟩

/-- A process that may fail, and what is done with its result. -/
theorem Always.andThen {mid : σ → Except ε α → Prop} {post : σ → Except ε' β → Prop}
    {p : Process (Except ε α)} {wrap : ε → ε'} {f : α → Process (Except ε' β)}
    (h : p.Always env mid s) (failed : ∀ s e, mid s (.error e) → post s (.error (wrap e)))
    (hf : ∀ s a, mid s (.ok a) → (f a).Always env post s) :
    (p.andThen wrap f).Always env post s :=
  h.bind fun s r hr =>
    match r with
    | .error e => failed s e hr
    | .ok a => hf s a hr

theorem Always.exists_goes (h : p.Always env post s) : ∃ s' a, p.Goes env s s' a := by
  induction p generalizing s with
  | done a => exact ⟨s, a, .done s a⟩
  | act action next ih =>
    obtain ⟨⟨r, s', answered⟩, all⟩ := h
    obtain ⟨s'', a, rest⟩ := ih r (all r s' answered)
    exact ⟨s'', a, .act answered rest⟩

theorem Always.of_goes (h : p.Always env post s) (run : p.Goes env s s' a) : post s' a := by
  induction run with
  | done s a => exact h
  | act answered _ ih => exact ih (h.2 _ _ answered)

end Galley.Process
