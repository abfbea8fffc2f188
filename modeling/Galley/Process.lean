import Galley.Action
/-!
# Processes

A process does one action after another, each chosen by the answers to those before it, until it is
done. It is given as the tree of what it may do, so that its runs among others can be looked at
action by action. Main statements: processes put one behind another form a lawful monad.
-/
namespace Galley

inductive Process (α : Type) : Type
  | done (result : α)
  | act (action : Action) (next : action.Answer → Process α)

namespace Process

variable {α β γ ε : Type}

def bind (p : Process α) (f : α → Process β) : Process β :=
  match p with
  | .done a => f a
  | .act action next => .act action fun r => (next r).bind f

instance : Monad Process where
  pure := .done
  bind := bind

/-- The process that does one action and gives its answer. -/
def perform (action : Action) : Process action.Answer :=
  .act action .done

@[simp] theorem pure_eq (a : α) : (pure a : Process α) = .done a := rfl

@[simp] theorem bind_eq (p : Process α) (f : α → Process β) : p >>= f = p.bind f := rfl

@[simp] theorem done_bind (a : α) (f : α → Process β) : (done a).bind f = f a := rfl

@[simp] theorem act_bind (action : Action) (next : action.Answer → Process α) (f : α → Process β) :
    (act action next).bind f = .act action fun r => (next r).bind f := rfl

@[simp] theorem perform_bind (action : Action) (f : action.Answer → Process β) :
    (perform action).bind f = .act action f := rfl

@[simp] theorem bind_done (p : Process α) : p.bind .done = p := by
  induction p with
  | done a => rfl
  | act action next ih => simp [ih]

theorem bind_assoc (p : Process α) (f : α → Process β) (g : β → Process γ) :
    (p.bind f).bind g = p.bind fun a => (f a).bind g := by
  induction p with
  | done a => rfl
  | act action next ih => simp [ih]

instance : LawfulMonad Process :=
  .mk' Process bind_done (fun _ _ => rfl) bind_assoc

/-- Goes on with the result of a process that may fail; its error is the error of the whole. -/
def andThen {ε' : Type} (p : Process (Except ε α)) (wrap : ε → ε')
    (f : α → Process (Except ε' β)) : Process (Except ε' β) :=
  p.bind fun
    | .error e => .done (.error (wrap e))
    | .ok a => f a

end Process

end Galley
