import Galley.Text.Quoted
/-!
# Names of kinds

Who sees a job's output, what a job belongs to, and the three queues, each with the text that stands
for it.
-/
namespace Galley

/-- Who sees a job's output: the submitting user, or every resolved recipient. -/
inductive Scope
  | individual
  | shared
  deriving DecidableEq, Repr, Inhabited

def Scope.text : Scope → String
  | .individual => "individual"
  | .shared => "shared"

structure ScopeError where
  text : String
  deriving DecidableEq, Repr, Inhabited

def ScopeError.message (e : ScopeError) : String :=
  "unsupported scope " ++ e.text.quoted

def Scope.parse (s : String) : Except ScopeError Scope :=
  if s = "individual" then .ok .individual
  else if s = "shared" then .ok .shared
  else .error ⟨s⟩

@[simp] theorem Scope.parse_text (scope : Scope) : Scope.parse scope.text = .ok scope := by
  cases scope <;> simp [Scope.parse, Scope.text]

theorem Scope.text_of_parse {s : String} {scope : Scope} (h : Scope.parse s = .ok scope) :
    s = scope.text := by
  unfold Scope.parse at h
  split at h
  · next individual => rw [individual, ← Except.ok.inj h, Scope.text]
  split at h
  · next shared => rw [shared, ← Except.ok.inj h, Scope.text]
  · exact nomatch h

theorem Scope.text_injective {scope scope' : Scope} (h : scope.text = scope'.text) :
    scope = scope' := by
  cases scope <;> cases scope' <;> simp [text] at h ⊢

/-- What a job belongs to. -/
inductive Entity
  | app
  | cookbook
  deriving DecidableEq, Repr, Inhabited

def Entity.text : Entity → String
  | .app => "app"
  | .cookbook => "cookbook"

theorem Entity.text_injective {e e' : Entity} (h : e.text = e'.text) : e = e' := by
  cases e <;> cases e' <;> simp [text] at h ⊢

/-- The queue for jobs that run at once, for steps that run once after a delay, and for steps that
recur. -/
inductive QueueName
  | now
  | delayed
  | recurring
  deriving DecidableEq, Repr, Inhabited

namespace QueueName

def text : QueueName → String
  | .now => "now"
  | .delayed => "in"
  | .recurring => "every"

def all : List QueueName := [.now, .delayed, .recurring]

theorem mem_all (q : QueueName) : q ∈ all := by
  cases q <;> simp [all]

theorem text_injective {p q : QueueName} (h : p.text = q.text) : p = q := by
  cases p <;> cases q <;> simp [text] at h ⊢

end QueueName

end Galley
