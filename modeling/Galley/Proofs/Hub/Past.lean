import Galley.Hub
import Mathlib.Data.List.Sort
/-!
# What a past says about deliveries

The past of some hubs is what has happened to them, the last event first. From it one reads which
connections a user has, what waits in the user's inbox, which messages are meant for a connection
and which of them the hub took while there was room for them. A command carries the number of
events before it as its stamp, so that two messages of one text are told apart.
-/
namespace Galley

inductive HubEvent
  /-- A connection began to be opened. -/
  | begun (id : Nat) (user : Int)
  /-- A command entered the inbox of a user's hub. -/
  | posted (user : Int) (command : HubCommand)
  /-- A user's hub took the first command of its inbox. -/
  | taken (user : Int)
  | received (id : Nat) (text : String)
  | closed (id : Nat) (user : Int)
  deriving DecidableEq, Repr

namespace Past

/-- The connections of a user that were begun and not closed. -/
def present (user : Int) : List HubEvent → List Nat
  | [] => []
  | .begun id u :: past => if u = user then present user past ++ [id] else present user past
  | .closed id _ :: past => (present user past).filter (· ≠ id)
  | _ :: past => present user past

/-- What waits in a user's inbox. It is lost with the last connection of the user. -/
def queue (user : Int) : List HubEvent → List (Nat × HubCommand)
  | [] => []
  | .posted u command :: past =>
    if u = user then queue user past ++ [(past.length, command)] else queue user past
  | .taken u :: past => if u = user then (queue user past).tail else queue user past
  | .closed id u :: past =>
    if u = user ∧ present user (.closed id u :: past) = [] then [] else queue user past
  | _ :: past => queue user past

/-- The messages for a user that entered the inbox after a connection was registered with the
user's hub. -/
def meant (id : Nat) (user : Int) : List HubEvent → List (Nat × String)
  | [] => []
  | .posted u (.broadcast text) :: past =>
    if u = user ∧ .posted user (.register id) ∈ past then
      meant id user past ++ [(past.length, text)]
    else meant id user past
  | _ :: past => meant id user past

/-- What a connection has received. -/
def heard (id : Nat) : List HubEvent → List String
  | [] => []
  | .received i text :: past => if i = id then heard id past ++ [text] else heard id past
  | _ :: past => heard id past

/-- The first command of an inbox as a message for a connection. -/
def next? (id : Nat) (user : Int) (past : List HubEvent) : Option (Nat × String) :=
  match queue user past with
  | (stamp, .broadcast text) :: _ =>
    if (stamp, text) ∈ meant id user past then some (stamp, text) else none
  | _ => none

/-- The messages for a connection that the hub took while the connection was there and its buffer,
which holds what was due and was not received, had room. -/
def due (size : Nat) (id : Nat) (user : Int) : List HubEvent → List (Nat × String)
  | [] => []
  | .taken u :: past =>
    if u = user ∧ id ∈ present user past ∧
        (due size id user past).length < (heard id past).length + size then
      due size id user past ++ (next? id user past).toList
    else due size id user past
  | _ :: past => due size id user past

variable {size id : Nat} {user : Int} {e : HubEvent} {past : List HubEvent}

/-! ### One more event -/

/-- A command enters at the end of the inbox; all else only takes from it. -/
theorem queue_cons (e : HubEvent) (user : Int) (past : List HubEvent) :
    (∃ command, e = .posted user command ∧
      queue user (e :: past) = queue user past ++ [(past.length, command)]) ∨
    (queue user (e :: past)).Sublist (queue user past) := by
  cases e with
  | posted u command =>
    rw [queue]
    split
    · next own => exact .inl ⟨command, by rw [own], rfl⟩
    · exact .inr (.refl _)
  | taken u =>
    rw [queue]
    split
    · exact .inr (List.tail_sublist _)
    · exact .inr (.refl _)
  | closed i u =>
    rw [queue]
    split
    · exact .inr (List.nil_sublist _)
    · exact .inr (.refl _)
  | begun i u => exact .inr (.refl _)
  | received i text => exact .inr (.refl _)

/-- A message is meant for a connection when it is posted to the connection's user and the
connection was registered before. -/
theorem meant_cons (e : HubEvent) (id : Nat) (user : Int) (past : List HubEvent) :
    (∃ text, e = .posted user (.broadcast text) ∧ .posted user (.register id) ∈ past ∧
      meant id user (e :: past) = meant id user past ++ [(past.length, text)]) ∨
    meant id user (e :: past) = meant id user past := by
  cases e with
  | posted u command =>
    cases command with
    | broadcast text =>
      rw [meant]
      split
      · next own => exact .inl ⟨text, by rw [own.1], own.2, rfl⟩
      · exact .inr rfl
    | register i => exact .inr rfl
    | unregister i => exact .inr rfl
  | _ => exact .inr rfl

theorem next?_eq_some {m : Nat × String} (h : next? id user past = some m) :
    (∃ rest, queue user past = (m.1, .broadcast m.2) :: rest) ∧ m ∈ meant id user past := by
  unfold next? at h
  split at h
  · next stamp text rest wait =>
    split at h
    · next own =>
      obtain rfl := Option.some.inj h
      exact ⟨⟨rest, wait⟩, own⟩
    · cases h
  · cases h

/-- A message becomes due when the user's hub takes it. -/
theorem due_cons (e : HubEvent) (size id : Nat) (user : Int) (past : List HubEvent) :
    (∃ m rest, e = .taken user ∧ queue user past = (m.1, .broadcast m.2) :: rest ∧
      m ∈ meant id user past ∧ due size id user (e :: past) = due size id user past ++ [m]) ∨
    due size id user (e :: past) = due size id user past := by
  cases e with
  | taken u =>
    rw [due]
    split
    · next own =>
      cases first : next? id user past with
      | none => exact .inr (by simp)
      | some m =>
        obtain ⟨⟨rest, wait⟩, meant⟩ := next?_eq_some first
        exact .inl ⟨m, rest, by rw [own.1], wait, meant, by simp⟩
    · exact .inr rfl
  | _ => exact .inr rfl

/-- What is due when the hub has taken a message. -/
theorem due_taken_broadcast {stamp : Nat} {text : String} {rest : List (Nat × HubCommand)}
    (wait : queue user past = (stamp, .broadcast text) :: rest) :
    due size id user (.taken user :: past) =
      if (stamp, text) ∈ meant id user past ∧ id ∈ present user past ∧
          (due size id user past).length < (heard id past).length + size then
        due size id user past ++ [(stamp, text)]
      else due size id user past := by
  rw [due, next?, wait]
  by_cases own : (stamp, text) ∈ meant id user past <;> simp [own]

theorem due_taken_of_ne {stamp : Nat} {command : HubCommand} {rest : List (Nat × HubCommand)}
    (wait : queue user past = (stamp, command) :: rest) (ne : ∀ text, command ≠ .broadcast text) :
    due size id user (.taken user :: past) = due size id user past := by
  obtain ⟨m, _, -, place, -⟩ | same := due_cons (.taken user) size id user past
  · rw [wait] at place
    exact absurd (Prod.mk.inj (List.cons.inj place).1).2 (ne m.2)
  · exact same

/-! ### Stamps -/

theorem stamp_lt_of_mem_queue {m : Nat × HubCommand} (hm : m ∈ queue user past) :
    m.1 < past.length := by
  induction past with
  | nil => cases hm
  | cons e past ih =>
    rw [List.length_cons]
    obtain ⟨command, -, entered⟩ | fewer := queue_cons e user past
    · rw [entered, List.mem_append, List.mem_singleton] at hm
      obtain old | rfl := hm
      · exact Nat.lt_succ_of_lt (ih old)
      · exact Nat.lt_succ_self _
    · exact Nat.lt_succ_of_lt (ih (fewer.mem hm))

/-- An inbox is in the order of its stamps. -/
theorem pairwise_queue (user : Int) (past : List HubEvent) :
    (queue user past).Pairwise (·.1 < ·.1) := by
  induction past with
  | nil => exact .nil
  | cons e past ih =>
    obtain ⟨command, -, entered⟩ | fewer := queue_cons e user past
    · rw [entered, List.pairwise_append]
      refine ⟨ih, List.pairwise_singleton _ _, fun m hm n hn => ?_⟩
      rw [List.mem_singleton.mp hn]
      exact stamp_lt_of_mem_queue hm
    · exact ih.sublist fewer

/-- A command in an inbox was posted. -/
theorem posted_of_mem_queue {m : Nat × HubCommand} (hm : m ∈ queue user past) :
    .posted user m.2 ∈ past := by
  induction past with
  | nil => cases hm
  | cons e past ih =>
    obtain ⟨command, rfl, entered⟩ | fewer := queue_cons e user past
    · rw [entered, List.mem_append, List.mem_singleton] at hm
      obtain old | rfl := hm
      · exact List.mem_cons_of_mem _ (ih old)
      · exact List.mem_cons_self
    · exact List.mem_cons_of_mem e (ih (fewer.mem hm))

theorem stamp_lt_of_mem_meant {m : Nat × String} (hm : m ∈ meant id user past) :
    m.1 < past.length := by
  induction past with
  | nil => cases hm
  | cons e past ih =>
    rw [List.length_cons]
    obtain ⟨text, -, -, entered⟩ | same := meant_cons e id user past
    · rw [entered, List.mem_append, List.mem_singleton] at hm
      obtain old | rfl := hm
      · exact Nat.lt_succ_of_lt (ih old)
      · exact Nat.lt_succ_self _
    · exact Nat.lt_succ_of_lt (ih (same ▸ hm))

theorem pairwise_meant (id : Nat) (user : Int) (past : List HubEvent) :
    (meant id user past).Pairwise (·.1 < ·.1) := by
  induction past with
  | nil => exact .nil
  | cons e past ih =>
    obtain ⟨text, -, -, entered⟩ | same := meant_cons e id user past
    · rw [entered, List.pairwise_append]
      refine ⟨ih, List.pairwise_singleton _ _, fun m hm n hn => ?_⟩
      rw [List.mem_singleton.mp hn]
      exact stamp_lt_of_mem_meant hm
    · rwa [same]

/-! ### What is meant for a connection -/

/-- A message that is meant for a connection stays so. -/
theorem mem_meant_cons {m : Nat × String} (hm : m ∈ meant id user past) :
    m ∈ meant id user (e :: past) := by
  obtain ⟨text, -, -, entered⟩ | same := meant_cons e id user past
  · rw [entered]
    exact List.mem_append_left _ hm
  · rwa [same]

theorem meant_eq_nil (h : .posted user (.register id) ∉ past) : meant id user past = [] := by
  induction past with
  | nil => rfl
  | cons e past ih =>
    have before : .posted user (.register id) ∉ past := fun there =>
      h (List.mem_cons_of_mem e there)
    obtain ⟨text, -, there, -⟩ | same := meant_cons e id user past
    · exact absurd there before
    · rw [same, ih before]

/-- Messages that are meant for a connection were posted to its user. -/
theorem posted_of_mem_meant {m : Nat × String} (hm : m ∈ meant id user past) :
    .posted user (.broadcast m.2) ∈ past := by
  induction past with
  | nil => cases hm
  | cons e past ih =>
    obtain ⟨text, rfl, -, entered⟩ | same := meant_cons e id user past
    · rw [entered, List.mem_append, List.mem_singleton] at hm
      obtain old | rfl := hm
      · exact List.mem_cons_of_mem _ (ih old)
      · exact List.mem_cons_self
    · exact List.mem_cons_of_mem e (ih (same ▸ hm))

/-! ### What is due -/

theorem mem_meant_of_mem_due {m : Nat × String} (hm : m ∈ due size id user past) :
    m ∈ meant id user past := by
  induction past with
  | nil => cases hm
  | cons e past ih =>
    refine mem_meant_cons ?_
    obtain ⟨n, rest, -, -, meant, taken⟩ | same := due_cons e size id user past
    · rw [taken, List.mem_append, List.mem_singleton] at hm
      obtain old | rfl := hm
      · exact ih old
      · exact meant
    · exact ih (same ▸ hm)

/-- What was taken has an earlier stamp than what waits. -/
theorem stamp_lt_of_mem_due {m : Nat × String} {n : Nat × HubCommand}
    (hm : m ∈ due size id user past) (hn : n ∈ queue user past) : m.1 < n.1 := by
  induction past with
  | nil => cases hm
  | cons e past ih =>
    obtain ⟨first, rest, rfl, wait, -, taken⟩ | same := due_cons e size id user past
    · have left : queue user (.taken user :: past) = rest := by rw [queue, if_pos rfl, wait]; rfl
      have order := pairwise_queue user past
      rw [left] at hn
      rw [wait] at order ih
      rw [taken, List.mem_append, List.mem_singleton] at hm
      obtain old | rfl := hm
      · exact ih old (List.mem_cons_of_mem _ hn)
      · exact List.rel_of_pairwise_cons order hn
    · rw [same] at hm
      obtain ⟨command, -, entered⟩ | fewer := queue_cons e user past
      · rw [entered, List.mem_append, List.mem_singleton] at hn
        obtain old | rfl := hn
        · exact ih hm old
        · exact stamp_lt_of_mem_meant (mem_meant_of_mem_due hm)
      · exact ih hm (fewer.mem hn)

theorem pairwise_due (size id : Nat) (user : Int) (past : List HubEvent) :
    (due size id user past).Pairwise (·.1 < ·.1) := by
  induction past with
  | nil => exact .nil
  | cons e past ih =>
    obtain ⟨m, rest, -, wait, -, taken⟩ | same := due_cons e size id user past
    · rw [taken, List.pairwise_append]
      refine ⟨ih, List.pairwise_singleton _ _, fun n hn m' hm' => ?_⟩
      rw [List.mem_singleton.mp hm']
      have head : (m.1, .broadcast m.2) ∈ queue user past := wait ▸ List.mem_cons_self
      exact stamp_lt_of_mem_due hn head
    · rwa [same]

/-- What is due comes in the order in which it entered the inbox, and nothing comes twice. -/
theorem due_sublist_meant (size id : Nat) (user : Int) (past : List HubEvent) :
    (due size id user past).Sublist (meant id user past) := by
  have order := pairwise_due size id user past
  have distinct : (due size id user past).Nodup :=
    order.imp fun less same => absurd less (by simp [same])
  have asymmetric : Std.Antisymm fun m n : Nat × String => m.1 < n.1 :=
    ⟨fun _ _ less more => absurd more (Nat.lt_asymm less)⟩
  exact List.sublist_of_subperm_of_pairwise
    (List.subperm_of_subset distinct fun _ => mem_meant_of_mem_due) order
    (pairwise_meant id user past)

end Past

end Galley
