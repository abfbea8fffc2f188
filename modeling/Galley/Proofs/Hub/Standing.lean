import Galley.Proofs.Hub.Past
/-!
# How a connection stands with its hub

A connection is a member of its user's hub from when the hub takes its registration. Since the inbox
keeps its order, the hub then takes just the messages that are meant for the connection: those that
entered the inbox after the registration.
-/
namespace Galley

open Past

/-- How a connection stands with the hub of its user: its registration is still to come, it waits in
the inbox, or it was taken. What is behind the registration in the inbox is meant for the
connection, and what is before it is not. -/
inductive Standing (members : List Nat) (id : Nat) (user : Int) (past : List HubEvent) : Prop
  | apart (unknown : .posted user (.register id) ∉ past) (out : id ∉ members)
  | waiting {before after : List (Nat × HubCommand)} {stamp : Nat}
      (place : queue user past = before ++ (stamp, .register id) :: after) (out : id ∉ members)
      (once : ∀ m ∈ before, m.2 ≠ .register id)
      (early : ∀ n text, (n, .broadcast text) ∈ before → (n, text) ∉ meant id user past)
      (late : ∀ n text, (n, .broadcast text) ∈ after → (n, text) ∈ meant id user past)
  | inside (known : id ∈ members)
      (late : ∀ n text, (n, .broadcast text) ∈ queue user past → (n, text) ∈ meant id user past)

namespace Standing

variable {members members' : List Nat} {id : Nat} {user : Int} {past past' : List HubEvent}

/-- What happens elsewhere changes nothing. -/
theorem frame (h : Standing members id user past) (waits : queue user past' = queue user past)
    (means : meant id user past' = meant id user past)
    (knows : .posted user (.register id) ∈ past' → .posted user (.register id) ∈ past) :
    Standing members id user past' := by
  cases h with
  | apart unknown out => exact .apart (unknown ∘ knows) out
  | waiting place out once early late =>
    exact .waiting (waits.trans place) out once (by rwa [means]) (by rwa [means])
  | inside known late => exact .inside known (by rwa [waits, means])

/-- A command that enters the inbox is behind the registration. -/
theorem posted (h : Standing members id user past) (command : HubCommand)
    (knows : id ∈ members → .posted user (.register id) ∈ past) :
    Standing members id user (.posted user command :: past) := by
  have entered : queue user (.posted user command :: past) =
      queue user past ++ [(past.length, command)] := by rw [queue, if_pos rfl]
  have old {n : Nat} {text : String} (less : n < past.length)
      (hm : (n, text) ∈ meant id user (.posted user command :: past)) :
      (n, text) ∈ meant id user past := by
    obtain ⟨t, -, -, means⟩ | same := meant_cons (.posted user command) id user past
    · rw [means, List.mem_append, List.mem_singleton] at hm
      exact hm.resolve_right fun same => absurd less (by simp [(Prod.mk.inj same).1])
    · rwa [← same]
  have new {n : Nat} {text : String} (registered : .posted user (.register id) ∈ past)
      (hm : (n, HubCommand.broadcast text) ∈ [(past.length, command)]) :
      (n, text) ∈ meant id user (.posted user command :: past) := by
    obtain ⟨rfl, rfl⟩ := Prod.mk.inj (List.mem_singleton.mp hm)
    rw [meant, if_pos ⟨rfl, registered⟩]
    exact List.mem_append_right _ List.mem_cons_self
  cases h with
  | apart unknown out =>
    by_cases registers : command = .register id
    · subst registers
      refine .waiting entered out ?_ ?_ fun _ _ none => absurd none List.not_mem_nil
      · exact fun m hm same => unknown (same ▸ posted_of_mem_queue hm)
      · intro n text hm means
        have meansOld := old (stamp_lt_of_mem_queue hm) means
        rw [meant_eq_nil unknown] at meansOld
        cases meansOld
    · refine .apart ?_ out
      rw [List.mem_cons, HubEvent.posted.injEq]
      rintro (same | there)
      · exact registers same.2.symm
      · exact unknown there
  | @waiting before after stamp place out once early late =>
    have registered : .posted user (.register id) ∈ past :=
      posted_of_mem_queue (place ▸ List.mem_append_right _ List.mem_cons_self)
    have place' : queue user (.posted user command :: past) =
        before ++ (stamp, .register id) :: (after ++ [(past.length, command)]) := by
      rw [entered, place, List.append_assoc, List.cons_append]
    refine .waiting place' out once ?_ ?_
    · intro n text hm means
      have there : (n, .broadcast text) ∈ queue user past := place ▸ List.mem_append_left _ hm
      exact early n text hm (old (stamp_lt_of_mem_queue there) means)
    · intro n text hm
      obtain there | there := List.mem_append.mp hm
      · exact mem_meant_cons (late n text there)
      · exact new registered there
  | inside known late =>
    refine .inside known fun n text hm => ?_
    rw [entered, List.mem_append] at hm
    exact hm.elim (fun there => mem_meant_cons (late n text there)) (new (knows known))

/-- When the hub takes the registration, the connection becomes a member. -/
theorem taken (h : Standing members id user past) {m : Nat × HubCommand}
    {rest : List (Nat × HubCommand)} (wait : queue user past = m :: rest)
    (becomes : id ∈ members' ↔ id ∈ members ∨ m.2 = .register id) :
    Standing members' id user (.taken user :: past) := by
  have left : queue user (.taken user :: past) = rest := by rw [queue, if_pos rfl, wait]; rfl
  cases h with
  | apart unknown out =>
    refine .apart (by simpa using unknown) ?_
    rw [becomes]
    rintro (there | registers)
    · exact out there
    · exact unknown (registers ▸ posted_of_mem_queue (wait ▸ List.mem_cons_self))
  | @waiting before after stamp place out once early late =>
    rw [wait] at place
    cases before with
    | nil =>
      obtain ⟨rfl, rfl⟩ := List.cons.inj place
      exact .inside (becomes.mpr (.inr rfl)) (by rwa [left])
    | cons first before =>
      obtain ⟨rfl, rfl⟩ := List.cons.inj place
      refine .waiting left ?_ (fun n hn => once n (List.mem_cons_of_mem _ hn))
        (fun n text hm => early n text (List.mem_cons_of_mem _ hm)) late
      rw [becomes]
      rintro (there | registers)
      · exact out there
      · exact once m List.mem_cons_self registers
  | inside known late =>
    refine .inside (becomes.mpr (.inl known)) fun n text hm => ?_
    rw [left] at hm
    exact late n text (wait ▸ List.mem_cons_of_mem _ hm)

/-- The first message of an inbox is meant for the members. -/
theorem mem_iff (h : Standing members id user past) {n : Nat} {text : String}
    {rest : List (Nat × HubCommand)} (wait : queue user past = (n, .broadcast text) :: rest) :
    id ∈ members ↔ (n, text) ∈ meant id user past := by
  cases h with
  | apart unknown out => simp [meant_eq_nil unknown, out]
  | @waiting before after stamp place out once early late =>
    rw [wait] at place
    cases before with
    | nil => exact nomatch (Prod.mk.inj (List.cons.inj place).1).2
    | cons first before =>
      obtain ⟨rfl, -⟩ := List.cons.inj place
      simp [out, early n text List.mem_cons_self]
  | inside known late => simp [known, late n text (wait ▸ List.mem_cons_self)]

end Standing

end Galley
