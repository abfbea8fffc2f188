import Galley.Hub
import Mathlib.Data.List.Basic
/-!
# What the hubs look like after an operation

For every user, the hub after an operation is told by the hub before it, and so are its inbox, its
members and the number of its connections. Closing a connection is leaving, and then posting the
word of it where there is room.
-/
namespace Galley

namespace Hub

/-- The hub with one more command in its inbox. -/
def told (command : HubCommand) (hub : Hub) : Hub := { hub with inbox := hub.inbox ++ [command] }

/-- The hub with one more connection. -/
def joined (hub : Hub) : Hub := { hub with connections := hub.connections + 1 }

/-- The hub with one connection less. -/
def parted (hub : Hub) : Hub := { hub with connections := hub.connections - 1 }

/-- The hub with another inbox. -/
def holding (inbox : List HubCommand) (hub : Hub) : Hub := { hub with inbox }

/-- The hub with other members. -/
def knowing (members : List Nat) (hub : Hub) : Hub := { hub with members }

end Hub

namespace Hubs

variable {h h' : Hubs} {user user' : Int} {id id' : Nat} {command : HubCommand} {c : Connection}

/-- What waits in a user's inbox. -/
def inbox (h : Hubs) (user : Int) : List HubCommand := ((h.hub? user).map (·.inbox)).getD []

/-- The connections that a user's hub knows. -/
def members (h : Hubs) (user : Int) : List Nat := ((h.hub? user).map (·.members)).getD []

/-- How many connections a user's hub counts, if the user has one. -/
def tally (h : Hubs) (user : Int) : Option Nat := (h.hub? user).map (·.connections)

theorem isSome_tally : (h.tally user).isSome = (h.hub? user).isSome := Option.isSome_map

/-! ### Changing one hub or one connection -/

theorem hub?_modifyHub (change : Hub → Hub) (keeps : ∀ hub, (change hub).user = hub.user) :
    (h.modifyHub user change).hub? user' =
      if user' = user then (h.hub? user').map change else h.hub? user' := by
  have own : ((fun hub : Hub => decide (hub.user = user')) ∘
      fun hub => if hub.user = user then change hub else hub) =
        fun hub => decide (hub.user = user') := by
    funext hub
    simp only [Function.comp]
    split <;> simp [keeps]
  unfold hub? modifyHub
  rw [List.find?_map, own]
  cases found : h.hubs.find? (fun hub => decide (hub.user = user')) with
  | none => simp
  | some hub =>
    have here : hub.user = user' := by simpa using List.find?_some found
    simp only [Option.map_some, here]
    split <;> rfl

theorem connection?_modifyConnection (h : Hubs) (id id' : Nat)
    (change : Connection → Connection) (keeps : ∀ c, (change c).id = c.id) :
    (h.modifyConnection id change).connection? id' =
      if id' = id then (h.connection? id').map change else h.connection? id' := by
  have own : ((fun c : Connection => decide (c.id = id')) ∘
      fun c => if c.id = id then change c else c) = fun c => decide (c.id = id') := by
    funext c
    simp only [Function.comp]
    split <;> simp [keeps]
  unfold connection? modifyConnection
  rw [List.find?_map, own]
  cases found : h.connections.find? (fun c => decide (c.id = id')) with
  | none => simp
  | some c =>
    have here : c.id = id' := by simpa using List.find?_some found
    simp only [Option.map_some, here]
    split <;> rfl

theorem connection?_eq_some (there : h.connection? id = some c) : c ∈ h.connections ∧ c.id = id :=
  ⟨List.mem_of_find?_eq_some there, by simpa using List.find?_some there⟩

theorem isSome_connection? : (h.connection? id).isSome = true ↔ ∃ c ∈ h.connections, c.id = id := by
  simp [connection?, List.find?_isSome]

/-- The connections, each with its user. -/
def guests (h : Hubs) : List (Nat × Int) := h.connections.map fun c => (c.id, c.user)

theorem mem_guests (hc : c ∈ h.connections) : (c.id, c.user) ∈ h.guests :=
  List.mem_map_of_mem hc

/-! ### Opening -/

theorem beginConnect_eq (h : Hubs) (user : Int) :
    (h.beginConnect user).2 =
      { (if (h.hub? user).isSome then h
          else { h with hubs := h.hubs ++ [⟨user, [], [], 0⟩] }).modifyHub user Hub.joined with
        nextId := h.nextId + 1
        connections := h.connections ++ [⟨h.nextId, user, []⟩] } := by
  unfold beginConnect
  dsimp only
  split <;> rfl

theorem hub?_beginConnect (h : Hubs) (user user' : Int) :
    (h.beginConnect user).2.hub? user' =
      if user' = user then some ((h.hub? user').getD ⟨user, [], [], 0⟩).joined
      else h.hub? user' := by
  have started : (h.beginConnect user).2.hub? user' =
      ((if (h.hub? user).isSome then h
        else { h with hubs := h.hubs ++ [⟨user, [], [], 0⟩] }).modifyHub user
          Hub.joined).hub? user' := by
    rw [beginConnect_eq]
    rfl
  rw [started, hub?_modifyHub Hub.joined fun _ => rfl]
  cases found : h.hub? user with
  | some hub =>
    rw [Option.isSome_some, if_pos rfl]
    split
    · next same => simp [same, found]
    · rfl
  | none =>
    have last : ({ h with hubs := h.hubs ++ [⟨user, [], [], 0⟩] } : Hubs).hub? user' =
        (h.hub? user').or (if user = user' then some ⟨user, [], [], 0⟩ else none) := by
      simp [hub?, List.find?_append, List.find?_singleton]
    rw [Option.isSome_none, if_neg Bool.false_ne_true, last]
    split
    · next same => simp [same, found]
    · next other => simp [Ne.symm other]

@[simp] theorem inbox_beginConnect : (h.beginConnect user).2.inbox user' = h.inbox user' := by
  rw [inbox, hub?_beginConnect]
  split
  · cases found : h.hub? user' <;> simp [inbox, found, Hub.joined]
  · rfl

@[simp] theorem members_beginConnect : (h.beginConnect user).2.members user' = h.members user' := by
  rw [members, hub?_beginConnect]
  split
  · cases found : h.hub? user' <;> simp [members, found, Hub.joined]
  · rfl

theorem tally_beginConnect : (h.beginConnect user).2.tally user' =
    if user' = user then some ((h.tally user').getD 0 + 1) else h.tally user' := by
  rw [tally, hub?_beginConnect]
  split
  · cases found : h.hub? user' <;> simp [tally, found, Hub.joined]
  · rfl

@[simp] theorem connections_beginConnect :
    (h.beginConnect user).2.connections = h.connections ++ [⟨h.nextId, user, []⟩] := by
  rw [beginConnect_eq]

@[simp] theorem guests_beginConnect : (h.beginConnect user).2.guests = h.guests ++ [(h.nextId, user)] := by
  simp [guests]

@[simp] theorem nextId_beginConnect : (h.beginConnect user).2.nextId = h.nextId + 1 := rfl

@[simp] theorem bufferSize_beginConnect : (h.beginConnect user).2.bufferSize = h.bufferSize := by
  rw [beginConnect_eq]
  simp only
  split <;> rfl

/-! ### Posting -/

/-- The hubs with one more command in a user's inbox. -/
def put (h : Hubs) (user : Int) (command : HubCommand) : Hubs := h.modifyHub user (Hub.told command)

theorem post?_eq_some (posted : h.post? user command = some h') :
    (h.hub? user).isSome = true ∧ h' = h.put user command := by
  unfold post? at posted
  cases found : h.hub? user with
  | none => simp [found] at posted
  | some hub =>
    simp only [found] at posted
    split at posted
    · exact ⟨rfl, (Option.some.inj posted).symm⟩
    · cases posted

theorem register?_eq_some (there : h.connection? id = some c) (room : h.register? id = some h') :
    (h.hub? c.user).isSome = true ∧ h' = h.put c.user (.register id) := by
  rw [register?, there, Option.bind_some] at room
  exact post?_eq_some room

theorem inbox_put (there : (h.hub? user).isSome = true) : (h.put user command).inbox user' =
    if user' = user then h.inbox user' ++ [command] else h.inbox user' := by
  obtain ⟨hub, found⟩ := Option.isSome_iff_exists.mp there
  rw [inbox, put, hub?_modifyHub (Hub.told command) fun _ => rfl]
  split
  · next same => simp [same, inbox, found, Hub.told]
  · rfl

@[simp] theorem members_put : (h.put user command).members user' = h.members user' := by
  rw [members, put, hub?_modifyHub (Hub.told command) fun _ => rfl]
  split
  · simp [members, Function.comp_def, Hub.told]
  · rfl

@[simp] theorem tally_put : (h.put user command).tally user' = h.tally user' := by
  rw [tally, put, hub?_modifyHub (Hub.told command) fun _ => rfl]
  split
  · simp [tally, Function.comp_def, Hub.told]
  · rfl

/-! ### Closing -/

/-- The hubs without a connection. -/
def without (h : Hubs) (id : Nat) : Hubs :=
  { h with connections := h.connections.filter (·.id ≠ id) }

/-- The hubs without the hub of a user. -/
def tornDown (h : Hubs) (user : Int) : Hubs :=
  { h with hubs := h.hubs.filter (·.user ≠ user) }

/-- The hubs when a connection has left. The hub of the last connection of a user goes with it. -/
def leave (h : Hubs) (c : Connection) : Hubs :=
  let left := (h.without c.id).modifyHub c.user Hub.parted
  if left.tally c.user = some 0 then left.tornDown c.user else left

@[simp] theorem hub?_without : (h.without id).hub? user = h.hub? user := rfl

theorem hub?_tornDown :
    (h.tornDown user).hub? user' = if user' = user then none else h.hub? user' := by
  unfold hub? tornDown
  rw [List.find?_filter]
  split
  · next same => simp [same]
  · next other =>
    congr 1
    funext hub
    by_cases own : hub.user = user' <;> simp [own, other]

theorem hub?_leave : (h.leave c).hub? user =
    if user = c.user then ((h.hub? user).map Hub.parted).filter (·.connections ≠ 0)
    else h.hub? user := by
  have less (user : Int) := @hub?_modifyHub (h.without c.id) c.user user Hub.parted fun _ => rfl
  unfold leave
  simp only [tally, less, if_true, hub?_without]
  by_cases same : user = c.user
  · rw [if_pos same, same]
    cases found : h.hub? c.user with
    | none => simp [less, found]
    | some hub =>
      by_cases last : hub.parted.connections = 0 <;>
        simp [last, hub?_tornDown, less, found, Option.filter_some]
  · rw [if_neg same]
    split <;> simp [hub?_tornDown, less, same]

theorem inbox_leave : (h.leave c).inbox user =
    if user = c.user ∧ (h.leave c).tally user = none then [] else h.inbox user := by
  by_cases same : user = c.user
  · cases found : h.hub? user with
    | none => simp [inbox, tally, hub?_leave, found]
    | some hub =>
      by_cases last : hub.parted.connections = 0
      · simp [inbox, tally, hub?_leave, ← same, found, last, Option.filter_some]
      · rw [inbox, tally, hub?_leave, if_pos same, found, Option.map_some, Option.filter_some,
          if_pos (by simpa using last), if_neg (by simp)]
        simp [inbox, found, Hub.parted]
  · simp [inbox, hub?_leave, same]

theorem members_leave : (h.leave c).members user =
    if user = c.user ∧ (h.leave c).tally user = none then [] else h.members user := by
  by_cases same : user = c.user
  · cases found : h.hub? user with
    | none => simp [members, tally, hub?_leave, found]
    | some hub =>
      by_cases last : hub.parted.connections = 0
      · simp [members, tally, hub?_leave, ← same, found, last, Option.filter_some]
      · rw [members, tally, hub?_leave, if_pos same, found, Option.map_some, Option.filter_some,
          if_pos (by simpa using last), if_neg (by simp)]
        simp [members, found, Hub.parted]
  · simp [members, hub?_leave, same]

theorem tally_leave : (h.leave c).tally user =
    if user = c.user then ((h.tally user).map (· - 1)).filter (· ≠ 0) else h.tally user := by
  rw [tally, hub?_leave]
  split
  · cases found : h.hub? user with
    | none => simp [tally, found]
    | some hub =>
      by_cases last : hub.connections - 1 = 0 <;>
        simp [tally, found, Hub.parted, last, Option.filter_some]
  · rfl

@[simp] theorem connections_leave :
    (h.leave c).connections = h.connections.filter (·.id ≠ c.id) := by
  unfold leave
  dsimp only
  split <;> rfl

@[simp] theorem guests_leave : (h.leave c).guests = h.guests.filter (·.1 ≠ c.id) := by
  rw [guests, connections_leave, guests, List.filter_map]
  rfl

@[simp] theorem nextId_leave : (h.leave c).nextId = h.nextId := by
  unfold leave
  dsimp only
  split <;> rfl

@[simp] theorem bufferSize_leave : (h.leave c).bufferSize = h.bufferSize := by
  unfold leave
  dsimp only
  split <;> rfl

theorem close_eq (there : h.connection? id = some c) :
    h.close id = ((h.leave c).post? c.user (.unregister id)).getD (h.leave c) := by
  obtain ⟨-, rfl⟩ := connection?_eq_some there
  have parted : ({ h with connections := h.connections.filter (·.id ≠ c.id) } : Hubs).modifyHub
      c.user (fun hub => { hub with connections := hub.connections - 1 }) =
        (h.without c.id).modifyHub c.user Hub.parted := rfl
  have torn (l : Hubs) : ({ l with hubs := l.hubs.filter (·.user ≠ c.user) } : Hubs) =
      l.tornDown c.user := rfl
  simp only [close, there, parted, torn]
  rw [leave, tally]
  cases found : ((h.without c.id).modifyHub c.user Hub.parted).hub? c.user with
  | none => simp [post?, found]
  | some hub =>
    by_cases last : hub.connections = 0
    · simp [last, post?, hub?_tornDown]
    · simp [last]

/-! ### Receiving -/

theorem receive_eq_some {text : String} (received : h.receive id = (some text, h')) :
    ∃ c rest, h.connection? id = some c ∧ c.buffer = text :: rest ∧
      h' = h.modifyConnection id fun c => { c with buffer := rest } := by
  unfold receive at received
  cases there : h.connection? id with
  | none => simp [there] at received
  | some c =>
    cases full : c.buffer with
    | nil => simp [there, full] at received
    | cons first rest =>
      simp only [there, full, Prod.mk.injEq, Option.some.injEq] at received
      obtain ⟨rfl, rfl⟩ := received
      exact ⟨c, rest, rfl, full, rfl⟩

theorem guests_modifyConnection {change : Connection → Connection}
    (keeps : ∀ c, (change c).id = c.id ∧ (change c).user = c.user) :
    (h.modifyConnection id change).guests = h.guests := by
  simp only [guests, modifyConnection, List.map_map]
  refine List.map_congr_left fun c _ => ?_
  simp only [Function.comp]
  split <;> simp [keeps]

/-! ### Taking a command -/

/-- The members of a hub when a command has been taken. -/
def follow (h : Hubs) (members : List Nat) : HubCommand → List Nat
  | .register id => members ++ [id]
  | .unregister id => members.filter (· ≠ id)
  | .broadcast _ => members.filter fun id => (h.connection? id).isSome

/-- A connection when a message has come for the members of a hub. -/
def give (h : Hubs) (members : List Nat) (text : String) (c : Connection) : Connection :=
  if members.contains c.id ∧ c.buffer.length < h.bufferSize then
    { c with buffer := c.buffer ++ [text] }
  else c

@[simp] theorem give_id {text : String} {ms : List Nat} : (h.give ms text c).id = c.id := by
  unfold give
  split <;> rfl

@[simp] theorem give_user {text : String} {ms : List Nat} : (h.give ms text c).user = c.user := by
  unfold give
  split <;> rfl

section

variable {rest : List HubCommand}

theorem hub?_obey : (h.obey user (h.members user) command).hub? user' =
    if user' = user then (h.hub? user').map (Hub.knowing (h.follow (h.members user) command))
    else h.hub? user' := by
  have changed (h : Hubs) (change : Hub → Hub) (keeps : ∀ hub, (change hub).user = hub.user) :=
    @hub?_modifyHub h user user' change keeps
  cases command with
  | broadcast text => exact changed _ (Hub.knowing _) fun _ => rfl
  | register id =>
    refine (changed h (fun hub => { hub with members := hub.members ++ [id] }) fun _ => rfl).trans ?_
    split
    · next same =>
      subst same
      cases found : h.hub? user' <;> simp [members, found, follow, Hub.knowing]
    · rfl
  | unregister id =>
    refine (changed h (fun hub => { hub with members := hub.members.filter (· ≠ id) })
      fun _ => rfl).trans ?_
    split
    · next same =>
      subst same
      cases found : h.hub? user' <;> simp [members, found, follow, Hub.knowing]
    · rfl

theorem step_eq (wait : h.inbox user = command :: rest) :
    h.step user = (h.modifyHub user (Hub.holding rest)).obey user (h.members user) command := by
  cases found : h.hub? user with
  | none => simp [inbox, found] at wait
  | some hub =>
    have waiting : hub.inbox = command :: rest := by simpa [inbox, found] using wait
    rw [step, found]
    simp only [waiting, members, found, Option.map_some, Option.getD_some]
    rfl

theorem hub?_step (wait : h.inbox user = command :: rest) : (h.step user).hub? user' =
    if user' = user then
      (h.hub? user').map (Hub.knowing (h.follow (h.members user) command) ∘ Hub.holding rest)
    else h.hub? user' := by
  have held (user' : Int) := @hub?_modifyHub h user user' (Hub.holding rest) fun _ => rfl
  have known : (h.modifyHub user (Hub.holding rest)).members user = h.members user := by
    rw [members, held, if_pos rfl]
    simp [members, Function.comp_def, Hub.holding]
  have taken := @hub?_obey (h.modifyHub user (Hub.holding rest)) user user' command
  rw [known, held] at taken
  rw [step_eq wait, taken]
  split
  · rw [Option.map_map]
    rfl
  · rfl

theorem inbox_step (wait : h.inbox user = command :: rest) :
    (h.step user).inbox user' = if user' = user then rest else h.inbox user' := by
  rw [inbox, hub?_step wait]
  split
  · next same =>
    subst same
    cases found : h.hub? user' with
    | none => simp [inbox, found] at wait
    | some hub => rfl
  · rfl

theorem members_step (wait : h.inbox user = command :: rest) : (h.step user).members user' =
    if user' = user then h.follow (h.members user) command else h.members user' := by
  rw [members, hub?_step wait]
  split
  · next same =>
    subst same
    cases found : h.hub? user' with
    | none => simp [inbox, found] at wait
    | some hub => rfl
  · rfl

theorem tally_step (wait : h.inbox user = command :: rest) :
    (h.step user).tally user' = h.tally user' := by
  rw [tally, hub?_step wait]
  split
  · rw [Option.map_map]
    rfl
  · rfl

theorem connections_step (wait : h.inbox user = command :: rest) : (h.step user).connections =
    match command with
    | .broadcast text =>
      h.connections.map (h.give (h.follow (h.members user) (.broadcast text)) text)
    | _ => h.connections := by
  rw [step_eq wait]
  cases command <;> rfl

theorem guests_step (wait : h.inbox user = command :: rest) :
    (h.step user).guests = h.guests := by
  rw [guests, connections_step wait]
  cases command with
  | broadcast text => simp [guests, Function.comp_def]
  | _ => rfl

theorem nextId_step (wait : h.inbox user = command :: rest) :
    (h.step user).nextId = h.nextId := by
  rw [step_eq wait]
  cases command <;> rfl

theorem bufferSize_step (wait : h.inbox user = command :: rest) :
    (h.step user).bufferSize = h.bufferSize := by
  rw [step_eq wait]
  cases command <;> rfl

end

end Hubs

end Galley
