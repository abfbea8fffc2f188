import Galley.Proofs.Hub.Coherence
import Mathlib.Logic.Relation
/-!
# Delivery

Connections are opened and closed, messages are sent and received and hubs take commands, in any
order and for any number of users. A connection is opened in two moves, since its registration waits
for room in the inbox, and it is used only when it was opened. A hub that is torn down may go on with
what is left in its inbox, but all of its connections are closed and nobody sees it. Main statement:
a connection receives, in their order, the messages that its hub took for it while there was room for
them, and the hubs are counted by their connections.
-/
namespace Galley

open Past

/-- The event that a command entered an inbox, if it did. -/
def Hubs.entered (before after : Hubs) (user : Int) (command : HubCommand) : List HubEvent :=
  if after.inbox user = before.inbox user ++ [command] then [.posted user command] else []

namespace Lobby

/-- Whether the opening of a connection has finished, which it has when its registration is in the
inbox. -/
def IsOpen (l : Lobby) (c : Connection) : Prop := .posted c.user (.register c.id) ∈ l.past

instance (l : Lobby) (c : Connection) : Decidable (l.IsOpen c) :=
  inferInstanceAs (Decidable (_ ∈ l.past))

/-- One move of a client, of a sender or of a hub. -/
inductive Step : Lobby → Lobby → Prop
  | beginConnect {l : Lobby} (user : Int) :
      Step l ⟨(l.hubs.beginConnect user).2, .begun (l.hubs.beginConnect user).1 user :: l.past⟩
  | register {l : Lobby} {id : Nat} {c : Connection} {hubs : Hubs}
      (there : l.hubs.connection? id = some c) (opening : ¬ l.IsOpen c)
      (room : l.hubs.register? id = some hubs) :
      Step l ⟨hubs, .posted c.user (.register id) :: l.past⟩
  | send {l : Lobby} (user : Int) (text : String) :
      Step l ⟨(l.hubs.send user text).2,
        l.hubs.entered (l.hubs.send user text).2 user (.broadcast text) ++ l.past⟩
  | close {l : Lobby} {id : Nat} {c : Connection} (there : l.hubs.connection? id = some c)
      (opened : l.IsOpen c) :
      Step l ⟨l.hubs.close id,
        l.hubs.entered (l.hubs.close id) c.user (.unregister id) ++ .closed id c.user :: l.past⟩
  | receive {l : Lobby} {id : Nat} {c : Connection} {text : String} {hubs : Hubs}
      (there : l.hubs.connection? id = some c) (opened : l.IsOpen c)
      (received : l.hubs.receive id = (some text, hubs)) :
      Step l ⟨hubs, .received id text :: l.past⟩
  | step {l : Lobby} (user : Int) (work : l.hubs.inbox user ≠ []) :
      Step l ⟨l.hubs.step user, .taken user :: l.past⟩

/-- The lobbies that come of hubs without connections. -/
def Reached (inboxSize bufferSize : Nat) (l : Lobby) : Prop :=
  Relation.ReflTransGen Step ⟨.empty inboxSize bufferSize, []⟩ l

open Hubs

variable {h : Hubs} {past : List HubEvent} {user : Int} {command : HubCommand}

/-! ### Moves and runs -/

theorem Coherent.empty (inboxSize bufferSize : Nat) :
    Coherent ⟨.empty inboxSize bufferSize, []⟩ where
  named := ⟨nofun, nofun, .nil, nofun, nofun, nofun, nofun⟩
  counted := ⟨fun _ => rfl, fun _ => rfl⟩
  placed := ⟨fun _ => rfl, nofun, nofun⟩
  delivered := ⟨nofun, nofun⟩

/-- A command that finds room enters the inbox and the past. -/
theorem Coherent.post {before : Hubs} (l : Coherent ⟨h, past⟩) (admits : Admits h user command)
    (same : (h.hub? user).isSome = true → h.inbox user = before.inbox user) :
    Coherent ⟨(h.post? user command).getD h,
      before.entered ((h.post? user command).getD h) user command ++ past⟩ := by
  cases posted : h.post? user command with
  | some h' =>
    obtain ⟨there, rfl⟩ := post?_eq_some posted
    have enters : (h.put user command).inbox user = before.inbox user ++ [command] := by
      rw [inbox_put there, if_pos rfl, same there]
    rw [Option.getD_some, entered, if_pos enters]
    exact l.put there admits
  | none =>
    have stays : h.inbox user ≠ before.inbox user ++ [command] := by
      cases found : h.hub? user with
      | none => simp [inbox, found]
      | some hub =>
        rw [same (by simp [found])]
        simp
    rw [Option.getD_none, entered, if_neg stays]
    exact l

theorem Coherent.move {l m : Lobby} (coherent : Coherent l) (s : Step l m) : Coherent m := by
  cases s with
  | beginConnect user => exact coherent.beginConnect user
  | @register id c hubs there opening room =>
    obtain ⟨hc, rfl⟩ := connection?_eq_some there
    obtain ⟨found, rfl⟩ := register?_eq_some there room
    exact coherent.put found (mem_guests hc)
  | send user text => exact coherent.post trivial fun _ => rfl
  | @close id c there opened =>
    obtain ⟨hc, rfl⟩ := connection?_eq_some there
    have left := coherent.leave hc
    have gone : Admits (l.hubs.leave c) c.user (.unregister c.id) := by
      refine ⟨?_, fun v hg => (mem_guests_leave.mp hg).2 rfl⟩
      rw [nextId_leave]
      exact coherent.named.below (coherent.named.begun (mem_guests hc))
    rw [close_eq there]
    refine left.post gone fun found => ?_
    rw [inbox_leave, if_neg]
    rintro ⟨-, none⟩
    rw [← isSome_tally, none] at found
    cases found
  | receive there opened received => exact coherent.receive received
  | step user work => exact coherent.step work

theorem Step.bufferSize_eq {l m : Lobby} (s : Step l m) :
    m.hubs.bufferSize = l.hubs.bufferSize := by
  have posts (h : Hubs) (user : Int) (command : HubCommand) :
      ((h.post? user command).getD h).bufferSize = h.bufferSize := by
    cases posted : h.post? user command with
    | none => rfl
    | some h' =>
      rw [(post?_eq_some posted).2]
      rfl
  cases s with
  | beginConnect user => exact bufferSize_beginConnect
  | @register id c hubs there opening room =>
    rw [(register?_eq_some there room).2]
    rfl
  | send user text => exact posts _ _ _
  | @close id c there opened =>
    rw [close_eq there, posts, bufferSize_leave]
  | receive there opened received =>
    obtain ⟨_, _, -, -, rfl⟩ := receive_eq_some received
    rfl
  | step user work =>
    obtain ⟨command, rest, wait⟩ := List.exists_cons_of_ne_nil work
    exact bufferSize_step wait

theorem Reached.coherent {inboxSize bufferSize : Nat} {l : Lobby}
    (run : l.Reached inboxSize bufferSize) :
    Coherent l ∧ l.hubs.bufferSize = max bufferSize 1 := by
  induction run with
  | refl => exact ⟨.empty inboxSize bufferSize, rfl⟩
  | tail _ s ih => exact ⟨ih.1.move s, s.bufferSize_eq.trans ih.2⟩

/-! ### Connecting -/

/-- A hub that settles takes one command after another. -/
theorem exists_settleHub (l : Lobby) (user : Int) :
    ∃ past, Relation.ReflTransGen Step l ⟨l.hubs.settleHub user, past⟩ ∧
      ∀ u command, .posted u command ∈ past → .posted u command ∈ l.past := by
  have goesOn (waits : List HubCommand) : ∀ l : Lobby, l.hubs.inbox user = waits →
      ∃ past, Relation.ReflTransGen Step l ⟨waits.foldl (fun h _ => h.step user) l.hubs, past⟩ ∧
        ∀ u command, .posted u command ∈ past → .posted u command ∈ l.past := by
    induction waits with
    | nil => exact fun l _ => ⟨l.past, .refl, fun _ _ => id⟩
    | cons command rest ih =>
      intro l wait
      obtain ⟨past, moves, posts⟩ := ih ⟨l.hubs.step user, .taken user :: l.past⟩
        ((inbox_step wait).trans (if_pos rfl))
      refine ⟨past, .head (.step user (by simp [wait])) moves, fun u command there => ?_⟩
      simpa using posts u command there
  cases found : l.hubs.hub? user with
  | none =>
    rw [settleHub, found]
    exact ⟨l.past, .refl, fun _ _ => id⟩
  | some hub =>
    rw [settleHub, found]
    exact goesOn hub.inbox l (by simp [inbox, found])

/-- Connecting is beginning and registering, and settling the hub where its inbox is full. -/
theorem exists_connect {l : Lobby} (coherent : Coherent l) (user : Int) :
    ∃ past, Relation.ReflTransGen Step l ⟨(l.hubs.connect user).2, past⟩ := by
  have fresh (u : Int) : .posted u (.register l.hubs.nextId) ∉
      HubEvent.begun l.hubs.nextId user :: l.past := by
    simpa using coherent.named.not_registered
  have registers (m : Lobby) (fresh : ∀ u, .posted u (.register l.hubs.nextId) ∉ m.past) :
      ∃ past, Relation.ReflTransGen Step m
        ⟨(m.hubs.register? l.hubs.nextId).getD m.hubs, past⟩ := by
    cases room : m.hubs.register? l.hubs.nextId with
    | none => exact ⟨m.past, .refl⟩
    | some hubs =>
      obtain ⟨c, there, -⟩ := Option.bind_eq_some_iff.mp room
      refine ⟨_, .single (.register there ?_ room)⟩
      rw [IsOpen, (connection?_eq_some there).2]
      exact fresh c.user
  have begun : Relation.ReflTransGen Step l
      ⟨(l.hubs.beginConnect user).2, .begun l.hubs.nextId user :: l.past⟩ := .single (.beginConnect user)
  unfold connect
  dsimp only
  split
  · next hubs room =>
    obtain ⟨past, moves⟩ := registers ⟨(l.hubs.beginConnect user).2, _⟩ fresh
    change (l.hubs.beginConnect user).2.register? l.hubs.nextId = some hubs at room
    rw [room] at moves
    exact ⟨past, begun.trans moves⟩
  · next full =>
    obtain ⟨settled, settles, posts⟩ := exists_settleHub
      ⟨(l.hubs.beginConnect user).2, .begun l.hubs.nextId user :: l.past⟩ user
    obtain ⟨past, moves⟩ := registers ⟨_, settled⟩ fun u there => fresh u (posts _ _ there)
    exact ⟨past, (begun.trans settles).trans moves⟩

/-! ### Delivery -/

/-- What is promised of some hubs with buffers of a size. -/
structure Delivers (size : Nat) (l : Lobby) : Prop where
  /-- A connection receives what its hub took for it while there was room. -/
  received {id : Nat} {user : Int} : .begun id user ∈ l.past →
    heard id l.past <+: (due size id user l.past).map Prod.snd
  /-- What it has not received waits in its buffer, and nothing else does. -/
  waiting {c : Connection} : c ∈ l.hubs.connections →
    heard c.id l.past ++ c.buffer = (due size c.id c.user l.past).map Prod.snd
  /-- All of it entered the inbox after the registration, comes in that order, and comes once. -/
  ordered (id : Nat) (user : Int) : (due size id user l.past).Sublist (meant id user l.past) ∧
    (meant id user l.past).Pairwise (·.1 < ·.1)
  /-- All of it is for the user of the connection. -/
  own {id : Nat} {user : Int} {m : Nat × String} : m ∈ due size id user l.past →
    .posted user (.broadcast m.2) ∈ l.past
  present (user : Int) : Past.present user l.past =
    (l.hubs.connections.filter (·.user = user)).map (·.id)
  /-- A user has a hub as long as the user has connections. -/
  hub (user : Int) : (l.hubs.hub? user).isSome = true ↔ Past.present user l.past ≠ []
  count (user : Int) : l.hubs.count user = (Past.present user l.past).length

/-- However the moves are interleaved, messages are delivered and hubs are counted as promised. -/
theorem delivery {inboxSize bufferSize : Nat} {l : Lobby}
    (run : l.Reached inboxSize bufferSize) : l.Delivers (max bufferSize 1) := by
  obtain ⟨⟨-, counted, -, delivered⟩, size⟩ := run.coherent
  rw [← size]
  refine ⟨delivered.received, delivered.buffered, fun id user => ?_, fun hm => ?_, fun user => ?_,
    fun user => ?_, fun user => ?_⟩
  · exact ⟨due_sublist_meant _ id user l.past, pairwise_meant id user l.past⟩
  · exact posted_of_mem_meant (mem_meant_of_mem_due hm)
  · rw [counted.guests, guests, List.filter_map, List.map_map]
    rfl
  · rw [← isSome_tally, counted.tally]
    split <;> simp [*]
  · have counts : l.hubs.count user = (l.hubs.tally user).getD 0 := rfl
    rw [counts, counted.tally]
    split <;> simp [*]

/-- A page that was slow to read: of three messages, the second found its buffer full. -/
def slow : Lobby where
  hubs := ⟨2, 1, 3, [⟨7, [.broadcast "c"], [1], 1⟩, ⟨8, [], [], 1⟩], [⟨1, 7, []⟩, ⟨2, 8, []⟩]⟩
  past := [.posted 7 (.broadcast "c"), .received 1 "a", .taken 7, .taken 7,
    .posted 7 (.broadcast "b"), .posted 7 (.broadcast "a"), .begun 2 8, .taken 7,
    .posted 7 (.register 1), .begun 1 7]

theorem slow_reached : slow.Reached 2 1 := by
  have opened := (Relation.ReflTransGen.refl (a := Lobby.mk (.empty 2 1) []))
    |>.tail (.beginConnect 7) |>.tail (@Step.register _ 1 _ _ rfl (by decide) rfl)
    |>.tail (.step 7 (by decide))
  have sent := opened.tail (.beginConnect 8) |>.tail (.send 7 "a") |>.tail (.send 7 "b")
  have taken := sent.tail (.step 7 (by decide)) |>.tail (.step 7 (by decide))
  have received := taken.tail (@Step.receive _ 1 _ "a" _ rfl (by decide) rfl)
  exact received.tail (.send 7 "c")

theorem delivery_slow : slow.Reached 2 1 ∧ slow.Delivers 1 :=
  ⟨slow_reached, delivery slow_reached⟩

end Lobby

end Galley
