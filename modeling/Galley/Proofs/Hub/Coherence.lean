import Galley.Proofs.Hub.Operations
import Galley.Proofs.Hub.Standing
/-!
# Hubs and their past

Names are given once, the hubs are counted by their connections, the inboxes hold what was posted,
and what was received and what waits in a buffer is what was due. Each kind of event leaves all of
this as it is: a beginning, a posting, a leaving, a receipt, and the taking of a command.
-/
namespace Galley

open Past

/-- Some hubs and all that has happened to them. -/
structure Lobby where
  hubs : Hubs
  past : List HubEvent

/-! ### What every lobby keeps -/

namespace Lobby

open Hubs

/-- Names are given once, and what carries the name of a connection came after its beginning. -/
structure Named (h : Hubs) (past : List HubEvent) : Prop where
  below {id : Nat} {user : Int} : .begun id user ∈ past → id < h.nextId
  unique {id : Nat} {u v : Int} : .begun id u ∈ past → .begun id v ∈ past → u = v
  distinct : (h.guests.map Prod.fst).Nodup
  begun {id : Nat} {user : Int} : (id, user) ∈ h.guests → .begun id user ∈ past
  registered {id : Nat} {user : Int} : .posted user (.register id) ∈ past → .begun id user ∈ past
  known {id : Nat} {user : Int} : id ∈ h.members user → .posted user (.register id) ∈ past
  heard {id : Nat} : heard id past ≠ [] → ∃ user, .begun id user ∈ past

/-- A user has a hub as long as there are connections, and the hub counts them. -/
structure Counted (h : Hubs) (past : List HubEvent) : Prop where
  guests (user : Int) : Past.present user past = (h.guests.filter (·.2 = user)).map Prod.fst
  tally (user : Int) : h.tally user =
    if Past.present user past = [] then none else some (Past.present user past).length

/-- The inboxes hold what was posted, and every connection stands somehow with its hub. -/
structure Placed (h : Hubs) (past : List HubEvent) : Prop where
  inbox (user : Int) : h.inbox user = (queue user past).map Prod.snd
  standing {id : Nat} {user : Int} : (id, user) ∈ h.guests →
    Standing (h.members user) id user past
  parted {id : Nat} {u v : Int} : .posted u (.unregister id) ∈ past →
    id < h.nextId ∧ (id, v) ∉ h.guests

/-- What was received and what waits in a buffer is what was due. -/
structure Delivered (h : Hubs) (past : List HubEvent) : Prop where
  buffered {c : Connection} : c ∈ h.connections →
    Past.heard c.id past ++ c.buffer = (due h.bufferSize c.id c.user past).map Prod.snd
  received {id : Nat} {user : Int} : .begun id user ∈ past →
    Past.heard id past <+: (due h.bufferSize id user past).map Prod.snd

structure Coherent (l : Lobby) : Prop where
  named : Named l.hubs l.past
  counted : Counted l.hubs l.past
  placed : Placed l.hubs l.past
  delivered : Delivered l.hubs l.past

variable {h h' : Hubs} {past : List HubEvent} {id : Nat} {user : Int} {command : HubCommand}
  {c : Connection} {text : String} {rest : List HubCommand}

/-! ### Beginning -/

theorem Named.not_begun (named : Named h past) : .begun h.nextId user ∉ past := fun there =>
  Nat.lt_irrefl _ (named.below there)

theorem Named.not_registered (named : Named h past) : .posted user (.register h.nextId) ∉ past :=
  fun there => named.not_begun (named.registered there)

theorem Named.heard_next (named : Named h past) : Past.heard h.nextId past = [] := by
  by_contra some
  obtain ⟨u, there⟩ := named.heard some
  exact named.not_begun there

theorem mem_guests_beginConnect {g : Nat × Int} :
    g ∈ (h.beginConnect user).2.guests ↔ g ∈ h.guests ∨ g = (h.nextId, user) := by
  rw [guests_beginConnect, List.mem_append, List.mem_singleton]

theorem Named.beginConnect (named : Named h past) (user : Int) :
    Named (h.beginConnect user).2 (.begun h.nextId user :: past) where
  below := by
    intro id u there
    rw [nextId_beginConnect]
    obtain same | old := List.mem_cons.mp there
    · simp [(HubEvent.begun.inj same).1]
    · exact Nat.lt_succ_of_lt (named.below old)
  unique := by
    intro id u v hu hv
    obtain same | old := List.mem_cons.mp hu <;> obtain same' | old' := List.mem_cons.mp hv
    · rw [(HubEvent.begun.inj same).2, (HubEvent.begun.inj same').2]
    · exact absurd ((HubEvent.begun.inj same).1 ▸ old') named.not_begun
    · exact absurd ((HubEvent.begun.inj same').1 ▸ old) named.not_begun
    · exact named.unique old old'
  distinct := by
    rw [guests_beginConnect, List.map_append, List.nodup_append]
    refine ⟨named.distinct, by simp, ?_⟩
    rintro a ha b hb rfl
    obtain ⟨⟨i, u⟩, hg, rfl⟩ := List.mem_map.mp ha
    obtain rfl : i = h.nextId := by simpa using hb
    exact named.not_begun (named.begun hg)
  begun := by
    intro id u hg
    obtain old | same := mem_guests_beginConnect.mp hg
    · exact List.mem_cons_of_mem _ (named.begun old)
    · rw [(Prod.mk.inj same).1, (Prod.mk.inj same).2]
      exact List.mem_cons_self
  registered there := List.mem_cons_of_mem _ (named.registered (by simpa using there))
  known hm := List.mem_cons_of_mem _ (named.known (members_beginConnect (h := h) ▸ hm))
  heard some := (named.heard some).imp fun _ there => List.mem_cons_of_mem _ there

theorem Counted.beginConnect (counted : Counted h past) (user : Int) :
    Counted (h.beginConnect user).2 (.begun h.nextId user :: past) where
  guests u := by
    rw [guests_beginConnect, List.filter_append, List.map_append, ← counted.guests, present]
    by_cases own : user = u <;> simp [own]
  tally u := by
    rw [tally_beginConnect, present, counted.tally]
    by_cases own : u = user
    · subst own
      by_cases none : present u past = [] <;> simp [none]
    · simp [own, Ne.symm own]

theorem Placed.beginConnect (placed : Placed h past) (named : Named h past) (user : Int) :
    Placed (h.beginConnect user).2 (.begun h.nextId user :: past) where
  inbox u := inbox_beginConnect.trans (placed.inbox u)
  standing := by
    intro id u hg
    rw [members_beginConnect]
    obtain old | same := mem_guests_beginConnect.mp hg
    · exact (placed.standing old).frame rfl rfl fun there => by simpa using there
    · obtain ⟨rfl, rfl⟩ := Prod.mk.inj same
      refine .apart ?_ fun hm => named.not_registered (named.known hm)
      simpa using named.not_registered
  parted := by
    intro id u v there
    obtain ⟨less, gone⟩ := @Placed.parted _ _ placed id u v (by simpa using there)
    refine ⟨Nat.lt_succ_of_lt less, fun hg => ?_⟩
    obtain old | same := mem_guests_beginConnect.mp hg
    · exact gone old
    · exact Nat.lt_irrefl _ ((Prod.mk.inj same).1 ▸ less)

theorem Delivered.beginConnect (delivered : Delivered h past) (named : Named h past) (user : Int) :
    Delivered (h.beginConnect user).2 (.begun h.nextId user :: past) where
  buffered := by
    intro c hc
    rw [bufferSize_beginConnect]
    rw [connections_beginConnect, List.mem_append, List.mem_singleton] at hc
    obtain old | rfl := hc
    · exact delivered.buffered old
    · have nothing : due h.bufferSize h.nextId user past = [] :=
        List.eq_nil_of_subset_nil fun m hm =>
          meant_eq_nil named.not_registered ▸ mem_meant_of_mem_due hm
      simp [Past.heard, due, named.heard_next, nothing]
  received := by
    intro id u there
    rw [bufferSize_beginConnect]
    obtain same | old := List.mem_cons.mp there
    · obtain ⟨rfl, rfl⟩ := HubEvent.begun.inj same
      change Past.heard h.nextId past <+: _
      rw [named.heard_next]
      exact List.nil_prefix
    · exact delivered.received old

theorem Coherent.beginConnect (l : Coherent ⟨h, past⟩) (user : Int) :
    Coherent ⟨(h.beginConnect user).2, .begun h.nextId user :: past⟩ :=
  ⟨l.named.beginConnect user, l.counted.beginConnect user, l.placed.beginConnect l.named user,
    l.delivered.beginConnect l.named user⟩

/-! ### Posting -/

/-- What may be posted: the registration of a connection to its user's hub, a message, and the word
that a connection is gone. -/
def Admits (h : Hubs) (user : Int) : HubCommand → Prop
  | .register id => (id, user) ∈ h.guests
  | .unregister id => id < h.nextId ∧ ∀ v, (id, v) ∉ h.guests
  | .broadcast _ => True

theorem Named.put (named : Named h past) (admits : Admits h user command) :
    Named (h.put user command) (.posted user command :: past) where
  below there := named.below (by simpa using there)
  unique hu hv := named.unique (by simpa using hu) (by simpa using hv)
  distinct := named.distinct
  begun hg := List.mem_cons_of_mem _ (named.begun hg)
  registered := by
    intro id u there
    refine List.mem_cons_of_mem _ ?_
    obtain same | old := List.mem_cons.mp there
    · obtain ⟨rfl, rfl⟩ := HubEvent.posted.inj same
      exact named.begun admits
    · exact named.registered old
  known hm := List.mem_cons_of_mem _ (named.known (members_put (h := h) ▸ hm))
  heard some := (named.heard some).imp fun _ there => List.mem_cons_of_mem _ there

theorem Counted.put (counted : Counted h past) :
    Counted (h.put user command) (.posted user command :: past) where
  guests u := counted.guests u
  tally u := tally_put.trans (counted.tally u)

theorem Placed.put (placed : Placed h past) (named : Named h past)
    (there : (h.hub? user).isSome = true) (admits : Admits h user command) :
    Placed (h.put user command) (.posted user command :: past) where
  inbox u := by
    rw [inbox_put there, queue, placed.inbox]
    by_cases own : u = user
    · simp [own]
    · simp [own, Ne.symm own]
  standing := by
    intro id u hg
    rw [members_put]
    have stands := placed.standing hg
    by_cases own : user = u
    · subst own
      exact stands.posted command named.known
    · refine stands.frame (if_neg own) ?_ fun there => by simpa [Ne.symm own] using there
      obtain ⟨text, same, -⟩ | same := meant_cons (.posted user command) id u past
      · exact absurd (HubEvent.posted.inj same).1 own
      · exact same
  parted := by
    intro id u v there
    obtain same | old := List.mem_cons.mp there
    · obtain ⟨rfl, rfl⟩ := HubEvent.posted.inj same
      exact ⟨admits.1, admits.2 v⟩
    · exact placed.parted old

theorem Coherent.put (l : Coherent ⟨h, past⟩) (there : (h.hub? user).isSome = true)
    (admits : Admits h user command) :
    Coherent ⟨h.put user command, .posted user command :: past⟩ :=
  ⟨l.named.put admits, l.counted.put, l.placed.put l.named there admits,
    ⟨l.delivered.buffered, fun there => l.delivered.received (by simpa using there)⟩⟩

/-! ### Leaving -/

theorem mem_guests_leave {g : Nat × Int} :
    g ∈ (h.leave c).guests ↔ g ∈ h.guests ∧ g.1 ≠ c.id := by
  rw [guests_leave, List.mem_filter, decide_eq_true_eq]

theorem Named.leave (named : Named h past) :
    Named (h.leave c) (.closed c.id c.user :: past) where
  below there := nextId_leave (h := h) ▸ named.below (by simpa using there)
  unique hu hv := named.unique (by simpa using hu) (by simpa using hv)
  distinct := by
    rw [guests_leave]
    exact named.distinct.sublist (List.filter_sublist.map _)
  begun hg := List.mem_cons_of_mem _ (named.begun (mem_guests_leave.mp hg).1)
  registered there := List.mem_cons_of_mem _ (named.registered (by simpa using there))
  known := by
    intro id u hm
    rw [members_leave] at hm
    split at hm
    · cases hm
    · exact List.mem_cons_of_mem _ (named.known hm)
  heard some := (named.heard some).imp fun _ there => List.mem_cons_of_mem _ there

theorem Counted.mem_present (counted : Counted h past) :
    id ∈ present user past ↔ (id, user) ∈ h.guests := by
  simp [counted.guests]

theorem Counted.nodup_present (counted : Counted h past) (named : Named h past) (user : Int) :
    (present user past).Nodup := by
  rw [counted.guests]
  exact named.distinct.sublist (List.filter_sublist.map _)

theorem Counted.leave (counted : Counted h past) (named : Named h past)
    (hc : c ∈ h.connections) : Counted (h.leave c) (.closed c.id c.user :: past) where
  guests u := by
    rw [guests_leave, present, counted.guests, List.filter_filter, List.filter_map,
      List.filter_filter]
    simp [Bool.and_comm]
  tally u := by
    rw [tally_leave, present, counted.tally]
    split
    · next own =>
      subst own
      have there : c.id ∈ present c.user past := counted.mem_present.mpr (mem_guests hc)
      have erased : (present c.user past).filter (· ≠ c.id) = (present c.user past).erase c.id := by
        rw [(counted.nodup_present named c.user).erase_eq_filter]
        exact List.filter_congr fun i _ => by by_cases same : i = c.id <;> simp [same]
      have fewer := List.length_erase_of_mem there
      rw [erased, if_neg (List.ne_nil_of_mem there), Option.map_some, Option.filter_some, ← fewer]
      cases left : (present c.user past).erase c.id <;> simp
    · next other =>
      have apart : c.id ∉ present u past := fun there => other <|
        named.unique (named.begun (counted.mem_present.mp there)) (named.begun (mem_guests hc))
      have same : (present u past).filter (· ≠ c.id) = present u past := by
        refine List.filter_eq_self.mpr fun i hi => decide_eq_true ?_
        rintro rfl
        exact apart hi
      rw [same]

theorem Placed.leave (placed : Placed h past)
    (counted : Counted (h.leave c) (.closed c.id c.user :: past)) :
    Placed (h.leave c) (.closed c.id c.user :: past) where
  inbox u := by
    rw [inbox_leave, placed.inbox, queue, counted.tally]
    by_cases own : u = c.user
    · subst own
      by_cases last : present c.user (.closed c.id c.user :: past) = [] <;> simp [last]
    · simp [own, Ne.symm own]
  standing := by
    intro id u hg
    have stays : present u (.closed c.id c.user :: past) ≠ [] :=
      List.ne_nil_of_mem (counted.mem_present.mpr hg)
    rw [members_leave, counted.tally, if_neg stays, if_neg (by simp)]
    refine (placed.standing (mem_guests_leave.mp hg).1).frame ?_ rfl fun there => by
      simpa using there
    by_cases own : c.user = u
    · subst own
      rw [queue, if_neg fun all => stays all.2]
    · rw [queue, if_neg fun all => own all.1]
  parted := by
    intro id u v there
    obtain ⟨less, gone⟩ := @Placed.parted _ _ placed id u v (by simpa using there)
    exact ⟨nextId_leave (h := h) ▸ less, fun hg => gone (mem_guests_leave.mp hg).1⟩

theorem Delivered.leave (delivered : Delivered h past) :
    Delivered (h.leave c) (.closed c.id c.user :: past) where
  buffered hc := by
    rw [connections_leave] at hc
    rw [bufferSize_leave]
    exact delivered.buffered (List.mem_of_mem_filter hc)
  received there := by
    rw [bufferSize_leave]
    exact delivered.received (by simpa using there)

theorem Coherent.leave (l : Coherent ⟨h, past⟩) (hc : c ∈ h.connections) :
    Coherent ⟨h.leave c, .closed c.id c.user :: past⟩ :=
  have counted := l.counted.leave l.named hc
  ⟨l.named.leave, counted, l.placed.leave counted, l.delivered.leave⟩

/-! ### Receiving -/

/-- An event that begins and posts nothing leaves the names as they are. -/
theorem Named.goesOn {e : HubEvent} (named : Named h past) (guests : h'.guests = h.guests)
    (nextId : h'.nextId = h.nextId) (begins : ∀ id u, e ≠ .begun id u)
    (posts : ∀ u command, e ≠ .posted u command)
    (known : ∀ {id user}, id ∈ h'.members user → .posted user (.register id) ∈ past)
    (heard : ∀ {id}, Past.heard id (e :: past) ≠ [] → ∃ user, .begun id user ∈ past) :
    Named h' (e :: past) := by
  have older {id : Nat} {u : Int} (there : .begun id u ∈ e :: past) : .begun id u ∈ past :=
    (List.mem_cons.mp there).resolve_left (Ne.symm (begins id u))
  exact {
    below there := nextId ▸ named.below (older there)
    unique hu hv := named.unique (older hu) (older hv)
    distinct := guests ▸ named.distinct
    begun hg := List.mem_cons_of_mem _ (named.begun (guests ▸ hg))
    registered there := List.mem_cons_of_mem _ <|
      named.registered ((List.mem_cons.mp there).resolve_left (Ne.symm (posts _ _)))
    known hm := List.mem_cons_of_mem _ (known hm)
    heard some := (heard some).imp fun _ there => List.mem_cons_of_mem _ there }

theorem Delivered.receive (delivered : Delivered h past) (named : Named h past)
    {rest : List String} (hc : c ∈ h.connections) (full : c.buffer = text :: rest) :
    Delivered (h.modifyConnection c.id fun c => { c with buffer := rest })
      (.received c.id text :: past) := by
  have grown : Past.heard c.id (.received c.id text :: past) = Past.heard c.id past ++ [text] :=
    if_pos rfl
  have other {i : Nat} (ne : i ≠ c.id) :
      Past.heard i (.received c.id text :: past) = Past.heard i past := if_neg (Ne.symm ne)
  have first : Past.heard c.id past ++ [text] ++ rest =
      (due h.bufferSize c.id c.user past).map Prod.snd := by
    rw [← delivered.buffered hc, full, List.append_assoc, List.singleton_append]
  refine ⟨?_, ?_⟩
  · intro c' hc'
    obtain ⟨d, hd, rfl⟩ := List.mem_map.mp hc'
    by_cases own : d.id = c.id
    · have owner : d.user = c.user :=
        named.unique (named.begun (mem_guests hd)) (own ▸ named.begun (mem_guests hc))
      rw [if_pos own]
      change Past.heard d.id _ ++ rest = (due h.bufferSize d.id d.user past).map Prod.snd
      rw [own, owner, grown, first]
    · rw [if_neg own, other own]
      exact delivered.buffered hd
  · intro i u there
    have begun : .begun i u ∈ past := by simpa using there
    by_cases own : i = c.id
    · subst own
      obtain rfl := named.unique begun (named.begun (mem_guests hc))
      rw [grown]
      exact ⟨rest, first⟩
    · rw [other own]
      exact delivered.received begun

theorem Coherent.receive (l : Coherent ⟨h, past⟩) (received : h.receive id = (some text, h')) :
    Coherent ⟨h', .received id text :: past⟩ := by
  obtain ⟨named, counted, placed, delivered⟩ := l
  obtain ⟨c, rest, there, full, rfl⟩ := receive_eq_some received
  obtain ⟨hc, rfl⟩ := connection?_eq_some there
  have same : (h.modifyConnection c.id fun c => { c with buffer := rest }).guests = h.guests :=
    guests_modifyConnection fun _ => ⟨rfl, rfl⟩
  refine ⟨?_, ⟨?_, counted.tally⟩, ⟨placed.inbox, ?_, ?_⟩, delivered.receive named hc full⟩
  · refine named.goesOn same rfl nofun nofun named.known fun {i} some => ?_
    by_cases own : i = c.id
    · exact ⟨c.user, own ▸ named.begun (mem_guests hc)⟩
    · refine named.heard fun nothing => some ?_
      rw [Past.heard, if_neg (Ne.symm own), nothing]
  · rw [same]
    exact counted.guests
  · intro i u hg
    exact (placed.standing (same ▸ hg)).frame rfl rfl fun there => by simpa using there
  · intro i u v there
    rw [same]
    exact placed.parted (by simpa using there)

/-! ### Taking a command -/

theorem mem_follow {members : List Nat} (hm : id ∈ h.follow members command) :
    id ∈ members ∨ command = .register id := by
  cases command with
  | register i =>
    refine (List.mem_append.mp hm).imp_right fun last => ?_
    rw [List.mem_singleton.mp last]
  | unregister i => exact .inl (List.mem_of_mem_filter hm)
  | broadcast text => exact .inl (List.mem_of_mem_filter hm)

/-- A connection that is there is forgotten only by the word that it is gone. -/
theorem mem_follow_iff {members : List Nat} (hg : (id, user) ∈ h.guests)
    (stays : command ≠ .unregister id) :
    id ∈ h.follow members command ↔ id ∈ members ∨ command = .register id := by
  refine ⟨mem_follow, ?_⟩
  rintro (there | rfl)
  · cases command with
    | register i => exact List.mem_append_left _ there
    | unregister i =>
      refine List.mem_filter.mpr ⟨there, decide_eq_true ?_⟩
      rintro rfl
      exact stays rfl
    | broadcast text =>
      obtain ⟨c, hc, same⟩ := List.mem_map.mp hg
      exact List.mem_filter.mpr
        ⟨there, isSome_connection?.mpr ⟨c, hc, (Prod.mk.inj same).1⟩⟩
  · exact List.mem_append_right _ List.mem_cons_self

theorem Placed.queue_eq (placed : Placed h past) (wait : h.inbox user = command :: rest) :
    ∃ stamp waits, queue user past = (stamp, command) :: waits ∧ waits.map Prod.snd = rest := by
  rw [placed.inbox] at wait
  obtain ⟨⟨stamp, _⟩, waits, place, rfl, rest⟩ := List.map_eq_cons_iff.mp wait
  exact ⟨stamp, waits, place, rest⟩

theorem Named.step (named : Named h past) (placed : Placed h past)
    (wait : h.inbox user = command :: rest) : Named (h.step user) (.taken user :: past) := by
  refine named.goesOn (guests_step wait) (nextId_step wait) nofun nofun ?_ named.heard
  intro id u hm
  rw [members_step wait] at hm
  split at hm
  · next own =>
    subst own
    obtain old | rfl := mem_follow hm
    · exact named.known old
    · obtain ⟨stamp, waits, place, -⟩ := placed.queue_eq wait
      exact posted_of_mem_queue (place ▸ List.mem_cons_self)
  · exact named.known hm

theorem Placed.step (placed : Placed h past) (wait : h.inbox user = command :: rest) :
    Placed (h.step user) (.taken user :: past) := by
  obtain ⟨stamp, waits, place, left⟩ := placed.queue_eq wait
  refine ⟨?_, ?_, ?_⟩
  · intro u
    rw [inbox_step wait, placed.inbox, queue]
    by_cases own : u = user
    · subst own
      rw [if_pos rfl, if_pos rfl, place, List.tail_cons, left]
    · rw [if_neg own, if_neg (Ne.symm own)]
  · intro id u hg
    rw [guests_step wait] at hg
    rw [members_step wait]
    split
    · next own =>
      subst own
      have stays : command ≠ .unregister id := by
        rintro rfl
        exact (placed.parted (posted_of_mem_queue (place ▸ List.mem_cons_self))).2 hg
      exact (placed.standing hg).taken place (mem_follow_iff hg stays)
    · next other =>
      exact (placed.standing hg).frame (if_neg (Ne.symm other)) rfl fun there => by
        simpa using there
  · intro id u v there
    rw [guests_step wait, nextId_step wait]
    exact placed.parted (by simpa using there)

/-- A message comes to the connections that it is meant for and that have room. -/
theorem Delivered.give (delivered : Delivered h past) (named : Named h past)
    (counted : Counted h past) (placed : Placed h past)
    (wait : h.inbox user = .broadcast text :: rest) (hc : c ∈ h.connections) :
    Past.heard c.id past ++ (h.give (h.follow (h.members user) (.broadcast text)) text c).buffer =
      (due h.bufferSize c.id c.user (.taken user :: past)).map Prod.snd := by
  obtain ⟨stamp, waits, place, -⟩ := placed.queue_eq wait
  have before := delivered.buffered hc
  have hg := mem_guests hc
  by_cases own : user = c.user
  · subst own
    have member : (h.follow (h.members c.user) (.broadcast text)).contains c.id = true ↔
        (stamp, text) ∈ meant c.id c.user past := by
      have stays : HubCommand.broadcast text ≠ .unregister c.id := nofun
      rw [List.contains_iff_mem, mem_follow_iff hg stays, ← (placed.standing hg).mem_iff place]
      simp
    have room : c.buffer.length < h.bufferSize ↔ (due h.bufferSize c.id c.user past).length <
        (Past.heard c.id past).length + h.bufferSize := by
      have lengths := congrArg List.length before
      rw [List.length_append, List.length_map] at lengths
      omega
    rw [Hubs.give, due_taken_broadcast place]
    by_cases comes : (stamp, text) ∈ meant c.id c.user past ∧
        (due h.bufferSize c.id c.user past).length < (Past.heard c.id past).length + h.bufferSize
    · rw [if_pos ⟨member.mpr comes.1, room.mpr comes.2⟩,
        if_pos ⟨comes.1, counted.mem_present.mpr hg, comes.2⟩, List.map_append, ← before,
        List.append_assoc]
      rfl
    · rw [if_neg fun both => comes ⟨member.mp both.1, room.mp both.2⟩,
        if_neg fun all => comes ⟨all.1, all.2.2⟩, before]
  · have foreign : (h.follow (h.members user) (.broadcast text)).contains c.id ≠ true := by
      intro there
      have known := (mem_follow (List.contains_iff_mem.mp there)).resolve_right nofun
      exact own (named.unique (named.registered (named.known known)) (named.begun hg))
    rw [Hubs.give, if_neg fun both => foreign both.1, before, due, if_neg fun all => own all.1]

theorem Delivered.step (delivered : Delivered h past) (named : Named h past)
    (counted : Counted h past) (placed : Placed h past) (wait : h.inbox user = command :: rest) :
    Delivered (h.step user) (.taken user :: past) := by
  refine ⟨?_, ?_⟩
  · intro c hc
    rw [connections_step wait] at hc
    rw [bufferSize_step wait]
    by_cases message : ∃ text, command = .broadcast text
    · obtain ⟨text, rfl⟩ := message
      obtain ⟨d, hd, rfl⟩ := List.mem_map.mp hc
      rw [give_id, give_user]
      exact delivered.give named counted placed wait hd
    · obtain ⟨stamp, waits, place, -⟩ := placed.queue_eq wait
      have same : c ∈ h.connections := by
        cases command with
        | broadcast text => exact absurd ⟨text, rfl⟩ message
        | _ => exact hc
      have unchanged : due h.bufferSize c.id c.user (.taken user :: past) =
          due h.bufferSize c.id c.user past := by
        by_cases own : user = c.user
        · subst own
          exact due_taken_of_ne place fun text same => message ⟨text, same⟩
        · exact if_neg fun all => own all.1
      rw [unchanged]
      exact delivered.buffered same
  · intro id u there
    rw [bufferSize_step wait]
    have begun : .begun id u ∈ past := by simpa using there
    have before := delivered.received begun
    obtain ⟨m, _, -, -, -, more⟩ | same := due_cons (.taken user) h.bufferSize id u past
    · rw [more, List.map_append]
      exact before.trans (List.prefix_append _ _)
    · rw [same]
      exact before

theorem Coherent.step (l : Coherent ⟨h, past⟩) (work : h.inbox user ≠ []) :
    Coherent ⟨h.step user, .taken user :: past⟩ := by
  obtain ⟨named, counted, placed, delivered⟩ := l
  obtain ⟨command, rest, wait⟩ := List.exists_cons_of_ne_nil work
  refine ⟨named.step placed wait, ⟨fun u => ?_, fun u => ?_⟩, placed.step wait,
    delivered.step named counted placed wait⟩
  · rw [guests_step wait]
    exact counted.guests u
  · rw [tally_step wait]
    exact counted.tally u

end Lobby

end Galley
