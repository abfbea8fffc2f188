import Galley.Proofs.Schedules
import Galley.Proofs.Queue.Stock
import Galley.Proofs.Trigger.Fire
/-!
# Conservation of jobs

One queue, the tasks that are filed in it from outside and the looks at it, one look at a time with
anything in between. A ticket follows a filed job: where its record is, whether the look under way
has taken it, and when it was handed out. Main statement: whatever the clock reads, the records in
the queue are those of the tickets, one for each job that is still to be run; none is handed out
early, and none that fires once is handed out twice.
-/
namespace Galley

/-! ### Fires -/

namespace Trigger

open Text.Numeral

def isOnce : Trigger → Bool
  | .runOnce _ _ => true
  | .simple _ => false

/-- Whether no time and no span is cut off when the next fire is looked for. -/
def Unsaturated (t : Trigger) (prev now : Int) : Prop :=
  match t with
  | .runOnce _ _ => True
  | .simple interval =>
    let step := stepNanos interval
    let span := ((now - prev).tdiv step + 1) * step
    prev + step ≤ maxI64 ∧ now - prev ≤ maxI64 ∧ span ≤ maxI64 ∧ prev + span ≤ maxI64

theorem nextFire_eq_none_iff {t : Trigger} {prev now : Int} :
    t.nextFire prev now = none ↔ t.isOnce = true := by
  cases t with
  | runOnce delay expired => exact ⟨fun _ => rfl, fun _ => rfl⟩
  | simple interval =>
    simp only [nextFire, isOnce]
    split <;> simp

/-- The next fire of a task that is handed out is later. -/
theorem lt_nextFire {t : Trigger} {prev now time : Int} (due : prev ≤ now) (early : minI64 ≤ prev)
    (h : t.nextFire prev now = some time) (free : t.Unsaturated prev now) : now < time := by
  cases t with
  | runOnce delay expired => exact nomatch h
  | simple interval =>
    obtain ⟨-, gap, long, last⟩ := free
    have positive : 0 < stepNanos interval := (stepNanos_range interval).1
    rw [Int.tdiv_eq_ediv_of_nonneg (by omega)] at long last
    have whole := Int.lt_ediv_add_one_mul_self (now - prev) positive
    have min : minI64 ≤ 0 := by decide
    simp only [nextFire] at h
    split at h
    · next before =>
      obtain rfl := Option.some.inj h
      exact before
    · rw [saturate_eq_self (by omega) gap, Int.tdiv_eq_ediv_of_nonneg (by omega),
        saturate_eq_self (by omega) long, saturate_eq_self (by omega) last] at h
      obtain rfl := Option.some.inj h
      omega

end Trigger

@[simp] theorem Shelf.isOnce_stored (s : Shelf) (f : Filed) :
    (s.stored f).trigger.isOnce = f.trigger.isOnce := by
  cases s with
  | memory queue => rfl
  | directory es => obtain ⟨_, _, _, _, _ | _, _⟩ := f <;> rfl

/-! ### Stocks among what is shared -/

namespace Shared

variable {q : QueueName} {stored : Filed → Filed} {s : Shared} {fs : List Filed} {f : Filed}

theorem push_error {e : QueueError} (hc : Queue.check q f = .error e) :
    s.push q f = (.error e, s) := by
  rw [push, Shelf.push_error hc]
  exact congrArg (Prod.mk _) (setShelf_shelves q)

theorem exists_push (keeps : (s.shelves q).Keeps q stored fs) (hf : f.Storable q)
    (room : (s.shelves q).HasRoom f) :
    ∃ t s', s.push q f = (.ok t, s') ∧ f.nextRun ≤ t ∧
      (s'.shelves q).Keeps q stored (MemoryQueue.insert (stored { f with nextRun := t }) fs) := by
  obtain ⟨t, shelf, pushed, late, keeps'⟩ := keeps.push_ok hf room
  refine ⟨t, s.setShelf q shelf, by rw [push, pushed], late, ?_⟩
  rw [setShelf_self]
  exact keeps'

theorem pop_nil (keeps : (s.shelves q).Keeps q stored []) :
    s.pop q = (.error .notFound, s) := by
  rw [pop, keeps.pop_nil]
  exact congrArg (Prod.mk _) (setShelf_shelves q)

theorem exists_pop (keeps : (s.shelves q).Keeps q stored (f :: fs)) :
    ∃ s', s.pop q = (.ok f, s') ∧ (s'.shelves q).Keeps q stored fs := by
  obtain ⟨shelf, popped, keeps'⟩ := keeps.pop_cons
  refine ⟨{ s.setShelf q shelf with running := s.running.mark f.key }, by rw [pop, popped], ?_⟩
  change ((s.setShelf q shelf).shelves q).Keeps q stored fs
  rw [setShelf_self]
  exact keeps'

end Shared

/-! ### Tickets -/

/-- A task as it was handed out, and what the clock read. -/
structure Fire where
  task : Filed
  reading : Int

/-- Whether the next fire is found without a cut. -/
def Fire.Unsaturated (r : Fire) : Prop :=
  r.task.trigger.Unsaturated r.task.nextRun r.reading

/-- A job that was filed, with what has become of it. -/
structure Ticket where
  filed : Filed
  /-- The time of its record in the queue, if it has one. -/
  record : Option Int
  /-- Whether the look that is under way took its record. -/
  inHand : Bool
  /-- All times that it was handed out, the last one first. -/
  fires : List Fire

namespace Ticket

def isOnce (k : Ticket) : Bool := k.filed.trigger.isOnce

/-- The task of the record. -/
def task? (k : Ticket) : Option Filed :=
  k.record.map fun t => { k.filed with nextRun := t }

/-- The tickets of what is filed, if it could be filed. -/
def ofPush (f : Filed) : Except QueueError Int → List Ticket
  | .error _ => []
  | .ok t => [⟨f, some t, false, []⟩]

/-- What an action of a look does to a ticket. -/
def after (k : Ticket) : (a : Action) → a.Answer → Ticket
  | .pop _, .ok f =>
    if k.record = some f.nextRun then { k with record := none, inHand := true } else k
  | .refile _ _, .ok t => if k.inHand then { k with record := some t } else k
  | _, _ => k

/-- What the end of a look does to a ticket. -/
def handOut (k : Ticket) (fire : Option Fire) : Ticket :=
  if k.inHand then { k with inHand := false, fires := fire.toList ++ k.fires } else k

end Ticket

/-! ### A queue and the looks at it -/

/-- A look at a queue, and what it read from the clock last. -/
structure Look where
  process : Process (Option Filed)
  reading : Option Int

/-- What is read from the clock by an action, or else before it. -/
def Look.reads (before : Option Int) : (a : Action) → a.Answer → Option Int
  | .now, now => some now
  | _, _ => before

structure Desk where
  shared : Shared
  look : Option Look
  tickets : List Ticket

namespace Desk

/-- One step at a queue. The clock may read anything, and all that is not about the queue may change
at any time. -/
inductive Step (q : QueueName) : Desk → Desk → Prop
  | push {s : Shared} {look : Option Look} {ks : List Ticket} {f : Filed} (range : f.InRange)
      (room : Queue.check q f = .ok () → (s.shelves q).HasRoom f) :
      Step q ⟨s, look, ks⟩ ⟨(s.push q f).2, look, ks ++ Ticket.ofPush f (s.push q f).1⟩
  | look {s : Shared} {ks : List Ticket} :
      Step q ⟨s, none, ks⟩ ⟨s, some ⟨Dispatch.popDue q, none⟩, ks⟩
  | act {s s' : Shared} {ks : List Ticket} {a : Action} {r : a.Answer}
      {next : a.Answer → Process (Option Filed)} {reading : Option Int} (h : s.Answers a r s') :
      Step q ⟨s, some ⟨.act a next, reading⟩, ks⟩
        ⟨s', some ⟨next r, Look.reads reading a r⟩, ks.map (·.after a r)⟩
  | ended {s : Shared} {ks : List Ticket} {result : Option Filed} {reading : Option Int} :
      Step q ⟨s, some ⟨.done result, reading⟩, ks⟩
        ⟨s, none, ks.map (·.handOut (result.bind fun f => reading.map (Fire.mk f)))⟩
  | meanwhile {s s' : Shared} {look : Option Look} {ks : List Ticket}
      (same : s'.shelves q = s.shelves q) : Step q ⟨s, look, ks⟩ ⟨s', look, ks⟩

def Reaches (q : QueueName) : Desk → Desk → Prop :=
  Relation.ReflTransGen (Step q)

end Desk

/-! ### What a look has in hand -/

inductive Hand
  | free
  | took (f : Filed) (reading : Option Int)
  | back (f : Filed) (reading : Int) (time : Int)

/-- What a look may do by what it has in hand. It is promised that what it files is filed at its time
or later. -/
def watch (q : QueueName) : Discipline Hand where
  allows
    | .free, .pop q' => q' = q
    | .took _ none, .now => True
    | .took f (some now), .unmark _ => now < f.nextRun
    | .took f (some now), .refile q' g => q' = q ∧ (now < f.nextRun ∧ g = f ∨
        f.nextRun ≤ now ∧ ∃ t, f.trigger.nextFire f.nextRun now = some t ∧ g = { f with nextRun := t })
    | _, _ => False
  promises
    | .pop _, .ok f => f.InRange
    | .refile _ g, r => ∃ t, r = .ok t ∧ g.nextRun ≤ t
    | _, _ => True
  after
    | .free, .pop _, .ok f => .took f none
    | .took f _, .now, now => .took f (some now)
    | .took f (some now), .refile _ _, .ok t => .back f now t
    | hand, _, _ => hand

section

variable {q : QueueName} {f : Filed} {a : Action}

theorem watch_free (h : (watch q).allows .free a) : a = .pop q := by
  cases a with
  | pop q' => exact congrArg Action.pop h
  | _ => exact absurd h id

theorem watch_took (h : (watch q).allows (.took f none) a) : a = .now := by
  cases a with
  | now => rfl
  | _ => exact absurd h id

theorem watch_read {now : Int} (h : (watch q).allows (.took f (some now)) a) :
    (∃ key, a = .unmark key) ∨ ∃ g, a = .refile q g ∧ (now < f.nextRun ∧ g = f ∨
      f.nextRun ≤ now ∧ ∃ t, f.trigger.nextFire f.nextRun now = some t ∧
        g = { f with nextRun := t }) := by
  cases a with
  | unmark key => exact .inl ⟨key, rfl⟩
  | refile q' g =>
    obtain ⟨rfl, how⟩ := h
    exact .inr ⟨g, rfl, how⟩
  | _ => exact absurd h id

theorem not_watch_back {now t : Int} : ¬ (watch q).allows (.back f now t) a := by
  cases a <;> exact id

end

/-- How a look ends by what it has in hand. -/
def Hand.Ends : Hand → Option Filed → Prop
  | .free, r => r = none
  | .took f reading, r =>
    r = some f ∧ f.trigger.isOnce = true ∧ ∃ now, reading = some now ∧ f.nextRun ≤ now
  | .back f now t, none => now < f.nextRun ∧ f.nextRun ≤ t
  | .back f now t, some g => g = f ∧ f.trigger.isOnce = false ∧ f.nextRun ≤ now ∧
      (f.trigger.Unsaturated f.nextRun now → now < t)

namespace Dispatch

open Process

theorem putBack_watched {q : QueueName} {f : Filed} {now : Int} (early : now < f.nextRun) :
    ((putBack q f).bind fun _ => .done none).Follows (watch q) Hand.Ends (.took f (some now)) := by
  have refile : (Process.act (.refile q f) fun _ => .done none).Follows (watch q) Hand.Ends
      (.took f (some now)) := by
    refine ⟨⟨rfl, .inl ⟨early, rfl⟩⟩, ?_⟩
    rintro r ⟨t, rfl, late⟩
    exact ⟨early, late⟩
  unfold putBack
  by_cases hq : q = .now
  · subst hq
    exact refile
  · rw [if_pos hq]
    exact ⟨early, fun _ _ => refile⟩

theorem recur_watched {q : QueueName} {f : Filed} {now : Int} (range : f.InRange)
    (due : f.nextRun ≤ now) :
    ((recur q f now).bind fun _ => .done (some f)).Follows (watch q) Hand.Ends
      (.took f (some now)) := by
  unfold recur
  cases hn : f.trigger.nextFire f.nextRun now with
  | none => exact ⟨rfl, Trigger.nextFire_eq_none_iff.mp hn, now, rfl, due⟩
  | some time =>
    have again : f.trigger.isOnce = false := by
      rw [Bool.eq_false_iff]
      intro once
      rw [Trigger.nextFire_eq_none_iff.mpr once] at hn
      exact nomatch hn
    refine ⟨⟨rfl, .inr ⟨due, time, hn, rfl⟩⟩, ?_⟩
    rintro r ⟨t, rfl, late⟩
    refine ⟨rfl, again, due, fun free => ?_⟩
    have later := Trigger.lt_nextFire due range.early hn free
    exact Int.lt_of_lt_of_le later late

/-- A look takes the first task and puts it back or hands it out. -/
theorem popDue_watched (q : QueueName) : (popDue q).Follows (watch q) Hand.Ends .free := by
  refine ⟨rfl, fun r range => ?_⟩
  cases r with
  | error e => rfl
  | ok f =>
    refine ⟨trivial, fun now _ => ?_⟩
    change Follows _ _ _ (ite _ _ _)
    split
    · next early => exact putBack_watched early
    · next due => exact recur_watched range (Int.not_lt.mp due)

end Dispatch

/-! ### Lists with one entry picked out -/

theorem mem_split {α : Type} {before behind : List α} {a b : α} (h : b ∈ before ++ behind) :
    b ∈ before ++ a :: behind :=
  ((List.sublist_cons_self a behind).append_left before).mem h

theorem forall_mem_split {α : Type} {P : α → Prop} {before behind : List α} {a : α} (here : P a)
    (there : ∀ b ∈ before ++ behind, P b) : ∀ b ∈ before ++ a :: behind, P b := by
  rw [List.forall_mem_append, List.forall_mem_cons]
  exact ⟨(List.forall_mem_append.mp there).1, here, (List.forall_mem_append.mp there).2⟩

theorem map_split {α : Type} {g : α → α} {before behind : List α}
    (same : ∀ a ∈ before ++ behind, g a = a) (a : α) :
    (before ++ a :: behind).map g = before ++ g a :: behind := by
  have left : before.map g = before := by
    rw [List.map_congr_left fun b hb => same b (List.mem_append_left _ hb), List.map_id']
  have right : behind.map g = behind := by
    rw [List.map_congr_left fun b hb => same b (List.mem_append_right _ hb), List.map_id']
  rw [List.map_append, List.map_cons, left, right]

/-! ### Tickets at rest and in hand -/

namespace Ticket

/-- Whether a record at a time is one that is still to be run: the job has not fired yet, or it fires
again and was last handed out before that time. -/
structure Awaits (k : Ticket) (t : Int) : Prop where
  once : k.isOnce = true → k.fires = []
  last : ∀ r ∈ k.fires.head?, r.Unsaturated → r.reading < t

/-- Whether a ticket is as it should be while no look has it in hand. -/
structure Rests (k : Ticket) : Prop where
  free : k.inHand = false
  record : match k.record with
    | some t => k.Awaits t
    | none => k.isOnce = true ∧ ∃ r, k.fires = [r]

/-- Whether what was handed out was due and was the job. -/
def Fits (stored : Filed → Filed) (k : Ticket) : Prop :=
  ∀ r ∈ k.fires, r.task.nextRun ≤ r.reading ∧
    r.task = stored { k.filed with nextRun := r.task.nextRun }

theorem Awaits.mono {k : Ticket} {t u : Int} (h : k.Awaits t) (late : t ≤ u) : k.Awaits u where
  once := h.once
  last r hr free := Int.lt_of_lt_of_le (h.last r hr free) late

theorem Rests.handOut_eq {k : Ticket} (h : k.Rests) (fire : Option Fire) : k.handOut fire = k := by
  rw [handOut, h.free]
  rfl

theorem Rests.fires_le {k : Ticket} (h : k.Rests) (single : k.isOnce = true) :
    k.fires.length ≤ 1 := by
  have record := h.record
  split at record
  · rw [record.once single]
    exact Nat.zero_le 1
  · obtain ⟨-, r, one⟩ := record
    rw [one]
    exact Nat.le_refl 1

@[simp] theorem task?_handOut (k : Ticket) (fire : Option Fire) :
    (k.handOut fire).task? = k.task? := by
  unfold handOut
  split <;> rfl

theorem map_handOut_eq {ks : List Ticket} (h : ∀ k ∈ ks, k.Rests) (fire : Option Fire) :
    ks.map (·.handOut fire) = ks := by
  rw [List.map_congr_left fun k hk => (h k hk).handOut_eq fire, List.map_id']

/-- Actions change neither the job nor what was handed out. -/
theorem Fits.after {stored : Filed → Filed} {k : Ticket} (h : k.Fits stored) (a : Action)
    (r : a.Answer) : (k.after a r).Fits stored := by
  unfold Ticket.after
  split
  · split <;> exact h
  · split <;> exact h
  · exact h

theorem after_pop_ne {k : Ticket} {f : Filed} (other : k.record ≠ some f.nextRun) (q : QueueName) :
    k.after (.pop q) (.ok f) = k := if_neg other

theorem after_refile_of_rests {k : Ticket} (h : k.Rests) (q : QueueName) (g : Filed) (t : Int) :
    k.after (.refile q g) (.ok t) = k := by
  change (if k.inHand then _ else k) = k
  rw [h.free]
  rfl

/-- One ticket is in hand, and all others rest. -/
structure Taken (q : QueueName) (stored : Filed → Filed) (f : Filed) (record : Option Int)
    (ks before : List Ticket) (k : Ticket) (behind : List Ticket) : Prop where
  all : ks = before ++ k :: behind
  inHand : k.inHand = true
  record : k.record = record
  same : f = stored { k.filed with nextRun := f.nextRun }
  storable : f.Storable q
  awaits : k.Awaits f.nextRun
  others : ∀ k' ∈ before ++ behind, k'.Rests

namespace Taken

variable {q : QueueName} {stored : Filed → Filed} {f : Filed} {record : Option Int}
  {ks before behind : List Ticket} {k : Ticket}

theorem countP_inHand (h : Taken q stored f record ks before k behind) :
    ks.countP (·.inHand) = 1 := by
  have free (rest : List Ticket) (rests : ∀ k' ∈ rest, k'.Rests) : rest.countP (·.inHand) = 0 := by
    rw [List.countP_eq_zero]
    intro k' hk' held
    exact Bool.noConfusion (held.symm.trans (rests k' hk').free)
  have left := free before fun k' hk' => h.others k' (List.mem_append_left _ hk')
  have right := free behind fun k' hk' => h.others k' (List.mem_append_right _ hk')
  rw [h.all, List.countP_append, List.countP_cons, left, right, h.inHand]
  rfl

theorem fires_le (h : Taken q stored f record ks before k behind) {k' : Ticket} (hk : k' ∈ ks)
    (single : k'.isOnce = true) : k'.fires.length ≤ 1 := by
  have here (single : k.isOnce = true) : k.fires.length ≤ 1 := by
    rw [h.awaits.once single]
    exact Nat.zero_le 1
  rw [h.all] at hk
  exact forall_mem_split here (fun b hb => (h.others b hb).fires_le) k' hk single

end Taken

end Ticket

open Ticket

namespace Hand

/-- What a look has in hand, by the tickets. -/
def Holds (q : QueueName) (stored : Filed → Filed) (ks : List Ticket) : Hand → Prop
  | .free => ∀ k ∈ ks, k.Rests
  | .took f _ => ∃ before k behind, Taken q stored f none ks before k behind
  | .back f _ t => ∃ before k behind, Taken q stored f (some t) ks before k behind

/-- What a look has read, by what it has in hand. -/
def Knows : Hand → Option Int → Prop
  | .free, reading => reading = none
  | .took _ reading', reading => reading = reading'
  | .back _ now _, reading => reading = some now

theorem Holds.append {q : QueueName} {stored : Filed → Filed} {ks new : List Ticket} {hand : Hand}
    (h : hand.Holds q stored ks) (rests : ∀ k ∈ new, k.Rests) :
    hand.Holds q stored (ks ++ new) := by
  have more {f : Filed} {record : Option Int} {before behind : List Ticket} {k : Ticket}
      (taken : Taken q stored f record ks before k behind) :
      Taken q stored f record (ks ++ new) before k (behind ++ new) := by
    refine { taken with all := ?_, others := ?_ }
    · rw [taken.all, List.append_assoc, List.cons_append]
    · intro k' hk
      rw [← List.append_assoc] at hk
      rcases List.mem_append.mp hk with hk | hk
      · exact taken.others k' hk
      · exact rests k' hk
  cases hand with
  | free =>
    intro k hk
    rcases List.mem_append.mp hk with hk | hk
    · exact h k hk
    · exact rests k hk
  | took f reading =>
    obtain ⟨before, k, behind, taken⟩ := h
    exact ⟨before, k, behind ++ new, more taken⟩
  | back f now t =>
    obtain ⟨before, k, behind, taken⟩ := h
    exact ⟨before, k, behind ++ new, more taken⟩

end Hand

theorem Hand.Holds.fires_le {q : QueueName} {stored : Filed → Filed} {ks : List Ticket} {hand : Hand}
    (h : hand.Holds q stored ks) {k : Ticket} (hk : k ∈ ks) (single : k.isOnce = true) :
    k.fires.length ≤ 1 := by
  cases hand with
  | free => exact (h k hk).fires_le single
  | took f reading =>
    obtain ⟨before, k, behind, taken⟩ := h
    exact taken.fires_le hk single
  | back f now t =>
    obtain ⟨before, k, behind, taken⟩ := h
    exact taken.fires_le hk single

namespace Desk

variable {q : QueueName} {stored : Filed → Filed} {s s' : Shared} {ks : List Ticket}

/-- Whether the records of a queue are those of the tickets. -/
def Records (q : QueueName) (stored : Filed → Filed) (s : Shared) (ks : List Ticket) : Prop :=
  ∃ fs, (s.shelves q).Keeps q stored fs ∧ ((ks.filterMap task?).map stored).Perm fs

structure Sound (q : QueueName) (stored : Filed → Filed) (d : Desk) : Prop where
  records : Records q stored d.shared d.tickets
  fits : ∀ k ∈ d.tickets, k.Fits stored
  look : match d.look with
    | none => Hand.free.Holds q stored d.tickets
    | some l => ∃ hand : Hand, l.process.Follows (watch q) Hand.Ends hand ∧
      hand.Knows l.reading ∧ hand.Holds q stored d.tickets

theorem Records.meanwhile (h : Records q stored s ks) (same : s'.shelves q = s.shelves q) :
    Records q stored s' ks := by
  unfold Records
  rw [same]
  exact h

/-! ### Pushes -/

/-- What is filed from outside has a record and a ticket, or neither. -/
theorem Records.push (h : Records q stored s ks) {f : Filed} (range : f.InRange)
    (room : Queue.check q f = .ok () → (s.shelves q).HasRoom f) :
    Records q stored (s.push q f).2 (ks ++ ofPush f (s.push q f).1) ∧
      ∀ k ∈ ofPush f (s.push q f).1, k.Rests ∧ k.Fits stored := by
  obtain ⟨fs, keeps, perm⟩ := h
  cases hc : Queue.check q f with
  | error e =>
    rw [Shared.push_error hc, ofPush, List.append_nil]
    exact ⟨⟨fs, keeps, perm⟩, fun _ hk => absurd hk List.not_mem_nil⟩
  | ok _ =>
    obtain ⟨t, s', pushed, -, keeps'⟩ := Shared.exists_push keeps ⟨range, hc⟩ (room hc)
    rw [pushed]
    refine ⟨⟨_, keeps', ?_⟩, ?_⟩
    · rw [List.filterMap_append, List.map_append]
      refine (List.perm_append_comm.trans ?_).trans (MemoryQueue.insert_perm _ fs).symm
      exact perm.cons _
    · intro k hk
      obtain rfl := List.mem_singleton.mp hk
      have unfired (r : Fire) (hr : r ∈ ([] : List Fire).head?) : r.Unsaturated → r.reading < t :=
        absurd hr (Option.not_mem_none r)
      exact ⟨⟨rfl, fun _ => rfl, unfired⟩, fun _ hr => absurd hr List.not_mem_nil⟩

theorem Sound.push {look : Option Look} {f : Filed} (h : Sound q stored ⟨s, look, ks⟩)
    (range : f.InRange) (room : Queue.check q f = .ok () → (s.shelves q).HasRoom f) :
    Sound q stored ⟨(s.push q f).2, look, ks ++ ofPush f (s.push q f).1⟩ := by
  obtain ⟨records, new⟩ := h.records.push range room
  have rests (k : Ticket) (hk : k ∈ ofPush f (s.push q f).1) := (new k hk).1
  refine ⟨records, ?_, ?_⟩
  · intro k hk
    rcases List.mem_append.mp hk with hk | hk
    · exact h.fits k hk
    · exact (new k hk).2
  · cases look with
    | none => exact (show Hand.free.Holds q stored ks from h.look).append rests
    | some l =>
      obtain ⟨hand, follows, knows, holds⟩ := h.look
      exact ⟨hand, follows, knows, holds.append rests⟩

/-! ### Looks -/

/-- The first task of a queue has the record of one ticket, and all other tickets have other
times. -/
theorem exists_ticket {fs : List Filed} {f : Filed} (stock : Queue.Stock q (f :: fs))
    (nextRun_stored : ∀ g, (stored g).nextRun = g.nextRun)
    (perm : ((ks.filterMap task?).map stored).Perm (f :: fs)) :
    ∃ before k behind, ks = before ++ k :: behind ∧ k.record = some f.nextRun ∧
      f = stored { k.filed with nextRun := f.nextRun } ∧
      (((before ++ behind).filterMap task?).map stored).Perm fs ∧
      ∀ k' ∈ before ++ behind, k'.record ≠ some f.nextRun := by
  obtain ⟨g, hg, rfl⟩ := List.mem_map.mp (perm.mem_iff.mpr List.mem_cons_self)
  obtain ⟨k, hk, hr⟩ := List.mem_filterMap.mp hg
  obtain ⟨t, ht, rfl⟩ := Option.map_eq_some_iff.mp hr
  obtain ⟨before, behind, rfl⟩ := List.append_of_mem hk
  rw [nextRun_stored] at *
  rw [List.filterMap_append, List.filterMap_cons_some hr, List.map_append, List.map_cons] at perm
  have rest := (List.perm_middle.symm.trans perm).cons_inv
  rw [← List.map_append, ← List.filterMap_append] at rest
  refine ⟨before, k, behind, rfl, ht, rfl, rest, ?_⟩
  intro k' hk' same
  -- a second record at this time would be among the later ones
  have mem : stored { k'.filed with nextRun := t } ∈ fs := by
    refine rest.mem_iff.mp (List.mem_map_of_mem (List.mem_filterMap.mpr ⟨k', hk', ?_⟩))
    rw [task?, same]
    rfl
  have later := (List.pairwise_cons.mp stock.ordered).1 _ mem
  rw [nextRun_stored, nextRun_stored] at later
  exact Int.lt_irrefl t later

/-- A pop takes a record and its ticket in hand, or finds nothing. -/
theorem Records.pop (h : Records q stored s ks) (rests : ∀ k ∈ ks, k.Rests) :
    Records q stored (s.pop q).2 (ks.map (·.after (.pop q) (s.pop q).1)) ∧
      (watch q).promises (.pop q) (s.pop q).1 ∧
      ((watch q).after .free (.pop q) (s.pop q).1).Holds q stored
        (ks.map (·.after (.pop q) (s.pop q).1)) := by
  obtain ⟨fs, keeps, perm⟩ := h
  cases fs with
  | nil =>
    rw [Shared.pop_nil keeps]
    have same : ks.map (·.after (.pop q) (.error .notFound)) = ks := List.map_id' ks
    rw [same]
    exact ⟨⟨[], keeps, perm⟩, trivial, rests⟩
  | cons f fs =>
    obtain ⟨s', popped, keeps'⟩ := Shared.exists_pop keeps
    have storable := keeps.stock.storable f List.mem_cons_self
    have times (g : Filed) : (stored g).nextRun = g.nextRun := by
      rw [← keeps.stored_eq, Shelf.nextRun_stored]
    obtain ⟨before, k, behind, rfl, record, job, rest, others⟩ :=
      exists_ticket keeps.stock times perm
    have waits := (rests k (by simp)).record
    rw [record] at waits
    have taken : k.after (.pop q) (.ok f) = { k with record := none, inHand := true } :=
      if_pos record
    have all := map_split (g := (·.after (.pop q) (.ok f)))
      (fun k' hk' => after_pop_ne (others k' hk') q) k
    rw [popped]
    rw [all, taken]
    refine ⟨⟨fs, keeps', ?_⟩, storable.inRange, before, _, behind, rfl, rfl, rfl, job, storable,
      ?_, ?_⟩
    · rw [List.filterMap_append, List.filterMap_cons_none rfl, ← List.filterMap_append]
      exact rest
    · exact ⟨waits.once, waits.last⟩
    · exact fun k' hk' => rests k' (mem_split hk')

/-- The ticket in hand gets a record when its task is filed again. -/
theorem Records.refile (h : Records q stored s ks) {f g : Filed} {before behind : List Ticket}
    {k : Ticket} (taken : Taken q stored f none ks before k behind)
    (same : ∀ t, { g with nextRun := t } = { f with nextRun := t }) (hg : g.Storable q)
    (room : (s.shelves q).HasRoom g) :
    ∃ t s', s.push q g = (.ok t, s') ∧ g.nextRun ≤ t ∧
      Records q stored s' (ks.map (·.after (.refile q g) (.ok t))) ∧
      Taken q stored f (some t) (ks.map (·.after (.refile q g) (.ok t))) before
        { k with record := some t } behind := by
  obtain ⟨fs, keeps, perm⟩ := h
  obtain ⟨t, s', pushed, late, keeps'⟩ := Shared.exists_push keeps hg room
  have filed : stored { g with nextRun := t } = stored { k.filed with nextRun := t } := by
    have job := taken.same
    rw [← keeps.stored_eq] at job ⊢
    rw [same t, job]
    exact Shelf.stored_withNextRun _ { k.filed with nextRun := f.nextRun } t
  have put : k.after (.refile q g) (.ok t) = { k with record := some t } := if_pos taken.inHand
  have all := map_split (g := (·.after (.refile q g) (.ok t)))
    (fun k' hk' => after_refile_of_rests (taken.others k' hk') q g t) k
  rw [put] at all
  refine ⟨t, s', pushed, late, ?_⟩
  rw [taken.all] at perm ⊢
  rw [all]
  refine ⟨⟨_, keeps', ?_⟩, { taken with all := rfl, record := rfl, awaits := ?_ }⟩
  · have popped : k.task? = none := by
      rw [task?, taken.record]
      rfl
    have again : ({ k with record := some t } : Ticket).task? =
        some { k.filed with nextRun := t } := rfl
    rw [List.filterMap_append, List.filterMap_cons_none popped, ← List.filterMap_append] at perm
    rw [List.filterMap_append, List.filterMap_cons_some again, List.map_append, List.map_cons]
    refine (List.perm_middle.trans ?_).trans (MemoryQueue.insert_perm _ fs).symm
    rw [filed, ← List.map_append, ← List.filterMap_append]
    exact perm.cons _
  · exact ⟨taken.awaits.once, taken.awaits.last⟩

/-- Whether a task that was popped may be filed again, early or for its next fire. -/
theorem storable_again {f g : Filed} (hf : f.Storable q) {now : Int}
    (how : now < f.nextRun ∧ g = f ∨ f.nextRun ≤ now ∧
      ∃ t, f.trigger.nextFire f.nextRun now = some t ∧ g = { f with nextRun := t }) :
    g.Storable q ∧ ∀ t, { g with nextRun := t } = { f with nextRun := t } := by
  rcases how with ⟨-, rfl⟩ | ⟨-, t, ht, rfl⟩
  · exact ⟨hf, fun _ => rfl⟩
  · have range := Trigger.nextFire_range ht
    exact ⟨hf.withNextRun range.1 range.2, fun _ => rfl⟩

/-- Every action of a look keeps the tickets with the records and with what the look has in hand. -/
theorem Sound.act {a : Action} {r : a.Answer} {next : a.Answer → Process (Option Filed)}
    {reading : Option Int} (h : Sound q stored ⟨s, some ⟨.act a next, reading⟩, ks⟩)
    (answers : s.Answers a r s') :
    Sound q stored ⟨s', some ⟨next r, Look.reads reading a r⟩, ks.map (·.after a r)⟩ := by
  obtain ⟨records, fits, hand, ⟨allowed, follows⟩, knows, holds⟩ := h
  dsimp only at records fits knows holds
  have fits' : ∀ k ∈ ks.map (·.after a r), k.Fits stored := by
    intro k' hk'
    obtain ⟨k, hk, rfl⟩ := List.mem_map.mp hk'
    exact (fits k hk).after a r
  cases hand with
  | free =>
    obtain rfl := watch_free allowed
    cases answers with
    | pop _ =>
      obtain ⟨records', promised, holds'⟩ := records.pop holds
      refine ⟨records', fits', _, follows _ promised, ?_, holds'⟩
      cases (s.pop q).1 <;> exact knows
    | quiet _ _ quiet => exact absurd quiet id
  | took f reading' =>
    obtain rfl : reading = reading' := knows
    cases reading with
    | none =>
      obtain rfl := watch_took allowed
      have same : ks.map (·.after .now r) = ks := List.map_id' ks
      cases answers with
      | quiet _ _ _ =>
        rw [same]
        exact ⟨records, fits, .took f (some r), follows r trivial, rfl, holds⟩
    | some now =>
      rcases watch_read allowed with ⟨key, rfl⟩ | ⟨g, rfl, how⟩
      · have same : ks.map (·.after (.unmark key) r) = ks := List.map_id' ks
        cases answers with
        | unmark _ =>
          rw [same]
          exact ⟨records.meanwhile rfl, fits, .took f (some now), follows _ trivial, rfl, holds⟩
        | quiet _ _ quiet => exact absurd quiet id
      · obtain ⟨before, k, behind, taken⟩ := holds
        obtain ⟨storable, same⟩ := storable_again taken.storable how
        cases answers with
        | refile _ _ room =>
          obtain ⟨t, s', pushed, late, records', taken'⟩ :=
            records.refile taken same storable room
          rw [pushed] at fits' ⊢
          exact ⟨records', fits', .back f now t, follows _ ⟨t, rfl, late⟩, rfl, before, _, behind,
            taken'⟩
        | quiet _ _ quiet => exact absurd quiet id
  | back f now t => exact absurd allowed not_watch_back

theorem Records.handOut (h : Records q stored s ks) (fire : Option Fire) :
    Records q stored s (ks.map (·.handOut fire)) := by
  obtain ⟨fs, keeps, perm⟩ := h
  have same : task? ∘ (·.handOut fire) = task? := funext fun k => task?_handOut k fire
  refine ⟨fs, keeps, ?_⟩
  rw [List.filterMap_map, same]
  exact perm

/-- When a look is over, the ticket that it had in hand rests with the others. -/
theorem sound_of_taken (records : Records q stored s ks) (fits : ∀ k ∈ ks, k.Fits stored) {f : Filed}
    {record : Option Int} {before behind : List Ticket} {k : Ticket}
    (taken : Taken q stored f record ks before k behind) (fire : Option Fire)
    (due : ∀ r ∈ fire, r.task = f ∧ f.nextRun ≤ r.reading)
    (rests : Rests { k with inHand := false, fires := fire.toList ++ k.fires }) :
    Sound q stored ⟨s, none, ks.map (·.handOut fire)⟩ := by
  have own : k.handOut fire = { k with inHand := false, fires := fire.toList ++ k.fires } :=
    if_pos taken.inHand
  have all := map_split (g := (·.handOut fire))
    (fun k' hk' => (taken.others k' hk').handOut_eq fire) k
  rw [own, ← taken.all] at all
  refine ⟨records.handOut fire, ?_, ?_⟩
  · dsimp only
    rw [all]
    refine forall_mem_split ?_ fun k' hk' => fits k' (taken.all ▸ mem_split hk')
    intro r hr
    rcases List.mem_append.mp hr with hr | hr
    · obtain ⟨rfl, inTime⟩ := due r (Option.mem_toList.mp hr)
      exact ⟨inTime, taken.same⟩
    · exact fits k (by simp [taken.all]) r hr
  · dsimp only
    rw [all]
    exact forall_mem_split rests taken.others

theorem Sound.ended {result : Option Filed} {reading : Option Int}
    (h : Sound q stored ⟨s, some ⟨.done result, reading⟩, ks⟩) :
    Sound q stored
      ⟨s, none, ks.map (·.handOut (result.bind fun f => reading.map (Fire.mk f)))⟩ := by
  obtain ⟨records, fits, hand, ends, knows, holds⟩ := h
  dsimp only at records fits knows holds
  have once {f : Filed} {k : Ticket} (same : f = stored { k.filed with nextRun := f.nextRun }) :
      k.isOnce = f.trigger.isOnce := by
    obtain ⟨fs, keeps, -⟩ := records
    rw [← keeps.stored_eq] at same
    rw [same, Shelf.isOnce_stored]
    rfl
  cases hand with
  | free =>
    obtain rfl : result = none := ends
    rw [Option.bind_none, map_handOut_eq holds]
    exact ⟨records, fits, holds⟩
  | took f reading' =>
    obtain ⟨rfl, fires, now, rfl, due⟩ := ends
    obtain rfl : reading = some now := knows
    obtain ⟨before, k, behind, taken⟩ := holds
    refine sound_of_taken records fits taken (some ⟨f, now⟩) ?_ ⟨rfl, ?_⟩
    · rintro r ⟨⟩
      exact ⟨rfl, due⟩
    · have single : k.isOnce = true := (once taken.same).trans fires
      dsimp only
      rw [taken.record]
      exact ⟨single, ⟨f, now⟩, by rw [taken.awaits.once single]; rfl⟩
  | back f now t =>
    obtain rfl : reading = some now := knows
    obtain ⟨before, k, behind, taken⟩ := holds
    cases result with
    | none =>
      obtain ⟨-, late⟩ := ends
      refine sound_of_taken records fits taken none
        (fun r hr => absurd hr (Option.not_mem_none r)) ⟨rfl, ?_⟩
      dsimp only
      rw [taken.record]
      have awaits := taken.awaits.mono late
      exact ⟨awaits.once, awaits.last⟩
    | some g =>
      obtain ⟨rfl, again, due, later⟩ := ends
      refine sound_of_taken records fits taken (some ⟨g, now⟩) ?_ ⟨rfl, ?_⟩
      · rintro r ⟨⟩
        exact ⟨rfl, due⟩
      · dsimp only
        rw [taken.record]
        refine ⟨fun single => ?_, ?_⟩
        · have single' : k.isOnce = true := single
          rw [once taken.same, again] at single'
          exact nomatch single'
        · rintro r ⟨⟩ free
          exact later free

/-! ### Whole runs -/

theorem Step.sound {d d' : Desk} (h : Step q d d') (hd : Sound q stored d) : Sound q stored d' := by
  cases h with
  | push range room => exact hd.push range room
  | look =>
    exact ⟨hd.records, hd.fits, .free, Dispatch.popDue_watched q, rfl, hd.look⟩
  | act h => exact hd.act h
  | ended => exact hd.ended
  | meanwhile same => exact ⟨hd.records.meanwhile same, hd.fits, hd.look⟩

theorem Reaches.sound {d d' : Desk} (h : Reaches q d d') (hd : Sound q stored d) :
    Sound q stored d' := by
  induction h with
  | refl => exact hd
  | tail _ step ih => exact step.sound ih

/-- What is true of the jobs at any moment: what was handed out was due and was the job; a job that
fires once is handed out at most once; and a look that hands out a task has read a time that is not
before the task's. While no look is under way, the queue has one record for each job that is still to
be run: for a job that fires once until it is handed out, and for a job that recurs always, at a time
after the last time that it was handed out. -/
structure Conserved (q : QueueName) (d : Desk) : Prop where
  due : ∀ k ∈ d.tickets, k.Fits (d.shared.shelves q).stored
  once : ∀ k ∈ d.tickets, k.isOnce = true → k.fires.length ≤ 1
  handedOut : ∀ f reading, d.look = some ⟨.done (some f), reading⟩ →
    ∃ now, reading = some now ∧ f.nextRun ≤ now ∧ d.tickets.countP (·.inHand) = 1
  records : d.look = none → ((d.tickets.filterMap task?).map (d.shared.shelves q).stored).Perm
    (d.shared.tasks q)
  pending : d.look = none → ∀ k ∈ d.tickets, k.isOnce = true → (k.record = none ↔ k.fires ≠ [])
  recurs : d.look = none → ∀ k ∈ d.tickets, k.isOnce = false →
    ∃ t, k.record = some t ∧ ∀ r ∈ k.fires.head?, r.Unsaturated → r.reading < t

theorem Sound.conserved {d : Desk} (h : Sound q stored d) : d.Conserved q := by
  obtain ⟨⟨fs, keeps, perm⟩, fits, look⟩ := h
  obtain rfl := keeps.stored_eq
  have tasks : d.shared.tasks q = fs := keeps.tasks_eq
  have rests (idle : d.look = none) : ∀ k ∈ d.tickets, k.Rests := by
    rw [idle] at look
    exact look
  refine ⟨fits, ?_, ?_, fun _ => tasks ▸ perm, ?_, ?_⟩
  · intro k hk single
    cases hl : d.look with
    | none => exact (rests hl k hk).fires_le single
    | some l =>
      rw [hl] at look
      obtain ⟨hand, -, -, holds⟩ := look
      exact holds.fires_le hk single
  · intro f reading hl
    rw [hl] at look
    obtain ⟨hand, ends, knows, holds⟩ := look
    cases hand with
    | free => exact nomatch ends
    | took g reading' =>
      obtain ⟨same, -, now, rfl, due⟩ := ends
      obtain rfl := Option.some.inj same
      obtain ⟨before, k, behind, taken⟩ := holds
      exact ⟨now, knows, due, taken.countP_inHand⟩
    | back g now t =>
      obtain ⟨rfl, -, due, -⟩ := ends
      obtain ⟨before, k, behind, taken⟩ := holds
      exact ⟨now, knows, due, taken.countP_inHand⟩
  · intro idle k hk single
    have record := (rests idle k hk).record
    split at record
    · next t ht =>
      rw [ht, record.once single]
      exact ⟨nofun, fun none => absurd rfl none⟩
    · next none =>
      obtain ⟨-, r, one⟩ := record
      rw [none, one]
      exact ⟨fun _ => nofun, fun _ => rfl⟩
  · intro idle k hk again
    have record := (rests idle k hk).record
    split at record
    · next t ht => exact ⟨t, ht, record.last⟩
    · exact absurd (again.symm.trans record.1) nofun

/-- From an empty queue on, no job is lost, duplicated or early. -/
theorem conserves_jobs {q : QueueName} {s : Shared} (empty : (s.shelves q).isEmpty) {d : Desk}
    (h : Reaches q ⟨s, none, []⟩ d) : d.Conserved q := by
  have start : Sound q (s.shelves q).stored ⟨s, none, []⟩ :=
    ⟨⟨[], empty.keeps, .refl _⟩, fun _ hk => absurd hk List.not_mem_nil,
      fun _ hk => absurd hk List.not_mem_nil⟩
  exact (h.sound start).conserved

/-- A step that runs every minute, first at time zero. -/
def whisking : Filed :=
  { Record.longDelayed with
    task := .step ⟨⟨1, "whisk", "eggs", "", [], [], [], [], "every.1.minutes", ""⟩,
      Record.longDelayed.task.job⟩
    trigger := .simple (.ofSeconds 60)
    nextRun := 0 }

theorem whisking_inRange : whisking.InRange where
  task := ⟨(by decide : (1 : Nat) ≤ Text.Numeral.maxU32), Record.longDelayed_inRange.task⟩
  options := Options.default_inRange
  early := by decide
  late := by decide

/-- An empty queue, with the step filed, and with the step taken out again. -/
def bare : Shared := ⟨.empty, fun _ => .memory .empty⟩

def set : Shared := (bare.push .recurring whisking).2

def whisked : Shared := (set.pop .recurring).2

/-- The step is handed out when the clock reads one nanosecond, and filed for the next minute. -/
theorem reaches_whisked : Reaches .recurring ⟨bare, none, []⟩
    ⟨(whisked.push .recurring { whisking with nextRun := 60000000000 }).2, none,
      [⟨whisking, some 60000000000, false, [⟨whisking, 1⟩]⟩]⟩ := by
  have pushed : Step .recurring ⟨bare, none, []⟩ ⟨set, none, [⟨whisking, some 0, false, []⟩]⟩ :=
    .push whisking_inRange fun _ => rfl
  have popped : Step .recurring
      ⟨set, some ⟨Dispatch.popDue .recurring, none⟩, [⟨whisking, some 0, false, []⟩]⟩
      ⟨whisked, some ⟨Dispatch.afterPop .recurring whisking, none⟩, [⟨whisking, none, true, []⟩]⟩ :=
    .act (.pop .recurring)
  have read : Step .recurring
      ⟨whisked, some ⟨Dispatch.afterPop .recurring whisking, none⟩, [⟨whisking, none, true, []⟩]⟩
      ⟨whisked, some ⟨(Dispatch.recur .recurring whisking 1).bind fun _ => .done (some whisking),
        some 1⟩, [⟨whisking, none, true, []⟩]⟩ :=
    .act (.quiet .now 1 trivial)
  have room : (whisked.shelves .recurring).HasRoom { whisking with nextRun := 60000000000 } := rfl
  have refiled : Step .recurring
      ⟨whisked, some ⟨(Dispatch.recur .recurring whisking 1).bind fun _ => .done (some whisking),
        some 1⟩, [⟨whisking, none, true, []⟩]⟩
      ⟨(whisked.push .recurring { whisking with nextRun := 60000000000 }).2,
        some ⟨.done (some whisking), some 1⟩, [⟨whisking, some 60000000000, true, []⟩]⟩ :=
    .act (.refile .recurring { whisking with nextRun := 60000000000 } room)
  exact ((((Relation.ReflTransGen.single pushed).tail .look).tail popped).tail read).tail refiled
    |>.tail .ended

theorem conserves_jobs_whisking : (bare.shelves .recurring).isEmpty ∧
    Conserved .recurring ⟨(whisked.push .recurring { whisking with nextRun := 60000000000 }).2, none,
      [⟨whisking, some 60000000000, false, [⟨whisking, 1⟩]⟩]⟩ :=
  have empty : (bare.shelves .recurring).isEmpty := rfl
  ⟨empty, conserves_jobs empty reaches_whisked⟩

end Desk

end Galley
