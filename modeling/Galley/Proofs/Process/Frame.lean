import Galley.Proofs.Process.Discipline
import Galley.World
/-!
# What actions leave as it is

Main statement: only the messages that are sent change the registry, only calls to the engine change
the engine, and a quiet action changes neither marks nor queues.
-/
namespace Galley.World

/-- What an action leaves as it is. -/
structure Frame (w : World) (a : Action) (w' : World) : Prop where
  registry : ∃ ds : List Delivery, w'.registry = ds.foldl Registry.deliver w.registry
  engine : (∀ call, a ≠ .container call) → w'.engine = w.engine
  shared : a.IsQuiet → w'.running = w.running ∧ w'.stores = w.stores

variable {w w' : World}

theorem Frame.of_eq {a : Action} (registry : w'.registry = w.registry)
    (engine : (∀ call, a ≠ .container call) → w'.engine = w.engine)
    (shared : a.IsQuiet → w'.running = w.running ∧ w'.stores = w.stores) : w.Frame a w' :=
  ⟨⟨[], registry⟩, engine, shared⟩

/-- What is sent goes through the registry, message by message. -/
theorem foldl_deliver (ds : List Delivery) (w : World) : ds.foldl deliver w =
    { w with sent := w.sent ++ ds, registry := ds.foldl Registry.deliver w.registry } := by
  induction ds generalizing w with
  | nil => simp
  | cons d ds ih =>
    rw [List.foldl_cons, ih]
    simp [deliver]

theorem frame_pop (w : World) (q : QueueName) : w.Frame (.pop q) (w.pop q).2 := by
  unfold pop
  dsimp only
  split <;> exact .of_eq rfl (fun _ => rfl) (nomatch ·)

theorem frame_pushAndWake (w : World) (q : QueueName) (f : Filed) :
    w.Frame (.push q f) (w.pushAndWake q f).2 := by
  have pushed : w.Frame (.push q f) (w.push q f).2 := .of_eq rfl (fun _ => rfl) (nomatch ·)
  unfold pushAndWake
  split
  · next same =>
    rw [same] at pushed
    exact pushed
  · next same =>
    rw [same] at pushed
    exact ⟨pushed.registry, pushed.engine, nofun⟩

theorem frame_answer? {cancelled : Bool} {a : Action} {r : a.Answer}
    (answered : w.answer? cancelled a = some (r, w')) : w.Frame a w' := by
  cases a with
  | pop q =>
    rw [← show (w.pop q).2 = w' from congrArg Prod.snd (Option.some.inj answered)]
    exact w.frame_pop q
  | push q f =>
    rw [← show (w.pushAndWake q f).2 = w' from congrArg Prod.snd (Option.some.inj answered)]
    exact w.frame_pushAndWake q f
  | tryAcquire _ | unmark _ | refile _ _ | evict _ _ =>
    obtain rfl := (Prod.mk.inj (Option.some.inj answered)).2
    exact .of_eq rfl (fun _ => rfl) (nomatch ·)
  | container call =>
    obtain rfl := (Prod.mk.inj (Option.some.inj answered)).2
    exact .of_eq rfl (fun other => absurd rfl (other call)) fun _ => ⟨rfl, rfl⟩
  | line o route text =>
    obtain rfl := (Prod.mk.inj (Option.some.inj answered)).2
    rw [foldl_deliver]
    exact ⟨⟨_, rfl⟩, fun _ => rfl, fun _ => ⟨rfl, rfl⟩⟩
  | send d =>
    obtain rfl := (Prod.mk.inj (Option.some.inj answered)).2
    exact ⟨⟨[d], rfl⟩, fun _ => rfl, fun _ => ⟨rfl, rfl⟩⟩
  | awaitTime instant =>
    rw [answer?] at answered
    split at answered
    · obtain rfl := (Prod.mk.inj (Option.some.inj answered)).2
      exact .of_eq rfl (fun _ => rfl) fun _ => ⟨rfl, rfl⟩
    · exact nomatch answered
  | awaitEnd watch deadline =>
    obtain ⟨ending, -, same⟩ := Option.map_eq_some_iff.mp answered
    obtain rfl := (Prod.mk.inj same).2
    exact .of_eq rfl (fun _ => rfl) fun _ => ⟨rfl, rfl⟩
  | now | timer _ | makeDirs _ | openCache _ | openLog _ | flush _ | readApps _ | awaitOutput _ _
  | awaitDrain _ =>
    obtain rfl := (Prod.mk.inj (Option.some.inj answered)).2
    exact .of_eq rfl (fun _ => rfl) fun _ => ⟨rfl, rfl⟩

end Galley.World
