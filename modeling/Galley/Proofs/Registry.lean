import Galley.Proofs.Process.Frame
import Galley.Visit
/-!
# What the servers of apps were made with

The server of an app is made once, with the record that the app then has. What it was made with is
never changed: not by what is sent to its clients, not by clients that come and go, and not by
anything that goes on in the course of time. Main statement: whatever goes on, every app has the
server it had.
-/
namespace Galley

/-- What the server of an app is made with. -/
def App.origin (app : App) : Int × String × Cookbook := (app.id, app.uuid, app.cookbook)

namespace AppServer

variable {s s' : AppServer} {app : App}

def origin (s : AppServer) : Int × String × Cookbook := (s.appId, s.uuid, s.cookbook)

@[simp] theorem origin_ofApp : (ofApp app).origin = app.origin := rfl

theorem appId_eq (same : s'.origin = s.origin) : s'.appId = s.appId := congrArg Prod.fst same

/-- A server answers by what it was made with, whoever its clients are. -/
theorem respond_congr (same : s'.origin = s.origin) : s'.respond = s.respond := by
  obtain ⟨appId, uuid, cookbook, clients, nextId⟩ := s
  obtain ⟨appId', uuid', cookbook', clients', nextId'⟩ := s'
  obtain ⟨rfl, rest⟩ := Prod.mk.inj same
  obtain ⟨rfl, rfl⟩ := Prod.mk.inj rest
  rfl

theorem ofApp_eq_iff {app' : App} : ofApp app = ofApp app' ↔ app.origin = app'.origin := by
  simp [ofApp, App.origin]

end AppServer

namespace Registry

variable {r r' r'' : Registry} {s s' : AppServer} {app : Int}

/-- What the server of an app was made with, if the app has one. -/
def origin? (r : Registry) (app : Int) : Option (Int × String × Cookbook) :=
  (r.server? app).map AppServer.origin

/-- Whether every app has the server it had. -/
def Keeps (r r' : Registry) : Prop := r'.origin? = r.origin?

theorem Keeps.refl (r : Registry) : r.Keeps r := rfl

theorem Keeps.trans (h : r.Keeps r') (h' : r'.Keeps r'') : r.Keeps r'' := Eq.trans h' h

theorem server?_appId (found : r.server? app = some s) : s.appId = app := by
  simpa using List.find?_some found

theorem server?_setServer (r : Registry) (s : AppServer) (app : Int) :
    (r.setServer s).server? app =
      if app = s.appId then (r.server? app).map fun _ => s else r.server? app := by
  have own : ((fun old : AppServer => decide (old.appId = app)) ∘
      fun old => if old.appId = s.appId then s else old) = fun old => decide (old.appId = app) := by
    funext old
    simp only [Function.comp]
    split
    · next same => rw [same]
    · rfl
  unfold server? setServer
  rw [List.find?_map, own]
  cases found : r.servers.find? (fun old => decide (old.appId = app)) with
  | none => simp
  | some old =>
    have here : old.appId = app := by simpa using List.find?_some found
    simp only [Option.map_some, here]
    split <;> rfl

theorem keeps_setServer (found : r.server? app = some s) (same : s'.origin = s.origin) :
    r.Keeps (r.setServer s') := by
  funext i
  have here : s'.appId = app := (AppServer.appId_eq same).trans (server?_appId found)
  rw [origin?, server?_setServer, here]
  split
  · next own =>
    subst own
    simp [origin?, found, same]
  · rfl

theorem keeps_settleServers (r : Registry) : r.Keeps r.settleServers := by
  funext app
  have own : ((fun s : AppServer => decide (s.appId = app)) ∘ AppServer.settle) =
      fun s => decide (s.appId = app) := rfl
  unfold origin? server? settleServers
  rw [List.find?_map, own, Option.map_map]
  rfl

theorem keeps_deliver (r : Registry) (d : Delivery) : r.Keeps (r.deliver d) := by
  cases d with
  | user id text => exact .refl r
  | app id text =>
    rw [deliver, sendToApp]
    cases found : r.server? id with
    | none => exact .refl r
    | some s => exact keeps_setServer found rfl

/-- What each step keeps is kept by all of them. -/
theorem keeps_foldl {α β : Type} (registry : β → Registry) (step : β → α → β)
    (keeps : ∀ b a, (registry b).Keeps (registry (step b a))) (as : List α) (b : β) :
    (registry b).Keeps (registry (as.foldl step b)) := by
  induction as generalizing b with
  | nil => exact .refl _
  | cons a as ih => exact (keeps b a).trans (ih _)

/-- An app that has no server gets one that is made with the record. -/
theorem serverFor_spec (r : Registry) (app : App) :
    (r.serverFor app).2.server? app.id = some (r.serverFor app).1 ∧
      (r.serverFor app).1.origin = (r.origin? app.id).getD app.origin ∧
      ∀ i, (r.serverFor app).2.origin? i = (r.origin? i).or
        (if app.id = i then some app.origin else none) := by
  unfold serverFor
  cases found : r.server? app.id with
  | some s =>
    refine ⟨found, by simp [origin?, found], fun i => ?_⟩
    by_cases own : app.id = i
    · subst own
      simp [origin?, found]
    · simp [own]
  | none =>
    have added (i : Int) : ({ r with servers := r.servers ++ [.ofApp app] } : Registry).server? i =
        (r.server? i).or (if app.id = i then some (.ofApp app) else none) := by
      simp [server?, List.find?_append, List.find?_singleton, AppServer.ofApp]
    refine ⟨by simp [added, found], by simp [origin?, found], fun i => ?_⟩
    rw [origin?, added, origin?]
    by_cases own : app.id = i <;> cases r.server? i <;> simp [own]

end Registry

/-! ### Processes -/

namespace World

open Registry

variable {w w' : World}

theorem keeps_answer? {cancelled : Bool} {a : Action} {r : a.Answer}
    (answered : w.answer? cancelled a = some (r, w')) : w.registry.Keeps w'.registry := by
  obtain ⟨ds, sent⟩ := (frame_answer? answered).registry
  rw [sent]
  exact keeps_foldl id Registry.deliver keeps_deliver ds w.registry

theorem keeps_advance {α : Type} (cancelled : Bool) (p : Process α) (w : World) :
    w.registry.Keeps (w.advance cancelled p).2.registry := by
  induction p generalizing w with
  | done a => exact .refl _
  | act a next ih =>
    unfold advance
    split
    · exact .refl _
    · next r w' answered => exact (keeps_answer? answered).trans (ih r w')

end World

/-! ### The course of time -/

namespace Timeline

open Registry

variable {t : Timeline}

theorem keeps_schedule (queue : QueueName) (fuel : Nat) (looked : Bool) (t : Timeline) :
    t.world.registry.Keeps (schedule queue fuel looked t).world.registry := by
  induction fuel generalizing looked t with
  | zero => exact .refl _
  | succ fuel ih =>
    unfold schedule
    split
    · exact .refl _
    · split
      · split
        · exact ih false { t with world := t.world.setWoken queue false }
        · exact .refl _
      · split
        · exact .refl _
        · have handed := t.world.keeps_advance false (Dispatch.popDue queue)
          dsimp only
          split
          · exact handed.trans (ih false { t with world := _, workers := _ })
          · exact handed.trans (ih false { t with world := _ })

theorem keeps_runScheduler (t : Timeline) (queue : QueueName) :
    t.world.registry.Keeps (t.runScheduler queue).world.registry :=
  keeps_schedule _ _ _ t

theorem keeps_runWorkers (t : Timeline) :
    t.world.registry.Keeps t.runWorkers.2.world.registry := by
  refine keeps_foldl (fun b : Bool × List Worker × World => b.2.2.registry) _ ?_ t.workers
    (false, [], t.world)
  rintro ⟨any, kept, w⟩ worker
  dsimp only
  split
  · have goesOn := w.keeps_advance t.aborting worker.process
    split
    · next advanced =>
      rw [advanced] at goesOn
      exact goesOn
    · next advanced =>
      rw [advanced] at goesOn
      exact goesOn
  · exact .refl _

theorem keeps_sendAnswer (w : World) (a : Answering) (response : Rpc.Response) :
    w.registry.Keeps (sendAnswer w a response).registry := by
  unfold sendAnswer
  split
  · exact .refl _
  · next s found => exact keeps_setServer found rfl

theorem keeps_runAnswering (t : Timeline) :
    t.world.registry.Keeps t.runAnswering.2.world.registry := by
  refine keeps_foldl (fun b : Bool × List Answering × World => b.2.2.registry) _ ?_ t.answering
    (false, [], t.world)
  rintro ⟨any, kept, w⟩ a
  have goesOn := w.keeps_advance false a.process
  dsimp only
  split
  · next response after advanced =>
    rw [advanced] at goesOn
    exact goesOn.trans (keeps_sendAnswer after a response)
  · next process after _ advanced =>
    rw [advanced] at goesOn
    exact goesOn

theorem keeps_round (t : Timeline) : t.world.registry.Keeps t.round.2.world.registry := by
  have settled : t.world.registry.Keeps (t.onWorld fun w =>
      { w with registry := w.registry.settleServers }).world.registry :=
    keeps_settleServers t.world.registry
  have scheduled (queues : List QueueName) (t : Timeline) :
      t.world.registry.Keeps (queues.foldl runScheduler t).world.registry :=
    keeps_foldl (fun t : Timeline => t.world.registry) runScheduler keeps_runScheduler queues t
  have hubs (t : Timeline) (hubs : Hubs) : t.world.registry.Keeps (t.setHubs hubs).world.registry :=
    .refl _
  exact (((settled.trans (scheduled _ _)).trans (keeps_runWorkers _)).trans
    (keeps_runAnswering _)).trans (hubs _ _)

theorem keeps_settleFor (rounds : Nat) (t : Timeline) :
    t.world.registry.Keeps (settleFor rounds t).world.registry := by
  induction rounds generalizing t with
  | zero => exact .refl _
  | succ rounds ih =>
    have once := t.keeps_round
    unfold settleFor
    split
    · next after went =>
      rw [went] at once
      exact once.trans (ih after)
    · next after went =>
      rw [went] at once
      exact once

theorem keeps_settle (t : Timeline) : t.world.registry.Keeps t.settle.world.registry :=
  keeps_settleFor _ t

theorem keeps_passFor (fuel : Nat) (t : Timeline) (target : Nat) :
    t.world.registry.Keeps (passFor fuel t target).world.registry := by
  induction fuel generalizing t with
  | zero => exact .refl _
  | succ fuel ih =>
    unfold passFor
    dsimp only
    split
    · exact t.keeps_settle
    · split
      · exact t.keeps_settle.trans (ih (t.settle.setInstant _))
      · exact t.keeps_settle

/-! ### Operators and visitors -/

theorem keeps_answered {cancelled : Bool} {a : Action} {r : a.Answer} {world : World}
    (answered : t.settle.world.answer? cancelled a = some (r, world)) :
    t.world.registry.Keeps world.registry :=
  t.keeps_settle.trans (World.keeps_answer? answered)

theorem keeps_answerFor (fuel : Nat) (cancelAt : Option Nat) (t : Timeline) (a : Action) :
    t.world.registry.Keeps (t.answerFor fuel cancelAt a).2.world.registry := by
  fun_induction answerFor fuel cancelAt t a with
  | case1 _ t _ _ _ _ _ _ _ _ answered => exact keeps_answered answered
  | case2 _ t => exact t.keeps_settle
  | case3 _ t _ _ _ answered => exact World.keeps_answer? answered
  | case4 t => exact .refl _
  | case5 t _ _ _ _ _ _ answered => exact keeps_answered answered
  | case6 t => exact t.keeps_settle
  | case7 t _ _ _ _ _ _ _ _ ih => exact t.keeps_settle.trans ih

theorem keeps_complete {α : Type} (cancelAt : Option Nat) (p : Process α) (t : Timeline) :
    t.world.registry.Keeps (complete cancelAt p t).2.world.registry := by
  induction p generalizing t with
  | done a => exact .refl _
  | act a next ih =>
    have answered := t.keeps_answerFor 1000000 cancelAt a
    unfold complete
    split
    · next after found =>
      rw [found] at answered
      exact answered
    · next r after found =>
      rw [found] at answered
      exact answered.trans (ih r after)

theorem keeps_leaveStream (t : Timeline) (app : Int) (client : Nat) :
    t.world.registry.Keeps (t.leaveStream app client).world.registry := by
  unfold leaveStream
  split
  · exact .refl _
  · next s found => exact keeps_setServer found rfl

theorem keeps_takeMessage (t : Timeline) (app : Int) (client : Nat) :
    t.world.registry.Keeps (t.takeMessage app client).2.world.registry := by
  unfold takeMessage
  split
  · exact .refl _
  · next s found => exact keeps_setServer found rfl

theorem keeps_taken {t' : Timeline} {app : Int} {client : Nat} {text : Option String}
    (taken : t.takeMessage app client = (text, t')) : t.world.registry.Keeps t'.world.registry := by
  have kept := t.keeps_takeMessage app client
  rwa [taken] at kept

theorem keeps_awaitMessageFor (fuel : Nat) (t : Timeline) (app : Int) (client deadline : Nat) :
    t.world.registry.Keeps (t.awaitMessageFor fuel app client deadline).2.world.registry := by
  fun_induction awaitMessageFor fuel t app client deadline with
  | case1 _ t _ _ taken => exact keeps_taken taken
  | case2 t _ none => exact keeps_taken none
  | case3 t before none _ after _ t' taken =>
    exact ((keeps_taken none).trans before.keeps_settle).trans (keeps_taken taken)
  | case4 t before none _ after t' none' =>
    exact ((keeps_taken none).trans before.keeps_settle).trans (keeps_taken none')
  | case5 t before none _ after t' none' _ _ ih =>
    exact (((keeps_taken none).trans before.keeps_settle).trans (keeps_taken none')).trans ih

theorem keeps_awaitEvent (t : Timeline) (app : Int) (client lastWritten millis : Nat) :
    t.world.registry.Keeps (t.awaitEvent app client lastWritten millis).2.world.registry := by
  have either : t.world.registry.Keeps (if lastWritten + Http.longestSilence ≤ t.instant then
      t.takeMessage app client else t.awaitMessageFor (millis + 1) app client
        (min (lastWritten + Http.longestSilence) (t.instant + millis))).2.world.registry := by
    split
    · exact t.keeps_takeMessage app client
    · exact t.keeps_awaitMessageFor _ app client _
  unfold awaitEvent
  dsimp only
  split <;> exact either

theorem keeps_lookUp (t : Timeline) (uuid : String) (header : Option (List UInt8)) :
    t.world.registry.Keeps (t.lookUp uuid header).2.world.registry := by
  unfold lookUp
  split
  · exact .refl _
  · exact t.keeps_settle

end Timeline

end Galley
