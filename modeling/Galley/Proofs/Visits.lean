import Galley.Proofs.Cookbook.Codec
import Galley.Proofs.Files.Overwriting
import Galley.Proofs.Message.RoundTrip
import Galley.Proofs.Registry
/-!
# Who answers a request

The directory of apps is read anew for every visitor, but the server of an app is made with the
record that the first visitor of the app was let in by. Main statement: whatever has come about
before, an accepted request is answered by the server that the first of these records makes.
-/
namespace Galley

/-- What comes about while a daemon runs. -/
inductive Occurrence
  /-- Files are changed, the directory of apps among them. -/
  | edit (files : Files)
  | subscribe (uuid : String) (header : Option (List UInt8))
  | post (uuid : String) (header : Option (List UInt8)) (body : List UInt8)
  | leave (app : Int) (client : Nat)
  /-- A client waits for the next event of its stream. -/
  | listen (app : Int) (client lastWritten millis : Nat)
  /-- Time passes, and the clock is moved. -/
  | pass (clock : Clock) (millis : Nat)
  | start
  /-- An operator does something. -/
  | operate (cancelAt : Option Nat) (process : Process Unit)

/-- A question for the recipes is answered at once, whatever the directory of apps is. -/
theorem World.advance_respond_recipes {w : World} {s : AppServer} {locker : Locker}
    {appsPath : String} {user : ApiUser} {r : Rpc.Request} (asked : r.method = "lemc.recipes") :
    w.advance false (s.respond locker appsPath user r) =
      (.done (AppServer.good r.id s.recipes), w) := by
  obtain ⟨_, _, _, _⟩ := r
  obtain rfl := asked
  rfl

namespace Timeline

open Registry Http Json

variable {t t' : Timeline} {uuid : String} {header : Option (List UInt8)} {body : List UInt8}

/-! ### Occurrences -/

/-- The record that lets a visitor in, if one does. -/
def record? (t : Timeline) (uuid : String) (header : Option (List UInt8)) : Option App :=
  (t.lookUp uuid header).1.toOption.map (·.1)

def apply (t : Timeline) : Occurrence → Timeline
  | .edit files => t.onWorld fun w => { w with files }
  | .subscribe uuid header => (t.visitStream uuid header).2
  | .post uuid header body => (t.visitRequest uuid header body).2
  | .leave app client => t.leaveStream app client
  | .listen app client lastWritten millis => (t.awaitEvent app client lastWritten millis).2
  | .pass clock millis => (t.onWorld fun w => { w with clock }).pass millis
  | .start => t.start?.getD t
  | .operate cancelAt process => (complete cancelAt process t).2

/-- The record that an occurrence let a visitor in by. -/
def admitted (t : Timeline) : Occurrence → Option App
  | .subscribe uuid header => t.record? uuid header
  | .post uuid header _ => t.record? uuid header
  | _ => none

def after (t : Timeline) : List Occurrence → Timeline
  | [] => t
  | o :: os => (t.apply o).after os

/-- The records that visitors were let in by, in their order. -/
def records (t : Timeline) : List Occurrence → List App
  | [] => []
  | o :: os => (t.admitted o).toList ++ (t.apply o).records os

/-! ### Servers and records -/

/-- Whether each app has the server that the first of its records makes. -/
def MadeFrom (t : Timeline) (records : List App) : Prop :=
  ∀ app, t.world.registry.origin? app = (records.find? (·.id = app)).map App.origin

theorem MadeFrom.keeps {records : List App} (made : t.MadeFrom records)
    (keeps : t.world.registry.Keeps t'.world.registry) : t'.MadeFrom records := fun app =>
  (congrFun keeps app).trans (made app)

/-- A record that lets a visitor in makes the server of its app, unless there is one. -/
theorem MadeFrom.serverFor {records : List App} (made : t.MadeFrom records) (app : App) :
    (t.setRegistry (t.world.registry.serverFor app).2).MadeFrom (records ++ [app]) := by
  intro i
  obtain ⟨-, -, adds⟩ := t.world.registry.serverFor_spec app
  rw [List.find?_append, List.find?_singleton]
  refine (adds i).trans ?_
  rw [made]
  by_cases own : app.id = i <;> cases records.find? (·.id = i) <;> simp [own]

theorem MadeFrom.visitStream {records : List App} (made : t.MadeFrom records) :
    (t.visitStream uuid header).2.MadeFrom (records ++ (t.record? uuid header).toList) := by
  have looked := made.keeps (t.keeps_lookUp uuid header)
  unfold Timeline.visitStream record?
  split
  · next r after found =>
    rw [found] at looked ⊢
    simpa [Except.toOption] using looked
  · next app user key after found =>
    rw [found] at looked ⊢
    obtain ⟨there, -⟩ := after.world.registry.serverFor_spec app
    exact (looked.serverFor app).keeps (keeps_setServer there rfl)

theorem MadeFrom.visitRequest {records : List App} (made : t.MadeFrom records) :
    (t.visitRequest uuid header body).2.MadeFrom (records ++ (t.record? uuid header).toList) := by
  have looked := made.keeps (t.keeps_lookUp uuid header)
  unfold Timeline.visitRequest record?
  split
  · next r after found =>
    rw [found] at looked ⊢
    simpa [Except.toOption] using looked
  · next app user key after found =>
    rw [found] at looked ⊢
    have served := looked.serverFor app
    dsimp only
    split
    · exact served
    · split <;> exact served

/-- The step lemma: an occurrence makes a server at most with the record that it lets someone in
by. -/
theorem MadeFrom.apply {records : List App} (made : t.MadeFrom records) (o : Occurrence) :
    (t.apply o).MadeFrom (records ++ (t.admitted o).toList) := by
  have unvisited (keeps : t.world.registry.Keeps (t.apply o).world.registry)
      (none : t.admitted o = none) :
      (t.apply o).MadeFrom (records ++ (t.admitted o).toList) := by
    rw [none, Option.toList_none, List.append_nil]
    exact made.keeps keeps
  cases o with
  | edit files => exact unvisited (.refl _) rfl
  | subscribe uuid header => exact made.visitStream
  | post uuid header body => exact made.visitRequest
  | leave app client => exact unvisited (t.keeps_leaveStream app client) rfl
  | listen app client lastWritten millis =>
    exact unvisited (t.keeps_awaitEvent app client lastWritten millis) rfl
  | pass clock millis => exact unvisited (keeps_passFor _ _ _) rfl
  | start =>
    have started : t.world.registry.Keeps (t.start?.getD t).world.registry := by
      unfold start?
      split
      · exact .refl _
      · split <;> exact .refl _
    exact unvisited started rfl
  | operate cancelAt process => exact unvisited (keeps_complete cancelAt process t) rfl

/-- The run lemma. -/
theorem MadeFrom.after {records : List App} (made : t.MadeFrom records) (os : List Occurrence) :
    (t.after os).MadeFrom (records ++ t.records os) := by
  induction os generalizing t records with
  | nil =>
    rw [Timeline.records, List.append_nil]
    exact made
  | cons o os ih =>
    rw [Timeline.records, ← List.append_assoc]
    exact ih (made.apply o)

/-! ### A directory that is edited -/

/-- An app with one recipe. -/
def kitchen (dish : String) : App :=
  ⟨1, "u-1", "kitchen", "", 10, true, ⟨⟨[], []⟩, [⟨1, "", [⟨dish, "", [], []⟩]⟩], []⟩⟩

/-- The directory with the kitchen and a key to it. -/
def directory (dish : String) : Json :=
  .object [("apps", .array [(kitchen dish).encode]),
    ("api_keys", .array [.object [("key", .string "k"), ("user_id", .int 5),
      ("account_id", .int 10)]])]

def serving (dish : String) : Files :=
  ⟨.directory [("apps.json", .file (directory dish).compact.utf8)], ""⟩

theorem plain_directory (dish : String) : (directory dish).Plain := by
  have one : (Json.int 1).Plain := ⟨by decide, by decide⟩
  have ten : (Json.int 10).Plain := ⟨by decide, by decide⟩
  have range : (kitchen dish).cookbook.InRange := by
    refine ⟨?_, nofun, .nil⟩
    simp [kitchen, Page.InRange, Recipe.InRange, Text.Numeral.maxU32]
  have app : (kitchen dish).encode.Plain :=
    ⟨one, trivial, trivial, trivial, ten, trivial, Cookbook.plain_encode range, trivial⟩
  have key : PlainMembers [("key", .string "k"), ("user_id", .int 5), ("account_id", .int 10)] :=
    ⟨trivial, ⟨by decide, by decide⟩, ten, trivial⟩
  exact ⟨⟨app, trivial⟩, ⟨key, trivial⟩, trivial⟩

theorem literalKeys_directory (dish : String) : (directory dish).LiteralKeys := by
  have app : (kitchen dish).encode.LiteralKeys := ⟨by decide, trivial, by decide, trivial,
    by decide, trivial, by decide, trivial, by decide, trivial, by decide, trivial, by decide,
    Cookbook.literalKeys_encode _, trivial⟩
  have key : LiteralMembers [("key", .string "k"), ("user_id", .int 5), ("account_id", .int 10)] :=
    ⟨by decide, trivial, by decide, trivial, by decide, trivial, trivial⟩
  exact ⟨by decide, ⟨app, trivial⟩, by decide, ⟨key, trivial⟩, trivial⟩

theorem readText_serving (dish : String) :
    (serving dish).readText "/apps.json" = .ok (some (directory dish).compact) := by
  have valid : Files.checkPath "/apps.json" = .ok () := rfl
  have here : (serving dish).here = "" := rfl
  have led : (serving dish).walk [] (Path.parts (Path.join "" "/apps.json")) =
      .ok ["apps.json"] := rfl
  have found : (serving dish).root.get ["apps.json"] =
      .ok (.file (directory dish).compact.utf8) := rfl
  have whole : Path.endsInside "/apps.json" = false := rfl
  have place : (serving dish).place "/apps.json" = .ok ["apps.json"] := by
    unfold Files.place
    simp only [valid, here, led, bind, Except.bind, pure, Except.pure, found, whole,
      Bool.false_eq_true, if_false]
  rw [Files.readText, Files.read_eq_ok.mpr ⟨_, place, found⟩, ← String.ofUtf8?_utf8]
  rfl

theorem read_serving (dish : String) :
    Apps.read (serving dish) "/apps.json" = .ok ⟨[kitchen dish], [⟨"k", ⟨5, 10⟩⟩]⟩ := by
  have decoded : Apps.decode (directory dish) = .ok ⟨[kitchen dish], [⟨"k", ⟨5, 10⟩⟩]⟩ := rfl
  rw [Apps.read, readText_serving]
  simp only [Json.ofNumberedText?_compact (plain_directory dish) (literalKeys_directory dish),
    Option.map_some, decoded]

/-- A daemon that has nothing to do. -/
def resting (files : Files) (servers : List AppServer) : Timeline :=
  .idle (.fresh .start (fun _ => .memory .empty) files ⟨.standard, servers⟩) ⟨"/locker", none⟩
    "/apps.json" .standard

theorem settle_resting {files : Files} {servers : List AppServer}
    (settled : servers.map AppServer.settle = servers) :
    (resting files servers).settle = resting files servers := by
  have still : (resting files servers).round =
      (false, resting files (servers.map AppServer.settle)) := rfl
  change settleFor (99999 + 1) _ = _
  rw [settleFor, still, settled]

/-- A visitor with the key is let in by the record of the day. -/
theorem lookUp_resting {dish : String} {servers : List AppServer}
    (settled : servers.map AppServer.settle = servers) :
    (resting (serving dish) servers).lookUp "u-1" (some "k".utf8) =
      (.ok (kitchen dish, ⟨5, 10⟩, "k"), resting (serving dish) servers) := by
  have key : key? (some "k".utf8) = some "k" := by decide
  have read : Apps.read (resting (serving dish) servers).world.files
      (resting (serving dish) servers).appsPath = _ := read_serving dish
  rw [lookUp, key]
  simp only [settle_resting settled, read]
  rfl

/-- The server of the kitchen with the soup, to which somebody has subscribed. -/
def soupServer : AppServer :=
  (AppServer.ofApp (kitchen "soup")).subscribe ⟨5, 10⟩ "k" |>.2

theorem visitStream_resting {files : Files}
    (found : (resting files []).lookUp "u-1" (some "k".utf8) =
      (.ok (kitchen "soup", ⟨5, 10⟩, "k"), resting files [])) :
    ((resting files []).visitStream "u-1" (some "k".utf8)).2 = resting files [soupServer] := by
  -- The files stay a variable, so that no text of a directory is evaluated here.
  rw [visitStream, found]
  rfl

/-- A daemon that has just been started, in a kitchen with a soup. -/
def morning : Timeline :=
  resting (serving "soup") []

/-- Somebody subscribes, and then the soup is edited out. -/
def menuChange : List Occurrence :=
  [.subscribe "u-1" (some "k".utf8), .edit (serving "stew")]

/-- The server keeps the soup, though the directory has the stew. -/
theorem after_menuChange : morning.after menuChange = resting (serving "stew") [soupServer] := by
  rw [morning, menuChange, after, apply, visitStream_resting (lookUp_resting rfl), after, apply,
    after]
  rfl

def askRecipes : Rpc.Request := ⟨Rpc.version, some (.int 1), "lemc.recipes", none⟩

theorem ofBytes?_askRecipes : (ofBytes? askRecipes.encode.compact.utf8).map Rpc.Request.decode =
    some (.ok askRecipes) := by
  have plain : askRecipes.encode.Plain := ⟨trivial, ⟨by decide, by decide⟩, trivial, trivial⟩
  rw [ofBytes?_utf8_compact plain]
  rfl

/-- The answer of the kitchen that has a dish. -/
def menu (dish : String) : Rpc.Response :=
  .ok (some (.int 1)) (.object [("recipes",
    .array [.object [("description", .string ""), ("name", .string dish)]])])

theorem visitRequest_resting {files : Files} (found :
    (resting files [soupServer]).lookUp "u-1" (some "k".utf8) =
      (.ok (kitchen "stew", ⟨5, 10⟩, "k"), resting files [soupServer])) :
    (resting files [soupServer]).visitRequest "u-1" (some "k".utf8)
      askRecipes.encode.compact.utf8 = (.accepted, { resting files [soupServer] with
        answering := [⟨1, 1, soupServer.respond ⟨"/locker", none⟩ "/apps.json" ⟨5, 10⟩
          askRecipes⟩] }) := by
  simp only [visitRequest, found, ofBytes?_askRecipes]
  rfl

theorem visitRequest_stew : (morning.after menuChange).visitRequest "u-1"
    (some "k".utf8) askRecipes.encode.compact.utf8 =
    (.accepted, { resting (serving "stew") [soupServer] with
      answering := [⟨1, 1, soupServer.respond ⟨"/locker", none⟩ "/apps.json" ⟨5, 10⟩
        askRecipes⟩] }) := by
  rw [after_menuChange]
  exact visitRequest_resting (lookUp_resting rfl)

/-! ### Requests -/

theorem lookUp_ne_accepted {r : Http.Response} (refused : (t.lookUp uuid header).1 = .error r) :
    r ≠ .accepted := by
  unfold lookUp at refused
  split at refused
  · obtain rfl := Except.error.inj refused
    decide
  · next key _ =>
    cases allowed : authorize (Apps.read t.settle.world.files t.settle.appsPath) uuid key with
    | ok visitor => simp [allowed, Except.map] at refused
    | error r' =>
      obtain rfl : r' = r := by simpa [allowed, Except.map] using refused
      unfold authorize at allowed
      split at allowed
      · obtain rfl := Except.error.inj allowed
        decide
      · split at allowed
        · cases allowed
        · obtain rfl := Except.error.inj allowed
          decide

/-- A request that is accepted is answered by the server of the app that the visitor was let in
to. -/
theorem visitRequest_accepted (accepted : t.visitRequest uuid header body = (.accepted, t')) :
    ∃ (app : App) (user : ApiUser) (key : String) (request : Rpc.Request) (client : Client)
        (before : Timeline),
      t.lookUp uuid header = (.ok (app, user, key), before) ∧
      (Json.ofBytes? body).map Rpc.Request.decode = some (.ok request) ∧
      t'.answering = before.answering ++ [⟨app.id, client.id,
        (before.world.registry.serverFor app).1.respond t'.locker t'.appsPath client.user request⟩] := by
  unfold visitRequest at accepted
  split at accepted
  · next r after found =>
    have refused : (t.lookUp uuid header).1 = .error r := by rw [found]
    exact absurd (Prod.mk.inj accepted).1 (lookUp_ne_accepted refused)
  · next app user key before found =>
    dsimp only at accepted
    split at accepted
    · exact absurd (Prod.mk.inj accepted).1 (by decide)
    · next client isClient =>
      split at accepted
      · next request decoded =>
        obtain ⟨-, rfl⟩ := Prod.mk.inj accepted
        exact ⟨app, user, key, request, client, before, found, decoded, rfl⟩
      · exact absurd (Prod.mk.inj accepted).1 (by decide)

/-- An accepted request is answered by the server that is made with the first record of the app by
which a visitor was let in. That server is made with the record that let in the request just when
the two records have the same uuid and cookbook. -/
theorem answered_by_first_record (started : t.world.registry.servers = [])
    (os : List Occurrence) (accepted : (t.after os).visitRequest uuid header body = (.accepted, t')) :
    ∃ (app first : App) (user : ApiUser) (key : String) (request : Rpc.Request) (client : Client)
        (before : Timeline),
      (t.after os).lookUp uuid header = (.ok (app, user, key), before) ∧
      (t.records os ++ [app]).find? (·.id = app.id) = some first ∧
      (Json.ofBytes? body).map Rpc.Request.decode = some (.ok request) ∧
      t'.answering = before.answering ++ [⟨app.id, client.id,
        (AppServer.ofApp first).respond t'.locker t'.appsPath client.user request⟩] ∧
      (AppServer.ofApp first = AppServer.ofApp app ↔
        first.uuid = app.uuid ∧ first.cookbook = app.cookbook) := by
  obtain ⟨app, user, key, request, client, before, found, decoded, answering⟩ :=
    visitRequest_accepted accepted
  have empty : t.MadeFrom [] := fun i => by simp [origin?, server?, started]
  have looked : before.MadeFrom (t.records os) := by
    have kept := (t.after os).keeps_lookUp uuid header
    rw [found] at kept
    exact (empty.after os).keeps kept
  obtain ⟨first, isFirst⟩ : ∃ first, (t.records os ++ [app]).find? (·.id = app.id) = some first := by
    rw [← Option.isSome_iff_exists, List.find?_isSome]
    exact ⟨app, by simp⟩
  have same : (before.world.registry.serverFor app).1.origin = first.origin := by
    obtain ⟨-, made, -⟩ := before.world.registry.serverFor_spec app
    rw [List.find?_append] at isFirst
    rw [made, looked]
    cases earlier : (t.records os).find? (·.id = app.id) <;> simp_all
  have isId : first.id = app.id := by simpa using List.find?_some isFirst
  refine ⟨app, first, user, key, request, client, before, found, isFirst, decoded, ?_, ?_⟩
  · rw [answering, AppServer.respond_congr (s := .ofApp first) same]
  · simp [AppServer.ofApp_eq_iff, App.origin, isId]

theorem answered_by_first_record_stew : ∃ t' : Timeline,
    (morning.after menuChange).visitRequest "u-1" (some "k".utf8)
      askRecipes.encode.compact.utf8 = (.accepted, t') ∧
    ∃ (app first : App) (user : ApiUser) (key : String) (request : Rpc.Request) (client : Client)
        (before : Timeline),
      (morning.after menuChange).lookUp "u-1" (some "k".utf8) = (.ok (app, user, key), before) ∧
      (morning.records menuChange ++ [app]).find? (·.id = app.id) = some first ∧
      (Json.ofBytes? askRecipes.encode.compact.utf8).map Rpc.Request.decode = some (.ok request) ∧
      t'.answering = before.answering ++ [⟨app.id, client.id,
        (AppServer.ofApp first).respond t'.locker t'.appsPath client.user request⟩] ∧
      (AppServer.ofApp first = AppServer.ofApp app ↔
        first.uuid = app.uuid ∧ first.cookbook = app.cookbook) :=
  ⟨_, visitRequest_stew, answered_by_first_record rfl _ visitRequest_stew⟩

/-- A directory that is edited: the record with the stew lets the request in, and the answer is
that of the record with the soup. -/
theorem exists_stale_answer : ∃ (t' : Timeline) (process : Process Rpc.Response),
    (morning.after menuChange).record? "u-1" (some "k".utf8) = some (kitchen "stew") ∧
    (morning.after menuChange).visitRequest "u-1" (some "k".utf8)
      askRecipes.encode.compact.utf8 = (.accepted, t') ∧
    t'.answering = [⟨1, 1, process⟩] ∧
    (t'.world.advance false process).1 = .done (menu "soup") ∧
    (t'.world.advance false ((AppServer.ofApp (kitchen "stew")).respond t'.locker t'.appsPath
      ⟨5, 10⟩ askRecipes)).1 = .done (menu "stew") ∧
    menu "soup" ≠ menu "stew" := by
  refine ⟨_, _, ?_, visitRequest_stew, rfl, ?_, ?_, ?_⟩
  · rw [after_menuChange, record?, lookUp_resting rfl]
    rfl
  · rw [World.advance_respond_recipes rfl]
    rfl
  · rw [World.advance_respond_recipes rfl]
    rfl
  · simp [menu, Rpc.Response.ok]

end Timeline

end Galley
