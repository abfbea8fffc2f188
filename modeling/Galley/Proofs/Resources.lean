import Galley.Proofs.Cookbook.Codec
import Galley.Proofs.Message.Catalog
import Galley.Proofs.Registry
import Galley.Proofs.Text.Cut
/-!
# Resources that are listed and that can be read

The server of an app lists the addresses of its pages' wikis. Read is whatever names a page, in whichever app,
that a wiki is stored for: the app in an address is not looked at, the number of the page may have zeros in
front, and the page itself need not be there. Main statement: an address is listed exactly when it can be read
and is the address, in the server's own app, of a page of the cookbook.
-/
namespace Galley

/-! ### Addresses of wikis -/

namespace Catalog

variable {uri : String} {page page' : Nat}

/-- Whether an address names the wiki of a page, in whichever app. -/
def IsWikiUri (uri : String) (page : Nat) : Prop :=
  ∃ app digits : String, uri = "lemc://app/" ++ app ++ "/wiki/" ++ digits ∧ app ≠ "" ∧
    '/' ∉ app.toList ∧ Text.Numeral.digits? digits.toList = some page

theorem toList_wiki (app digits : String) : ("lemc://app/" ++ app ++ "/wiki/" ++ digits).toList =
    "lemc://app/".toList ++ (app.toList ++ ('/' :: "wiki/".toList ++ digits.toList)) := by
  have word : "/wiki/".toList = '/' :: "wiki/".toList := rfl
  rw [String.toList_append, String.toList_append, String.toList_append, word, List.append_assoc,
    List.append_assoc]

theorem IsWikiUri.inj (h : IsWikiUri uri page) (h' : IsWikiUri uri page') : page = page' := by
  obtain ⟨app, digits, rfl, -, slash, number⟩ := h
  obtain ⟨app', digits', same, -, slash', number'⟩ := h'
  rw [← String.toList_inj, toList_wiki, toList_wiki] at same
  obtain ⟨-, rest⟩ := Text.cut_at_first (List.append_cancel_left same) slash slash'
  rw [List.append_cancel_left rest, number'] at number
  exact (Option.some.inj number).symm

/-- What is read off an address is the page that it names, if its number has no more than 32 bits. -/
theorem parseWikiUri?_eq_some_iff :
    parseWikiUri? uri = some page ↔ IsWikiUri uri page ∧ page ≤ Text.Numeral.maxU32 := by
  constructor
  · intro h
    obtain ⟨rest, start, h⟩ := Option.bind_eq_some_iff.mp h
    obtain ⟨⟨app, digits⟩, cut, h⟩ := Option.bind_eq_some_iff.mp h
    obtain ⟨cs, start', rfl⟩ := Option.map_eq_some_iff.mp start
    obtain ⟨⟨as, ds⟩, cut', same⟩ := Option.map_eq_some_iff.mp cut
    obtain ⟨rfl, rfl⟩ := Prod.mk.inj same
    rw [@String.toList_ofList cs] at cut'
    have whole : uri = "lemc://app/" ++ String.ofList as ++ "/wiki/" ++ String.ofList ds := by
      rw [← String.toList_inj, Text.eq_append_of_after? start', Text.eq_append_of_cutAtWord? cut',
        toList_wiki, @String.toList_ofList as, @String.toList_ofList ds]
      rfl
    dsimp only at h
    split at h
    · exact nomatch h
    · next named =>
      rw [not_or, String.isEmpty_iff, List.contains_iff_mem] at named
      obtain ⟨n, number, h⟩ := Option.bind_eq_some_iff.mp h
      split at h
      · next small =>
        obtain rfl := Option.some.inj h
        exact ⟨⟨_, _, whole, named.1, named.2, number⟩, small⟩
      · exact nomatch h
  · rintro ⟨⟨app, digits, rfl, ne, slash, number⟩, small⟩
    have word : "/wiki/".toList = '/' :: "wiki/".toList := rfl
    have start : ("lemc://app/" ++ app ++ "/wiki/" ++ digits).after? "lemc://app/" =
        some (app ++ "/wiki/" ++ digits) := by
      rw [String.after?, toList_wiki, Text.after?_append, Option.map_some, ← word, ← List.append_assoc,
        ← String.toList_append, ← String.toList_append, String.ofList_toList]
    -- The word begins with a slash, and the app holds none: so the first cut is the one behind the app.
    have cut : (app ++ "/wiki/" ++ digits).cutAtWord? "/wiki/" = some (app, digits) := by
      rw [String.cutAtWord?, String.toList_append, String.toList_append, word, List.append_assoc,
        Text.cutAtWord?_append _ slash]
      simp
    have named : ¬(app.isEmpty ∨ app.toList.contains '/') := by
      rw [not_or, String.isEmpty_iff, List.contains_iff_mem]
      exact ⟨ne, slash⟩
    simp only [parseWikiUri?, start, cut, Option.bind_eq_bind, Option.bind_some, if_neg named, number,
      if_pos small]

/-- The address of a page's wiki names that page, if the text for the app in it can stand between slashes. -/
theorem isWikiUri_wikiUri {app : String} (ne : app ≠ "") (slash : '/' ∉ app.toList) (page : Nat) :
    IsWikiUri (wikiUri app page) page := by
  refine ⟨app, toString page, rfl, ne, slash, ?_⟩
  rw [Text.Numeral.toList_toString, Text.Numeral.digits?_decimal]

end Catalog

/-! ### Wikis that are stored -/

namespace Cookbook

variable {book : Cookbook} {page : Nat}

/-- Whether a wiki is stored for the page that an address names. -/
def HasWikiAt (book : Cookbook) (uri : String) : Prop :=
  ∃ wiki ∈ book.wikis, Catalog.IsWikiUri uri wiki.1

theorem isSome_wiki?_iff : (book.wiki? page).isSome ↔ ∃ wiki ∈ book.wikis, wiki.1 = page := by
  rw [wiki?, storedWiki?, Option.isSome_map, Option.isSome_map, List.find?_isSome]
  simp only [decide_eq_true_eq]

/-- Numbers of pages have no more than 32 bits, so an address is read as the page that it names. -/
theorem InRange.hasWikiAt_iff (range : book.InRange) {uri : String} :
    book.HasWikiAt uri ↔ ∃ page, Catalog.parseWikiUri? uri = some page ∧ (book.wiki? page).isSome := by
  constructor
  · rintro ⟨wiki, stored, named⟩
    exact ⟨wiki.1, Catalog.parseWikiUri?_eq_some_iff.mpr ⟨named, range.wikis wiki stored⟩,
      isSome_wiki?_iff.mpr ⟨wiki, stored, rfl⟩⟩
  · rintro ⟨page, parsed, found⟩
    obtain ⟨wiki, stored, rfl⟩ := isSome_wiki?_iff.mp found
    exact ⟨wiki, stored, (Catalog.parseWikiUri?_eq_some_iff.mp parsed).1⟩

end Cookbook

/-! ### Requests for resources -/

namespace AppServer

open Catalog

variable {s : AppServer} {r : Rpc.Request} {uri : String}

/-- Whether an answer advertises an address: one of its resources has it. -/
def Advertises (response : Rpc.Response) (uri : String) : Prop :=
  ∃ result resources resource, response.result = some result ∧
    result.member? "resources" = some (.array resources) ∧ resource ∈ resources ∧
    resource.member? "uri" = some (.string uri)

/-- Whether an answer gives a text as the contents of a resource. An empty text is left out. -/
def Gives (id : Option Json) (uri html : String) (response : Rpc.Response) : Prop :=
  ∃ result content, response = ⟨"2.0", id, some result, none⟩ ∧
    result.member? "contents" = some (.array [content]) ∧
    content.member? "uri" = some (.string uri) ∧ content.textAt "text" = html

/-- Whether an answer gives the contents of a resource, or says why they cannot be decoded. -/
inductive Found (id : Option Json) (uri : String) : Rpc.Response → Prop
  | contents {html : String} {response : Rpc.Response} (gives : Gives id uri html response) :
      Found id uri response
  | undecodable (e : Text.Base64.Error) : Found id uri ⟨"2.0", id, none, some ("decode: " ++ e.message)⟩

/-- Whether an answer says that there is no such resource. -/
inductive Missing (id : Option Json) : Rpc.Response → Prop
  | unknown : Missing id ⟨"2.0", id, none, some "unknown resource"⟩
  | absent : Missing id ⟨"2.0", id, none, some "resource not found"⟩

theorem Found.not_missing {id : Option Json} {response : Rpc.Response} (h : Found id uri response) :
    ¬Missing id response := by
  have other (e : Text.Base64.Error) (text : String) (h : text.toList.head? ≠ some 'd') :
      "decode: " ++ e.message ≠ text := by
    rintro rfl
    simp at h
  intro missing
  cases h with
  | contents gives =>
    obtain ⟨result, content, rfl, -⟩ := gives
    exact nomatch missing
  | undecodable e =>
    generalize same : "decode: " ++ e.message = text at missing
    cases missing with
    | unknown => exact other e _ (by decide) same
    | absent => exact other e _ (by decide) same

theorem handle_list (h : r.method = "resources/list") (s : AppServer) (apps : Except String Apps)
    (user : ApiUser) : s.handle apps user r =
      .now (good r.id (.object [("resources", .array (s.resources.map Resource.encode))])) := by
  simp only [handle, h]

theorem handle_read (h : r.method = "resources/read")
    (params : r.decodeParams ReadParams.decode = .ok ⟨uri⟩) (s : AppServer)
    (apps : Except String Apps) (user : ApiUser) :
    s.handle apps user r = answer r ((s.readResource uri).map fun c =>
      .object [("contents", .array [Content.encode c])]) := by
  simp only [handle, h, withParams, params]

/-- What is advertised are the addresses of the resources. -/
theorem advertises_good {id : Option Json} {resources : List Resource} :
    Advertises (good id (.object [("resources", .array (resources.map Resource.encode))])) uri ↔
      uri ∈ resources.map (·.uri) := by
  rw [good, Json.freeform_list Resource.normal?_encode]
  constructor
  · rintro ⟨result, items, resource, ⟨⟩, ⟨⟩, mem, named⟩
    obtain ⟨r, there, rfl⟩ := List.mem_map.mp mem
    rw [Resource.member?_uri] at named
    obtain rfl : r.uri = uri := Json.string.inj (Option.some.inj named)
    exact List.mem_map_of_mem there
  · intro mem
    obtain ⟨r, there, rfl⟩ := List.mem_map.mp mem
    exact ⟨_, _, _, rfl, rfl, List.mem_map_of_mem there, r.member?_uri⟩

/-- What is given is the text of the content. -/
theorem gives_good (id : Option Json) (c : Content) :
    Gives id c.uri c.text (good id (.object [("contents", .array ([c].map Content.encode))])) := by
  rw [good, Json.freeform_list Content.normal?_encode]
  exact ⟨_, _, rfl, rfl, c.member?_uri, c.textAt_text⟩

theorem mem_resources_iff :
    uri ∈ s.resources.map (·.uri) ↔
      ∃ p ∈ s.cookbook.pages, (s.cookbook.wiki? p.page).isSome ∧ uri = wikiUri s.uuid p.page := by
  simp only [resources, List.map_map, List.mem_map, List.mem_filter, Function.comp_apply, and_assoc]
  exact exists_congr fun p => and_congr_right fun _ => and_congr_right fun _ => eq_comm

/-- An address can be read if a wiki is stored for the page that it names, and else there is no such
resource. -/
theorem exists_read (range : s.cookbook.InRange) (r : Rpc.Request) (uri : String) :
    ∃ response, answer r ((s.readResource uri).map fun c =>
        .object [("contents", .array [Content.encode c])]) = .now response ∧
      (s.cookbook.HasWikiAt uri ∧ Found r.id uri response ∨
        ¬s.cookbook.HasWikiAt uri ∧ Missing r.id response) := by
  rw [range.hasWikiAt_iff, readResource]
  cases parsed : parseWikiUri? uri with
  | none => exact ⟨_, rfl, .inr ⟨by simp, .unknown⟩⟩
  | some page =>
    dsimp only
    cases found : s.cookbook.wiki? page with
    | none => exact ⟨_, rfl, .inr ⟨by simp [found], .absent⟩⟩
    | some wiki =>
      have stored : ∃ n, some page = some n ∧ (s.cookbook.wiki? n).isSome :=
        ⟨page, rfl, by simp [found]⟩
      cases wiki with
      | error e => exact ⟨_, rfl, .inl ⟨stored, .undecodable e⟩⟩
      | ok html => exact ⟨_, rfl, .inl ⟨stored, .contents (gives_good r.id _)⟩⟩

theorem readResource_of_wiki (range : s.cookbook.InRange) {page : Nat} {html : String}
    (named : IsWikiUri uri page) (found : s.cookbook.wiki? page = some (.ok html)) :
    s.readResource uri = .ok ⟨uri, "text/html", html, ""⟩ := by
  obtain ⟨stored, mem, rfl⟩ := Cookbook.isSome_wiki?_iff.mp (Option.isSome_of_eq_some found)
  have parsed := parseWikiUri?_eq_some_iff.mpr ⟨named, range.wikis stored mem⟩
  rw [readResource, parsed]
  dsimp only
  rw [found]

/-- The server of an app reads an address if a wiki is stored for the page that the address names, whichever app
it names and whether or not that page is there; else there is no such resource. What it gives then is the text of
the wiki. If the app's uuid can stand between slashes, an address is advertised in the list of resources exactly
when it is read and is the address, in this app, of one of its pages. -/
theorem resources_listed_and_read {app : App} {s : AppServer} (own : s.origin = app.origin)
    (range : app.cookbook.InRange) (apps : Except String Apps) (user : ApiUser) {list read : Rpc.Request}
    {uri : String} (lists : list.method = "resources/list") (reads : read.method = "resources/read")
    (params : read.decodeParams ReadParams.decode = .ok ⟨uri⟩) :
    ∃ listing response, s.handle apps user list = .now listing ∧ s.handle apps user read = .now response ∧
      (Missing read.id response ↔ ¬Found read.id uri response) ∧
      (Found read.id uri response ↔ app.cookbook.HasWikiAt uri) ∧
      (∀ page html, IsWikiUri uri page → app.cookbook.wiki? page = some (.ok html) →
        Gives read.id uri html response) ∧
      (app.uuid ≠ "" → '/' ∉ app.uuid.toList →
        (Advertises listing uri ↔ Found read.id uri response ∧
          ∃ page ∈ app.cookbook.pages, uri = wikiUri app.uuid page.page)) := by
  have uuid : s.uuid = app.uuid := congrArg (·.2.1) own
  have cookbook : s.cookbook = app.cookbook := congrArg (·.2.2) own
  rw [← cookbook, ← uuid]
  rw [← cookbook] at range
  obtain ⟨response, answered, outcome⟩ := exists_read range read uri
  have found : Found read.id uri response ↔ s.cookbook.HasWikiAt uri := by
    rcases outcome with ⟨stored, found⟩ | ⟨none, missing⟩
    · exact iff_of_true found stored
    · exact iff_of_false (fun found => found.not_missing missing) none
  refine ⟨_, response, handle_list lists s apps user, (handle_read reads params s apps user).trans answered, ?_,
    found, ?_, ?_⟩
  · rcases outcome with ⟨-, found⟩ | ⟨none, missing⟩
    · exact iff_of_false found.not_missing (not_not.mpr found)
    · exact iff_of_true missing (none ∘ found.mp)
  · intro page html named wiki
    rw [readResource_of_wiki range named wiki] at answered
    obtain rfl := Reply.now.inj answered
    exact gives_good read.id _
  · intro ne slash
    rw [advertises_good, mem_resources_iff, found]
    constructor
    · rintro ⟨p, there, wiki, rfl⟩
      obtain ⟨stored, mem, same⟩ := Cookbook.isSome_wiki?_iff.mp wiki
      exact ⟨⟨stored, mem, same ▸ isWikiUri_wikiUri ne slash p.page⟩, p, there, rfl⟩
    · rintro ⟨⟨stored, mem, named⟩, p, there, rfl⟩
      have same : stored.1 = p.page := named.inj (isWikiUri_wikiUri ne slash p.page)
      exact ⟨p, there, Cookbook.isSome_wiki?_iff.mpr ⟨stored, mem, same⟩, rfl⟩

/-- An app with a wiki for its only page, and one for a page that is not there. -/
def orphaned : App where
  id := 7
  uuid := "u-7"
  name := "App"
  description := ""
  accountId := 1
  mcpEnabled := true
  cookbook := ⟨⟨[], []⟩, [⟨1, "one", []⟩], [(1, "PHA+d2lraTwvcD4="), (9, "b3JwaGFu")]⟩

def listOrphaned : Rpc.Request := .new (.nat 1) "resources/list" .null

def readOrphaned (uri : String) : Rpc.Request :=
  .new (.nat 2) "resources/read" (ReadParams.encode ⟨uri⟩)

/-- The wiki of the page that is there is advertised and read. -/
theorem resources_listed_and_read_own :
    (ofApp orphaned).origin = orphaned.origin ∧ orphaned.cookbook.InRange ∧
      (readOrphaned "lemc://app/u-7/wiki/1").decodeParams ReadParams.decode = .ok ⟨"lemc://app/u-7/wiki/1"⟩ ∧
      ∃ listing response, (ofApp orphaned).handle (.ok .empty) ⟨1, 1⟩ listOrphaned = .now listing ∧
        (ofApp orphaned).handle (.ok .empty) ⟨1, 1⟩ (readOrphaned "lemc://app/u-7/wiki/1") = .now response ∧
        Advertises listing "lemc://app/u-7/wiki/1" ∧
        Gives (some (.nat 2)) "lemc://app/u-7/wiki/1" "<p>wiki</p>" response := by
  have page : (⟨1, "one", []⟩ : Page).InRange := ⟨by decide, by simp⟩
  have range : orphaned.cookbook.InRange := ⟨by simpa [orphaned] using page, by decide, by decide⟩
  obtain ⟨listing, response, listed, answered, -, found, gives, both⟩ :=
    @resources_listed_and_read orphaned (ofApp orphaned) rfl range (.ok .empty) ⟨1, 1⟩ listOrphaned
      (readOrphaned "lemc://app/u-7/wiki/1") "lemc://app/u-7/wiki/1" rfl rfl rfl
  have named : IsWikiUri "lemc://app/u-7/wiki/1" 1 := @isWikiUri_wikiUri "u-7" (by decide) (by decide) 1
  have read := found.mpr ⟨_, List.mem_cons_self, named⟩
  have advertised := (both (by decide) (by decide)).mpr ⟨read, _, List.mem_cons_self, rfl⟩
  exact ⟨rfl, range, rfl, listing, response, listed, answered, advertised, gives 1 _ named rfl⟩

/-- The wiki of the page that is not there is read, but not advertised. -/
theorem read_not_listed :
    ∃ listing response, (ofApp orphaned).handle (.ok .empty) ⟨1, 1⟩ listOrphaned = .now listing ∧
      (ofApp orphaned).handle (.ok .empty) ⟨1, 1⟩ (readOrphaned "lemc://app/u-7/wiki/9") = .now response ∧
      ¬Advertises listing "lemc://app/u-7/wiki/9" ∧
      Gives (some (.nat 2)) "lemc://app/u-7/wiki/9" "orphan" response := by
  have content : (ofApp orphaned).readResource "lemc://app/u-7/wiki/9" =
      .ok ⟨"lemc://app/u-7/wiki/9", "text/html", "orphan", ""⟩ := rfl
  refine ⟨_, _, handle_list rfl _ _ _, (handle_read rfl rfl _ _ _).trans (by rw [content]; rfl), ?_,
    gives_good _ _⟩
  rw [advertises_good]
  decide

end AppServer

end Galley
