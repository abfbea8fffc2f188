import Galley.Locker
import Galley.Proofs.Files.Overwriting
import Galley.Proofs.Step.Writing
import Galley.Request
/-!
# What containers may reach

The directories that a container gets mounted, and those in which other jobs keep their files. All of them
lie below the directory of a unit, so that whether one lies in another is seen from the parts of their
paths. Main statement: what a job mounts lies above the directories of a job with another page directory
only where both share one unit and it is the directory that shared jobs have in common, which holds those of
all shared jobs of the unit.
-/
namespace Galley

namespace Path

/-- Whether a text stands for one step down in a path. -/
structure IsName (name : String) : Prop where
  whole : '/' ∉ name.toList
  nonempty : name ≠ ""
  notHere : name ≠ "."
  notAbove : name ≠ ".."

instance (name : String) : Decidable (IsName name) :=
  decidable_of_iff ('/' ∉ name.toList ∧ name ≠ "" ∧ name ≠ "." ∧ name ≠ "..")
    ⟨fun ⟨whole, nonempty, notHere, notAbove⟩ => ⟨whole, nonempty, notHere, notAbove⟩,
      fun h => ⟨h.whole, h.nonempty, h.notHere, h.notAbove⟩⟩

theorem isName_of_hyphen {name : String} (hyphen : '-' ∈ name.toList) (whole : '/' ∉ name.toList) :
    IsName name := by
  have other {text : String} (plain : '-' ∉ text.toList) : name ≠ text := by
    rintro rfl
    exact plain hyphen
  exact ⟨whole, other (by decide), other (by decide), other (by decide)⟩

theorem IsName.parts_join {name : String} (h : IsName name) (base : String) :
    parts (join base name) = parts base ++ [name] := by
  have relative : name.toList.head? ≠ some '/' := fun first => h.whole (List.mem_of_head? first)
  have own := parts_of_name h.whole ⟨h.nonempty, h.notHere⟩
  unfold join
  rw [if_neg relative]
  split
  · next inside =>
    rcases inside with bare | slash
    · rw [String.isEmpty_iff.mp bare, String.empty_append, own]
      rfl
    · obtain ⟨above, hd⟩ := List.getLast?_eq_some_iff.mp slash
      have base_eq : base = String.ofList above ++ "/" ++ "" := String.ext (by simp [hd])
      have joined : base ++ name = String.ofList above ++ "/" ++ name := by
        rw [base_eq, String.append_empty]
      have nothing : parts "" = [] := by decide
      rw [joined, base_eq, parts_slash, parts_slash, own, nothing, List.append_nil]
  · rw [parts_slash, own]

end Path

/-! ### Names in the locker -/

theorem slash_not_mem_toString (n : Int) : '/' ∉ (toString n).toList := by
  have digits (n : Nat) : '/' ∉ (toString n).toList := by
    rw [Text.Numeral.toList_toString]
    exact Text.Numeral.not_mem_decimal rfl n
  cases n with
  | ofNat n => exact digits n
  | negSucc n =>
    have minus : toString (Int.negSucc n) = "-" ++ toString (n + 1) := rfl
    rw [minus, String.toList_append, List.mem_append, not_or]
    exact ⟨by decide, digits (n + 1)⟩

namespace Layout

variable {l l' : Layout}

/-- The parts of the way from the root to the directory of a page. -/
def pageParts (l : Layout) : List String :=
  [l.uuid, l.scope.text, l.owner, "page-" ++ l.pageId]

/-- Whether each part of that way is one step down. -/
structure IsPlain (l : Layout) : Prop where
  uuid : Path.IsName l.uuid
  owner : Path.IsName l.owner
  page : Path.IsName ("page-" ++ l.pageId)

theorem isName_scope (scope : Scope) : Path.IsName scope.text := by
  cases scope <;> decide

theorem pageDir_eq (l : Layout) (root : String) : l.pageDir root =
    Path.join (Path.join (Path.join (Path.join root l.uuid) l.scope.text) l.owner)
      ("page-" ++ l.pageId) := rfl

theorem IsPlain.parts_pageDir (h : l.IsPlain) (root : String) :
    Path.parts (l.pageDir root) = Path.parts root ++ l.pageParts := by
  rw [pageDir_eq, h.page.parts_join, h.owner.parts_join,
    (isName_scope l.scope).parts_join, h.uuid.parts_join]
  simp [pageParts]

theorem IsPlain.parts_unitDir (h : l.IsPlain) (root : String) :
    Path.parts (l.unitDir root) = Path.parts root ++ [l.uuid] :=
  h.uuid.parts_join root

theorem pageDir_congr (root : String) (same : l.pageParts = l'.pageParts) :
    l.pageDir root = l'.pageDir root := by
  simp only [pageParts, List.cons.injEq, and_true] at same
  obtain ⟨uuid, scope, owner, page⟩ := same
  rw [pageDir_eq, pageDir_eq, uuid, scope, owner, page]

/-- The directories in which the files of a page are kept. -/
def pageDirectories (l : Layout) : List String := [l.publicDir, l.privateDir, l.cacheDir]

theorem IsPlain.parts_of_mem (h : l.IsPlain) {dir : String} (mem : dir ∈ l.pageDirectories) :
    ∃ name, Path.parts dir = Path.parts l.root ++ (l.pageParts ++ [name]) := by
  have below {name : String} (plain : Path.IsName name) :
      Path.parts (Path.join (l.pageDir l.root) name) = Path.parts l.root ++ (l.pageParts ++ [name]) := by
    rw [plain.parts_join, h.parts_pageDir, List.append_assoc]
  simp only [pageDirectories, List.mem_cons, List.not_mem_nil, or_false] at mem
  rcases mem with rfl | rfl | rfl
  · exact ⟨"public", below (by decide)⟩
  · exact ⟨"private", below (by decide)⟩
  · exact ⟨"cache", below (by decide)⟩

/-- Where what is mounted lies below the root: in a page, or in one of two directories of the unit. -/
inductive Mounted (l : Layout) (target : String) : List String → Prop
  | page (name : String) (own : target ≠ "/lemc/shared") : l.Mounted target (l.pageParts ++ [name])
  | everybody (own : target ≠ "/lemc/shared") : l.Mounted target [l.uuid, "global"]
  | shared (common : target = "/lemc/shared") : l.Mounted target [l.uuid, "shared"]

theorem IsPlain.mounted (h : l.IsPlain) {m : Mount} (mem : m ∈ l.mounts) :
    ∃ below, Path.parts m.source = Path.parts l.bindRoot ++ below ∧ l.Mounted m.target below := by
  have page {name : String} (plain : Path.IsName name) :
      Path.parts (Path.join (l.pageDir l.bindRoot) name) =
        Path.parts l.bindRoot ++ (l.pageParts ++ [name]) := by
    rw [plain.parts_join, h.parts_pageDir, List.append_assoc]
  have unit {name : String} (plain : Path.IsName name) :
      Path.parts (Path.join (l.unitDir l.bindRoot) name) = Path.parts l.bindRoot ++ [l.uuid, name] := by
    rw [plain.parts_join, h.parts_unitDir, List.append_assoc]
    rfl
  rw [mounts, List.mem_append] at mem
  simp only [List.mem_cons, List.not_mem_nil, or_false] at mem
  rcases mem with (rfl | rfl | rfl) | shared
  · exact ⟨_, page (by decide), .page "public" (by simp)⟩
  · exact ⟨_, page (by decide), .page "private" (by simp)⟩
  · exact ⟨_, unit (by decide), .everybody (by simp)⟩
  · split at shared
    · obtain rfl := List.mem_singleton.mp shared
      exact ⟨_, unit (by decide), .shared rfl⟩
    · exact nomatch shared

/-- What is mounted lies above a directory of another page only where it is the directory that shared jobs
of the page's unit have in common. -/
theorem Mounted.above_iff {below : List String} {target : String} (h : l.Mounted target below)
    (apart : l.pageParts ≠ l'.pageParts) (name : String) : below <+: l'.pageParts ++ [name] ↔
      target = "/lemc/shared" ∧ l'.scope = .shared ∧ l.uuid = l'.uuid := by
  cases h with
  | page own other =>
    refine iff_of_false (fun above => apart ?_) fun h => other h.1
    have same := above.eq_of_length (by simp [pageParts])
    exact (List.append_inj same (by simp [pageParts])).1
  | everybody other =>
    refine iff_of_false (fun above => ?_) fun h => other h.1
    cases hs : l'.scope <;> simp [pageParts, hs, Scope.text] at above
  | shared common =>
    cases hs : l'.scope <;> simp [pageParts, hs, Scope.text, common]

/-- What a job mounts lies above the directories of a page other than its own exactly where it is the
directory in common of the shared jobs, and the page is one of a shared job of the same unit. -/
theorem IsPlain.above_pageDirectories_iff (h : l.IsPlain) (h' : l'.IsPlain) (root : l.root = l'.root)
    (apart : l.pageDir l.root ≠ l'.pageDir l'.root) {m : Mount} (mem : m ∈ l.mounts) :
    ∃ below, Path.parts m.source = Path.parts l.bindRoot ++ below ∧
      ∀ dir ∈ l'.pageDirectories, Path.parts l.root ++ below <+: Path.parts dir ↔
        m.target = "/lemc/shared" ∧ l'.scope = .shared ∧ l.uuid = l'.uuid := by
  have parts : l.pageParts ≠ l'.pageParts := fun same =>
    apart (by rw [root]; exact pageDir_congr _ same)
  obtain ⟨below, source, mounted⟩ := h.mounted mem
  refine ⟨below, source, fun dir hdir => ?_⟩
  obtain ⟨name, whole⟩ := h'.parts_of_mem hdir
  rw [whole, root, List.prefix_append_right_inj]
  exact mounted.above_iff parts name

end Layout

/-! ### Jobs that are built from requests -/

theorem Path.isName_owner (username : String) (userId : Int) :
    IsName (username.slug ++ "-" ++ toString userId) := by
  refine isName_of_hyphen ?_ ?_
  · simp
  · rw [String.toList_append, String.toList_append, List.mem_append, List.mem_append, not_or, not_or]
    exact ⟨⟨Text.Slug.slash_not_mem_slug username, by decide⟩, slash_not_mem_toString userId⟩

theorem Path.isName_sharedUser : IsName "shared-user" := by decide

theorem Path.isName_page (page : Nat) : IsName ("page-" ++ toString page) := by
  refine isName_of_hyphen ?_ ?_
  · simp
  · rw [String.toList_append, List.mem_append, not_or]
    exact ⟨by decide, slash_not_mem_toString page⟩

namespace Request

variable {r : Request} {book : Cookbook} {job : Job} {locker : Locker} {l : Layout}

/-- What the layout of a job that was built from a request takes from it. -/
structure LaidOut (r : Request) (locker : Locker) (l : Layout) : Prop where
  root : l.root = locker.root
  uuid : l.uuid = r.uuid
  scope : l.scope = r.scope
  owner : Path.IsName l.owner
  page : Path.IsName ("page-" ++ l.pageId)

theorem LaidOut.isPlain (h : r.LaidOut locker l) (plain : Path.IsName r.uuid) : l.IsPlain :=
  ⟨h.uuid ▸ plain, h.owner, h.page⟩

/-- Whose files they are that a job built from a request keeps. -/
def ownerName (r : Request) : String :=
  match r.scope with
  | .individual => r.username.slug ++ "-" ++ toString r.userId
  | .shared => "shared-user"

/-- The layout of a job built from a request. -/
def layout (r : Request) (locker : Locker) : Layout where
  root := locker.root
  bindRoot := locker.hostRoot.getD locker.root
  uuid := r.uuid
  pageId := toString r.page
  scope := r.scope
  owner := r.ownerName

theorem layout_of_build (built : r.build book = .ok job) (locker : Locker) :
    locker.layout job = .ok (r.layout locker) := by
  unfold Request.build at built
  split at built
  · exact nomatch built
  · obtain ⟨form, -, built⟩ := bind_eq_ok.mp built
    obtain rfl := Except.ok.inj built
    unfold Locker.layout Job.parsedScope
    rw [Scope.parse_text]
    rfl

theorem isName_ownerName (r : Request) : Path.IsName r.ownerName := by
  unfold ownerName
  cases r.scope with
  | individual => exact Path.isName_owner r.username r.userId
  | shared => exact Path.isName_sharedUser

theorem exists_laidOut (built : r.build book = .ok job) (locker : Locker) :
    ∃ l, locker.layout job = .ok l ∧ r.LaidOut locker l :=
  ⟨r.layout locker, layout_of_build built locker, rfl, rfl, rfl, r.isName_ownerName,
    Path.isName_page r.page⟩

end Request

/-- Of two jobs built for one locker, with units whose names are single parts and with different directories
for their pages, what the first one mounts, seen below the locker's own root, lies above no directory of the
second one's page; but what shared jobs have in common lies above those of every shared job of the unit. -/
theorem mounts_above_iff {r r' : Request} {book book' : Cookbook} {job job' : Job}
    (built : r.build book = .ok job) (built' : r'.build book' = .ok job')
    (plain : Path.IsName r.uuid) (plain' : Path.IsName r'.uuid) (locker : Locker) :
    ∃ l l', locker.layout job = .ok l ∧ locker.layout job' = .ok l' ∧
      (l.pageDir l.root ≠ l'.pageDir l'.root → ∀ m ∈ l.mounts,
        ∃ below, Path.parts m.source = Path.parts l.bindRoot ++ below ∧
          ∀ dir ∈ [l'.publicDir, l'.privateDir, l'.cacheDir],
            Path.parts l.root ++ below <+: Path.parts dir ↔
              m.target = "/lemc/shared" ∧ r'.scope = .shared ∧ r.uuid = r'.uuid) := by
  obtain ⟨l, laid, h⟩ := Request.exists_laidOut built locker
  obtain ⟨l', laid', h'⟩ := Request.exists_laidOut built' locker
  refine ⟨l, l', laid, laid', fun apart m mem => ?_⟩
  have above := (h.isPlain plain).above_pageDirectories_iff (h'.isPlain plain') (h.root.trans h'.root.symm)
    apart mem
  rwa [h'.scope, h.uuid, h'.uuid] at above

/-! ### Two pages of one unit -/

namespace Request

/-- Two pages with one recipe each. -/
def menu : Cookbook where
  environment := ⟨[], []⟩
  pages := [⟨1, "day", [⟨"soup", "", [], []⟩]⟩, ⟨2, "night", [⟨"soup", "", [], []⟩]⟩]
  wikis := []

/-- A request for everybody who may see a page. -/
def order (page : Nat) : Request where
  entity := .app
  uuid := "u-1"
  entityId := "7"
  page := page
  recipe := "soup"
  userId := 42
  username := "ann"
  scope := .shared
  form := []
  recipients := [42]

theorem order_built : (∃ job, (order 1).build menu = .ok job) ∧ ∃ job, (order 2).build menu = .ok job :=
  ⟨⟨_, rfl⟩, ⟨_, rfl⟩⟩

theorem order_named (page : Nat) : Path.IsName (order page).uuid := by
  change Path.IsName "u-1"
  decide

end Request

open Request in
theorem mounts_above_iff_menu :
    ∃ job job', (order 1).build menu = .ok job ∧ (order 2).build menu = .ok job' ∧
      Path.IsName (order 1).uuid ∧ Path.IsName (order 2).uuid ∧
      ∃ l l', (⟨"/locker", none⟩ : Locker).layout job = .ok l ∧
        (⟨"/locker", none⟩ : Locker).layout job' = .ok l' ∧
        (l.pageDir l.root ≠ l'.pageDir l'.root → ∀ m ∈ l.mounts,
          ∃ below, Path.parts m.source = Path.parts l.bindRoot ++ below ∧
            ∀ dir ∈ [l'.publicDir, l'.privateDir, l'.cacheDir],
              Path.parts l.root ++ below <+: Path.parts dir ↔
                m.target = "/lemc/shared" ∧ (order 2).scope = .shared ∧
                  (order 1).uuid = (order 2).uuid) := by
  obtain ⟨⟨job, built⟩, job', built'⟩ := order_built
  exact ⟨job, job', built, built', order_named 1, order_named 2,
    mounts_above_iff built built' (order_named 1) (order_named 2) ⟨"/locker", none⟩⟩

open Request in
/-- What a shared job mounts can lie above what another page keeps for itself. -/
theorem exists_mount_above_private :
    ∃ job job' l l' m, (order 1).build menu = .ok job ∧ (order 2).build menu = .ok job' ∧
      0 ≤ (order 1).userId ∧ 0 ≤ (order 2).userId ∧
      Path.IsName (order 1).uuid ∧ Path.IsName (order 2).uuid ∧
      (⟨"/locker", none⟩ : Locker).layout job = .ok l ∧
      (⟨"/locker", none⟩ : Locker).layout job' = .ok l' ∧
      l.pageDir l.root ≠ l'.pageDir l'.root ∧ l.bindRoot = l.root ∧ m ∈ l.mounts ∧
      Path.parts m.source <+: Path.parts l'.privateDir :=
  ⟨_, _, _, _, ⟨"/locker/u-1/shared", "/lemc/shared"⟩, rfl, rfl, by decide, by decide, order_named 1,
    order_named 2, rfl, rfl, by decide, rfl, by decide, by decide⟩

end Galley
