import Galley.Proofs.Containment
import Galley.Proofs.Step.Naming
import Galley.Proofs.Text.Slug
/-!
# Where jobs keep their files

The directories of a job that was built from a request, and the log of its recipe. Users and recipes may have
any names: what stands of them in a path is a slug, behind which the ids can still be told. Main statement:
all of it lies below the directory of the job's unit, and two jobs share the directory of a page only where
unit, scope and page are the same and, for jobs that are not shared, the user too; and a log only where the
recipe's slug is the same besides.
-/
namespace Galley

namespace Path

/-- Whether a path leads from a directory down by one step or more, and nowhere up. -/
inductive LiesBelow (base : String) : String → Prop
  | child {name : String} (plain : IsName name) : LiesBelow base (join base name)
  | deeper {path name : String} (above : LiesBelow base path) (plain : IsName name) :
      LiesBelow base (join path name)

/-- As a place in the tree, what lies below a directory has further parts, each of them one step down. -/
theorem LiesBelow.exists_parts {base path : String} (h : LiesBelow base path) :
    ∃ names, names ≠ [] ∧ (∀ name ∈ names, IsName name) ∧ parts path = parts base ++ names := by
  induction h with
  | @child name plain => exact ⟨[name], by simp, by simpa using plain, plain.parts_join base⟩
  | @deeper path name above plain ih =>
    obtain ⟨names, ne, all, below⟩ := ih
    refine ⟨names ++ [name], by simp, ?_, ?_⟩
    · rw [List.forall_mem_append, List.forall_mem_singleton]
      exact ⟨all, plain⟩
    · rw [plain.parts_join, below, List.append_assoc]

end Path

namespace Layout

variable {l l' : Layout} {recipe recipe' : String}

/-- The name of a recipe's log. -/
def logName (l : Layout) (recipe : String) : String :=
  ("page-" ++ l.pageId).slug ++ "-" ++ recipe.slug ++ ".log"

theorem logFile_eq (l : Layout) (recipe : String) :
    l.logFile recipe = Path.join l.logDir (l.logName recipe) := rfl

theorem isName_logName (l : Layout) (recipe : String) : Path.IsName (l.logName recipe) := by
  apply Path.isName_of_hyphen
  · simp [logName]
  · simp [logName, Text.Slug.slash_not_mem_slug]

/-- The directories that are made for a job and those above them below the unit, and the log of a recipe. -/
def places (l : Layout) (recipe : String) : List String :=
  l.directories ++ [l.ownerDir l.root, l.pageDir l.root, l.sharedDir, l.logFile recipe]

theorem IsPlain.liesBelow_unitDir (h : l.IsPlain) (recipe : String) :
    ∀ place ∈ l.places recipe, Path.LiesBelow (l.unitDir l.root) place := by
  have owner : Path.LiesBelow (l.unitDir l.root) (l.ownerDir l.root) :=
    (Path.LiesBelow.child (isName_scope l.scope)).deeper h.owner
  have page : Path.LiesBelow (l.unitDir l.root) (l.pageDir l.root) := owner.deeper h.page
  have logs : Path.LiesBelow (l.unitDir l.root) l.logDir := owner.deeper (by decide)
  have shared : Path.LiesBelow (l.unitDir l.root) l.sharedDir := .child (by decide)
  have common : ∀ place ∈ (if l.scope = .shared then [l.sharedDir] else []),
      Path.LiesBelow (l.unitDir l.root) place := by
    split
    · rwa [List.forall_mem_singleton]
    · exact List.forall_mem_nil _
  simp only [places, directories, List.forall_mem_append, List.forall_mem_cons, List.not_mem_nil,
    false_imp_iff, implies_true, and_true]
  refine ⟨⟨⟨page.deeper ?_, page.deeper ?_, page.deeper ?_, logs, .child ?_⟩, common⟩, owner, page,
    shared, logs.deeper (l.isName_logName recipe)⟩
  -- what is left are the names that are the same for all jobs
  all_goals decide

/-- The parts of the way from the root to the log of a recipe. -/
def logParts (l : Layout) (recipe : String) : List String :=
  [l.uuid, l.scope.text, l.owner, "logs", l.logName recipe]

theorem IsPlain.parts_logFile (h : l.IsPlain) (recipe : String) :
    Path.parts (l.logFile recipe) = Path.parts l.root ++ l.logParts recipe := by
  have logs : Path.IsName "logs" := by decide
  have dir : l.logDir = Path.join (Path.join (Path.join (Path.join l.root l.uuid) l.scope.text) l.owner)
    "logs" := rfl
  rw [logFile_eq, (l.isName_logName recipe).parts_join, dir, logs.parts_join, h.owner.parts_join,
    (isName_scope l.scope).parts_join, h.uuid.parts_join]
  simp [logParts]

end Layout

/-! ### Ids behind names -/

theorem toList_toString_of_nonneg {n : Int} (h : 0 ≤ n) :
    (toString n).toList = Text.Numeral.decimal n.toNat := by
  obtain ⟨k, rfl⟩ := Int.eq_ofNat_of_zero_le h
  exact Text.Numeral.toList_toString k

theorem hyphen_not_mem_toString {n : Int} (h : 0 ≤ n) : '-' ∉ (toString n).toList := by
  rw [toList_toString_of_nonneg h]
  exact Text.Numeral.not_mem_decimal rfl _

theorem toString_inj_of_nonneg {m n : Int} (hm : 0 ≤ m) (hn : 0 ≤ n) (same : toString m = toString n) :
    m = n := by
  have digits : Text.Numeral.decimal m.toNat = Text.Numeral.decimal n.toNat := by
    rw [← toList_toString_of_nonneg hm, ← toList_toString_of_nonneg hn, same]
  have value := Text.Numeral.decimal_inj digits
  omega

theorem toString_inj_of_nat {m n : Nat} (same : toString m = toString n) : m = n := by
  apply Text.Numeral.decimal_inj
  rw [← Text.Numeral.toList_toString, ← Text.Numeral.toList_toString, same]

namespace Request

variable {r r' : Request} {book book' : Cookbook} {job job' : Job} {locker : Locker}

/-- Whether two requests keep their files in one directory for a page. -/
structure SharesPage (r r' : Request) : Prop where
  uuid : r.uuid = r'.uuid
  scope : r.scope = r'.scope
  page : r.page = r'.page
  user : r.scope = .individual → r.userId = r'.userId
  name : r.scope = .individual → r.username.slug = r'.username.slug

theorem isPlain_layout (plain : Path.IsName r.uuid) (locker : Locker) : (r.layout locker).IsPlain :=
  ⟨plain, r.isName_ownerName, Path.isName_page r.page⟩

/-- The owner of a job tells the slug of the user's name and the id, unless the job is shared. -/
theorem ownerName_eq_iff (user : 0 ≤ r.userId) (user' : 0 ≤ r'.userId) (scope : r.scope = r'.scope) :
    r.ownerName = r'.ownerName ↔
      (r.scope = .individual → r.userId = r'.userId ∧ r.username.slug = r'.username.slug) := by
  unfold ownerName
  rw [← scope]
  cases r.scope with
  | shared => simp
  | individual =>
    constructor
    · intro same _
      obtain ⟨name, id⟩ := Layout.owner_inj (hyphen_not_mem_toString user)
        (hyphen_not_mem_toString user') same
      exact ⟨toString_inj_of_nonneg user user' id, name⟩
    · intro same
      obtain ⟨id, name⟩ := same rfl
      rw [id, name]

theorem sharesPage_iff (user : 0 ≤ r.userId) (user' : 0 ≤ r'.userId) : r.SharesPage r' ↔
    r.uuid = r'.uuid ∧ r.scope.text = r'.scope.text ∧ r.ownerName = r'.ownerName ∧ r.page = r'.page := by
  constructor
  · intro h
    have owner := (ownerName_eq_iff user user' h.scope).mpr fun own => ⟨h.user own, h.name own⟩
    exact ⟨h.uuid, congrArg Scope.text h.scope, owner, h.page⟩
  · rintro ⟨uuid, text, owner, page⟩
    have scope := Scope.text_injective text
    have own := (ownerName_eq_iff user user' scope).mp owner
    exact ⟨uuid, scope, page, fun h => (own h).1, fun h => (own h).2⟩

/-- The way from the root to the directory of a page tells what requests have in common that share it. -/
theorem pageParts_eq_iff (user : 0 ≤ r.userId) (user' : 0 ≤ r'.userId) :
    (r.layout locker).pageParts = (r'.layout locker).pageParts ↔ r.SharesPage r' := by
  have page : toString r.page = toString r'.page ↔ r.page = r'.page :=
    ⟨toString_inj_of_nat, congrArg toString⟩
  rw [sharesPage_iff user user']
  simp only [Layout.pageParts, layout, List.cons.injEq, and_true, String.append_right_inj, page]

theorem logName_layout (r : Request) (locker : Locker) (recipe : String) :
    ((r.layout locker).logName recipe).toList = "page-".toList ++
      (Text.Numeral.decimal r.page ++ '-' :: (recipe.slug.toList ++ ".log".toList)) := by
  have page : ("page-" ++ (r.layout locker).pageId).slug = "page-" ++ toString r.page :=
    Text.Slug.slug_page r.page
  have hyphen : "-".toList = ['-'] := by decide
  rw [Layout.logName, page]
  simp only [String.toList_append, Text.Numeral.toList_toString, hyphen, List.append_assoc,
    List.cons_append, List.nil_append]

/-- The name of a log tells the page and the slug of the recipe. -/
theorem logName_eq_iff {recipe recipe' : String} :
    (r.layout locker).logName recipe = (r'.layout locker).logName recipe' ↔
      r.page = r'.page ∧ recipe.slug = recipe'.slug := by
  rw [← String.toList_inj, logName_layout, logName_layout]
  constructor
  · intro same
    have digits : ∀ n, '-' ∉ Text.Numeral.decimal n := Text.Numeral.not_mem_decimal rfl
    obtain ⟨page, rest⟩ := Text.cut_at_first (List.append_cancel_left same) (digits _) (digits _)
    exact ⟨Text.Numeral.decimal_inj page, String.toList_inj.mp (List.append_cancel_right rest)⟩
  · rintro ⟨page, slug⟩
    rw [page, slug]

/-- The way from the root to a log tells this of its page, and the slug of its recipe. -/
theorem logParts_eq_iff (user : 0 ≤ r.userId) (user' : 0 ≤ r'.userId) {recipe recipe' : String} :
    (r.layout locker).logParts recipe = (r'.layout locker).logParts recipe' ↔
      r.SharesPage r' ∧ recipe.slug = recipe'.slug := by
  rw [sharesPage_iff user user']
  simp only [Layout.logParts, List.cons.injEq, and_true, true_and, logName_eq_iff]
  simp only [layout, and_assoc]

end Request

/-- All files of a job built from a request lie below the directory of its unit. Two such jobs have one
directory for their pages exactly when they agree in the unit, the scope, the page and, unless they are shared,
in the user; and one log exactly when the slugs of the recipes are the same, too. -/
theorem files_apart {r r' : Request} {book book' : Cookbook} {job job' : Job}
    (built : r.build book = .ok job) (built' : r'.build book' = .ok job') (user : 0 ≤ r.userId)
    (user' : 0 ≤ r'.userId) (plain : Path.IsName r.uuid) (plain' : Path.IsName r'.uuid)
    (locker : Locker) :
    ∃ l l', locker.layout job = .ok l ∧ locker.layout job' = .ok l' ∧
      (∀ recipe, ∀ place ∈ l.places recipe, Path.LiesBelow (Path.join locker.root r.uuid) place) ∧
      (Path.parts (l.pageDir l.root) = Path.parts (l'.pageDir l'.root) ↔ r.SharesPage r') ∧
      ∀ recipe recipe', Path.parts (l.logFile recipe) = Path.parts (l'.logFile recipe') ↔
        r.SharesPage r' ∧ recipe.slug = recipe'.slug := by
  have h := Request.isPlain_layout plain locker
  have h' := Request.isPlain_layout plain' locker
  refine ⟨r.layout locker, r'.layout locker, Request.layout_of_build built locker,
    Request.layout_of_build built' locker, ?_, ?_, ?_⟩
  · exact h.liesBelow_unitDir
  · rw [h.parts_pageDir, h'.parts_pageDir]
    exact (List.append_right_inj _).trans (Request.pageParts_eq_iff user user')
  · intro recipe recipe'
    rw [h.parts_logFile, h'.parts_logFile]
    exact (List.append_right_inj _).trans (Request.logParts_eq_iff user user')

/-! ### Two users of one page -/

namespace Request

/-- A request for one user alone. -/
def supper (username : String) (userId : Int) : Request :=
  { order 1 with scope := .individual, username := username, userId := userId, recipients := [] }

theorem supper_built (username : String) (userId : Int) :
    ∃ job, (supper username userId).build menu = .ok job :=
  ⟨_, rfl⟩

theorem supper_named (username : String) (userId : Int) : Path.IsName (supper username userId).uuid := by
  change Path.IsName "u-1"
  decide

end Request

open Request in
theorem files_apart_supper :
    ∃ job job', (supper "Ann 4" 2).build menu = .ok job ∧ (supper "Ann" 42).build menu = .ok job' ∧
      0 ≤ (supper "Ann 4" 2).userId ∧ 0 ≤ (supper "Ann" 42).userId ∧
      Path.IsName (supper "Ann 4" 2).uuid ∧ Path.IsName (supper "Ann" 42).uuid ∧
      ∃ l l', (⟨"/locker", none⟩ : Locker).layout job = .ok l ∧
        (⟨"/locker", none⟩ : Locker).layout job' = .ok l' ∧
        (∀ recipe, ∀ place ∈ l.places recipe,
          Path.LiesBelow (Path.join "/locker" (supper "Ann 4" 2).uuid) place) ∧
        (Path.parts (l.pageDir l.root) = Path.parts (l'.pageDir l'.root) ↔
          (supper "Ann 4" 2).SharesPage (supper "Ann" 42)) ∧
        ∀ recipe recipe', Path.parts (l.logFile recipe) = Path.parts (l'.logFile recipe') ↔
          (supper "Ann 4" 2).SharesPage (supper "Ann" 42) ∧ recipe.slug = recipe'.slug := by
  obtain ⟨job, built⟩ := supper_built "Ann 4" 2
  obtain ⟨job', built'⟩ := supper_built "Ann" 42
  exact ⟨job, job', built, built', by decide, by decide, supper_named _ _, supper_named _ _,
    files_apart built built' (by decide) (by decide) (supper_named _ _) (supper_named _ _)
      ⟨"/locker", none⟩⟩

/-- An id with a sign runs into the name before it. -/
example : (Request.supper "ann-" 5).ownerName = (Request.supper "ann" (-5)).ownerName := by decide

end Galley
