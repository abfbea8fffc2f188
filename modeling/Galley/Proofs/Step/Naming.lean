import Galley.Container.Scripted
import Galley.Proofs.Queue.Proper
import Galley.Proofs.Text.Cut
import Galley.Proofs.Text.Numeral
import Galley.Step.Run
/-!
# Names and labels of containers

A container has a name, which the engine gives once, and labels, by which what an earlier run left is
removed before the name is given again. The name is made of the slug of the recipe and of the owner, and
the labels of the recipe and the user as they are. Main statement: where two steps have one name, they have
the same labels, so that the first one's container makes way for the second, exactly when their jobs agree
in the unit, the page, the recipe and the user.
-/
namespace Galley

/-- Whether two jobs agree in all that the labels of their containers take from them. -/
structure Job.Matches (job job' : Job) : Prop where
  uuid : job.uuid = job'.uuid
  pageId : job.pageId = job'.pageId
  recipe : job.recipe.name = job'.recipe.name
  userId : job.userId = job'.userId

namespace Layout

variable {locker : Locker} {job job' : Job} {l l' : Layout} {step step' : Step}

/-! ### Names -/

/-- What a name has behind its recipe. -/
def nameEnd (l : Layout) (step : Step) : List Char :=
  Text.Numeral.decimal step.step ++ '-' :: ("scope-".toList ++
    (l.scope.text.toList ++ ("-username-".toList ++ l.owner.toList)))

theorem containerName_toList (l : Layout) (recipe : String) (step : Step) :
    (l.containerName recipe step).toList =
      ("uuid-" ++ l.uuid ++ "-page-" ++ l.pageId ++ "-recipe-" ++ recipe.slug ++ "-step-").toList ++
        l.nameEnd step := by
  have whole : l.containerName recipe step =
      "uuid-" ++ l.uuid ++ "-page-" ++ l.pageId ++ "-recipe-" ++ recipe.slug ++ "-step-" ++
        toString step.step ++ ("-scope-" ++ l.scope.text ++ "-username-" ++ l.owner) := rfl
  have cut : "-scope-" = "-" ++ "scope-" := by decide
  rw [whole, cut]
  simp only [nameEnd, String.toList_append, Text.Numeral.toList_toString, List.append_assoc]
  rfl

/-- The end of a name tells the step, the scope and the owner. -/
theorem nameEnd_inj (same : l.nameEnd step = l'.nameEnd step') :
    step.step = step'.step ∧ l.scope = l'.scope ∧ l.owner = l'.owner := by
  have digits : ∀ n, '-' ∉ Text.Numeral.decimal n := Text.Numeral.not_mem_decimal rfl
  obtain ⟨numbers, rest⟩ := Text.cut_at_first same (digits _) (digits _)
  have rest := List.append_cancel_left rest
  have scope : l.scope = l'.scope := by
    cases hs : l.scope <;> cases hs' : l'.scope <;> first | rfl | simp [hs, hs', Scope.text] at rest
  rw [scope] at rest
  have owner := List.append_cancel_left (List.append_cancel_left rest)
  exact ⟨Text.Numeral.decimal_inj numbers, scope, String.toList_inj.mp owner⟩

/-- What a layout takes from its job. -/
structure Fields (l : Layout) (job : Job) : Prop where
  uuid : l.uuid = job.uuid
  pageId : l.pageId = job.pageId
  owner : l.owner = job.ownerName l.scope

theorem fields_of_layout (laid : locker.layout job = .ok l) : l.Fields job := by
  obtain ⟨scope, -, laid⟩ := bind_eq_ok.mp laid
  obtain rfl := Except.ok.inj laid
  exact ⟨rfl, rfl, rfl⟩

/-- Where two steps have one name and their jobs agree in the unit, the page and the recipe, the steps have
one number and one owner. -/
theorem eq_of_containerName (laid : locker.layout job = .ok l) (laid' : locker.layout job' = .ok l')
    (uuid : job'.uuid = job.uuid) (pageId : job'.pageId = job.pageId)
    (recipe : job'.recipe.name = job.recipe.name)
    (same : l'.containerName job'.recipe.name step' = l.containerName job.recipe.name step) :
    step'.step = step.step ∧ l'.scope = l.scope ∧ l'.owner = l.owner := by
  have fields := fields_of_layout laid
  have fields' := fields_of_layout laid'
  have names := congrArg String.toList same
  rw [containerName_toList, containerName_toList, fields.uuid, fields.pageId, fields'.uuid,
    fields'.pageId, uuid, pageId, recipe] at names
  exact nameEnd_inj (List.append_cancel_left names)

/-! ### Labels -/

/-- Where two steps have one name, they have the same labels exactly when their jobs agree. -/
theorem labels_eq_iff (laid : locker.layout job = .ok l) (laid' : locker.layout job' = .ok l')
    (same : l'.containerName job'.recipe.name step' = l.containerName job.recipe.name step) :
    l'.labels job' step' = l.labels job step ↔ job'.Matches job := by
  constructor
  · intro labels
    simp only [Layout.labels, List.cons.injEq, Prod.mk.injEq, true_and, and_true] at labels
    obtain ⟨pageId, recipe, -, -, userId, uuid⟩ := labels
    exact ⟨uuid, pageId, recipe, userId⟩
  · intro h
    obtain ⟨number, -, owner⟩ :=
      eq_of_containerName laid laid' h.uuid h.pageId h.recipe same
    rw [Layout.labels, Layout.labels, h.uuid, h.pageId, h.recipe, h.userId, number, owner]

/-- A container carries the labels of a step only if these are its own. -/
theorem carries_iff {c : ScriptedContainer} (own : c.spec.labels = l'.labels job' step') :
    ScriptedEngine.carries (l.labels job step) c = true ↔
      l'.labels job' step' = l.labels job step := by
  rw [ScriptedEngine.carries, own]
  constructor
  · intro all
    obtain ⟨pageId, recipe, number, owner, userId, uuid⟩ : job.pageId = job'.pageId ∧
        job.recipe.name = job'.recipe.name ∧ toString step.step = toString step'.step ∧
        l.owner = l'.owner ∧ job.userId = job'.userId ∧ job.uuid = job'.uuid := by
      simpa [Layout.labels] using all
    rw [Layout.labels, Layout.labels, pageId, recipe, number, owner, userId, uuid]
  · intro same
    rw [same, List.all_eq_true]
    exact fun label mem => List.contains_iff_mem.mpr mem

/-! ### Users -/

/-- The hyphen before a user's id is the last one in the owner of a job of its own, where ids have none. -/
theorem owner_inj {name name' id id' : String} (plain : '-' ∉ id.toList) (plain' : '-' ∉ id'.toList)
    (same : name ++ "-" ++ id = name' ++ "-" ++ id') : name = name' ∧ id = id' := by
  have cut (name id : String) : (name ++ "-" ++ id).toList = name.toList ++ '-' :: id.toList := by simp
  have chars := congrArg String.toList same
  rw [cut, cut] at chars
  obtain ⟨names, ids⟩ := Text.cut_at_last chars plain plain'
  exact ⟨String.toList_inj.mp names, String.toList_inj.mp ids⟩

/-- Jobs that each have a scope of their own and users whose ids have no hyphen agree in the user where they
agree in the rest. -/
theorem matches_iff_of_individual (laid : locker.layout job = .ok l)
    (laid' : locker.layout job' = .ok l') (individual : l.scope = .individual)
    (plain : '-' ∉ job.userId.toList) (plain' : '-' ∉ job'.userId.toList)
    (same : l'.containerName job'.recipe.name step' = l.containerName job.recipe.name step) :
    job'.Matches job ↔ job'.uuid = job.uuid ∧ job'.pageId = job.pageId ∧
      job'.recipe.name = job.recipe.name := by
  refine ⟨fun h => ⟨h.uuid, h.pageId, h.recipe⟩, fun ⟨uuid, pageId, recipe⟩ => ?_⟩
  obtain ⟨-, scope, owner⟩ := eq_of_containerName laid laid' uuid pageId recipe same
  rw [(fields_of_layout laid).owner, (fields_of_layout laid').owner, scope, individual] at owner
  exact ⟨uuid, pageId, recipe, (owner_inj plain' plain owner).2⟩

end Layout

/-! ### What is removed before a step runs -/

namespace ScriptedEngine

/-- Whether a container is the only one that holds a name. -/
structure HeldBy (e : ScriptedEngine) (name : String) (c : ScriptedContainer) : Prop where
  mem : c ∈ e.containers
  live : c.removed = false
  named : c.spec.name = name
  unique : ∀ c' ∈ e.containers, c'.removed = false → c'.spec.name = name → c' = c

/-- Whether a name can be given to a new container. -/
def IsFree (e : ScriptedEngine) (name : String) : Prop :=
  ∀ c ∈ e.containers, c.spec.name = name → c.removed = true

/-- A container gives its name up to the removal of labels exactly when it carries them. -/
theorem HeldBy.isFree_iff {e : ScriptedEngine} {name : String} {c : ScriptedContainer}
    (h : e.HeldBy name c) (instant : Nat) (labels : Labels) :
    (e.obey instant (.removeLabeled labels)).2.IsFree name ↔ carries labels c = true := by
  let swept (c' : ScriptedContainer) : ScriptedContainer :=
    if carries labels c' && !c'.removed then { c' with removed := true, stopped := true } else c'
  have spec (c' : ScriptedContainer) : (swept c').spec = c'.spec := by
    dsimp only [swept]
    split <;> rfl
  change (∀ c' ∈ e.containers.map swept, c'.spec.name = name → c'.removed = true) ↔ _
  rw [List.forall_mem_map]
  constructor
  · intro free
    have own := free c h.mem ((congrArg (·.name) (spec c)).trans h.named)
    by_contra spared
    dsimp only [swept] at own
    rw [if_neg (by simp [spared]), h.live] at own
    exact Bool.false_ne_true own
  · intro carried c' hc' held
    rw [spec] at held
    dsimp only [swept]
    cases old : c'.removed with
    | true => simp [old]
    | false =>
      obtain rfl := h.unique c' hc' old held
      simp [carried]

end ScriptedEngine

/-- A job that was accepted has a layout. -/
theorem Job.exists_layout_of_accepted {job : Job} (accepted : job.validateSubmission = .ok ())
    (locker : Locker) : ∃ l, locker.layout job = .ok l := by
  have valid := (Job.validateSubmission_iff.mp accepted).1
  unfold Job.validate at valid
  obtain ⟨⟨⟩, -, valid⟩ := bind_eq_ok.mp valid
  obtain ⟨⟨⟩, -, valid⟩ := bind_eq_ok.mp valid
  obtain ⟨⟨⟩, -, valid⟩ := bind_eq_ok.mp valid
  obtain ⟨⟨⟩, -, valid⟩ := bind_eq_ok.mp valid
  unfold Locker.layout
  split at valid
  · next scope parsed =>
    rw [parsed]
    exact ⟨_, rfl⟩
  · exact nomatch valid

/-- Of two accepted jobs whose steps have one name for their containers, the steps have the same labels
exactly when the jobs agree in the unit, the page, the recipe and the user; and exactly then the removal
before the one's step frees the name of a container that the other's step left. -/
theorem cleanup_frees_name_iff {job job' : Job} (accepted : job.validateSubmission = .ok ())
    (accepted' : job'.validateSubmission = .ok ()) (locker : Locker) (step step' : Step) :
    ∃ l l', locker.layout job = .ok l ∧ locker.layout job' = .ok l' ∧
      (l'.containerName job'.recipe.name step' = l.containerName job.recipe.name step →
        (l'.labels job' step' = l.labels job step ↔ job'.Matches job) ∧
        ∀ (e : ScriptedEngine) (c : ScriptedContainer) (image : String) (timeout : Duration)
          (instant : Nat), c.spec = StepRun.spec job' step' l' image timeout →
          e.HeldBy (l.containerName job.recipe.name step) c →
          ((e.obey instant (.removeLabeled (l.labels job step))).2.IsFree
            (l.containerName job.recipe.name step) ↔ job'.Matches job)) := by
  obtain ⟨l, laid⟩ := Job.exists_layout_of_accepted accepted locker
  obtain ⟨l', laid'⟩ := Job.exists_layout_of_accepted accepted' locker
  refine ⟨l, l', laid, laid', fun same => ?_⟩
  have labels := Layout.labels_eq_iff laid laid' same
  refine ⟨labels, fun e c image timeout instant made held => ?_⟩
  have own : c.spec.labels = l'.labels job' step' := by
    rw [made]
    rfl
  rw [held.isFree_iff, Layout.carries_iff own, labels]

/-! ### A page that two users share -/

namespace Job

def serving : Step := ⟨1, "serve", "plates", "", [], [], [], [], "now", ""⟩

/-- A recipe for everybody that one of its users submits. -/
def potluck (userId : String) : Job where
  entity := .app
  uuid := "u-1"
  cookbookId := ""
  appId := "7"
  userId := userId
  username := "ann"
  pageId := "1"
  stepId := ""
  scope := "shared"
  env := []
  containerTimeoutSecs := 0
  recipe := ⟨"potluck", "", [], [serving]⟩
  recipients := [42, 43]

theorem potluck_accepted : (potluck "42").validateSubmission = .ok () ∧
    (potluck "43").validateSubmission = .ok () := by decide

/-- The layout of all of them. -/
def table : Layout := ⟨"/", "/", "u-1", "1", .shared, "shared-user"⟩

theorem layout_potluck (userId : String) : (⟨"/", none⟩ : Locker).layout (potluck userId) = .ok table :=
  rfl

theorem not_matches_potluck : ¬ (potluck "42").Matches (potluck "43") :=
  fun h => absurd h.userId (by decide)

/-- The container engine when the step of the first user was left running. -/
def dining : ScriptedEngine :=
  (ScriptedEngine.empty.obey 0
    (.create (StepRun.spec (potluck "42") serving table "plates" standardStepTimeout))).2

theorem dining_heldBy : ∃ c : ScriptedContainer,
    c.spec = StepRun.spec (potluck "42") serving table "plates" standardStepTimeout ∧
      dining.HeldBy (table.containerName "potluck" serving) c := by
  refine ⟨_, rfl, List.mem_singleton_self _, rfl, rfl, fun c' hc' _ _ => List.mem_singleton.mp hc'⟩

end Job

open Job in
theorem cleanup_frees_name_iff_potluck :
    (potluck "43").validateSubmission = .ok () ∧ (potluck "42").validateSubmission = .ok () ∧
      ∃ l l', (⟨"/", none⟩ : Locker).layout (potluck "43") = .ok l ∧
        (⟨"/", none⟩ : Locker).layout (potluck "42") = .ok l' ∧
        (l'.containerName "potluck" serving = l.containerName "potluck" serving →
          (l'.labels (potluck "42") serving = l.labels (potluck "43") serving ↔
            (potluck "42").Matches (potluck "43")) ∧
          ∀ (e : ScriptedEngine) (c : ScriptedContainer) (image : String) (timeout : Duration)
            (instant : Nat), c.spec = StepRun.spec (potluck "42") serving l' image timeout →
            e.HeldBy (l.containerName "potluck" serving) c →
            ((e.obey instant (.removeLabeled (l.labels (potluck "43") serving))).2.IsFree
              (l.containerName "potluck" serving) ↔ (potluck "42").Matches (potluck "43"))) :=
  ⟨potluck_accepted.2, potluck_accepted.1,
    cleanup_frees_name_iff potluck_accepted.2 potluck_accepted.1 ⟨"/", none⟩ serving serving⟩

open Job in
/-- The container that one user's step of a shared recipe left holds the name of another user's step, and the
removal before that step does not touch it. -/
theorem exists_name_kept :
    (potluck "42").validateSubmission = .ok () ∧ (potluck "43").validateSubmission = .ok () ∧
      ∃ l l', (⟨"/", none⟩ : Locker).layout (potluck "43") = .ok l ∧
        (⟨"/", none⟩ : Locker).layout (potluck "42") = .ok l' ∧
        l'.containerName "potluck" serving = l.containerName "potluck" serving ∧
        l'.labels (potluck "42") serving ≠ l.labels (potluck "43") serving ∧
        ∃ (e : ScriptedEngine) (c : ScriptedContainer),
          c.spec = StepRun.spec (potluck "42") serving l' "plates" standardStepTimeout ∧
          e.HeldBy (l.containerName "potluck" serving) c ∧
          ¬ (e.obey 0 (.removeLabeled (l.labels (potluck "43") serving))).2.IsFree
            (l.containerName "potluck" serving) := by
  have other : table.labels (potluck "42") serving ≠ table.labels (potluck "43") serving := fun same =>
    not_matches_potluck ((Layout.labels_eq_iff (layout_potluck "43") (layout_potluck "42") rfl).mp same)
  obtain ⟨c, made, held⟩ := dining_heldBy
  refine ⟨potluck_accepted.1, potluck_accepted.2, table, table, rfl, rfl, rfl, other, dining, c, made,
    held, ?_⟩
  rw [held.isFree_iff, Layout.carries_iff (congrArg (·.labels) made)]
  exact other

end Galley
