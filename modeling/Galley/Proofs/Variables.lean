import Galley.Proofs.Results
import Galley.Proofs.Text.Cut
import Galley.Request
/-!
# Variables of a step

In the environment of a step the entries of the cookbook stand first, those of the form behind them and those
of the system last, and the last entry for a name is the one that is read. Main statement: what the system
says about a job is read whatever the form and the cookbook say, and what the form says is read wherever the
system says nothing.
-/
namespace Galley

/-! ### Reading an environment -/

namespace Entry

/-- The variable that an entry is for. -/
def name (entry : String) : String :=
  match entry.cutAt? '=' with
  | some (name, _) => name
  | none => entry

/-- What an entry sets its variable to; one without an equals sign takes the variable away. -/
def value? (entry : String) : Option String :=
  (entry.cutAt? '=').map (·.2)

/-- The entry that sets a variable to a value. -/
def setting (v : String × String) : String := v.1 ++ "=" ++ v.2

variable {v : String × String}

theorem cutAt?_setting (bare : '=' ∉ v.1.toList) : (setting v).cutAt? '=' = some v := by
  have whole : (setting v).toList = v.1.toList ++ '=' :: v.2.toList := by simp [setting]
  rw [String.cutAt?, whole, Text.cutAt?_append bare]
  simp only [Option.map_some, String.ofList_toList]

theorem name_setting (bare : '=' ∉ v.1.toList) : name (setting v) = v.1 := by
  rw [name, cutAt?_setting bare]

theorem value?_setting (bare : '=' ∉ v.1.toList) : value? (setting v) = some v.2 := by
  rw [value?, cutAt?_setting bare, Option.map_some]

end Entry

/-- What is read for a variable: the last entry for it counts. -/
def valueOf? (name : String) (entries : List String) : Option String :=
  (entries.reverse.find? (Entry.name · = name)).bind Entry.value?

/-- A variable that is set and not set again has its value, whatever entries stand before. -/
theorem valueOf?_of_last (free : List String) {vs front behind : List (String × String)}
    {v : String × String} (bare : ∀ w ∈ vs, '=' ∉ w.1.toList) (parts : vs = front ++ v :: behind)
    (last : ∀ w ∈ behind, w.1 ≠ v.1) :
    valueOf? v.1 (free ++ vs.map Entry.setting) = some v.2 := by
  rw [parts, List.forall_mem_append, List.forall_mem_cons] at bare
  obtain ⟨-, own, others⟩ := bare
  have found : (free ++ vs.map Entry.setting).reverse.find? (Entry.name · = v.1) =
      some (Entry.setting v) := by
    refine List.find?_eq_some_iff_append.mpr ⟨by simp [Entry.name_setting own],
      (behind.map Entry.setting).reverse, (free ++ front.map Entry.setting).reverse, by simp [parts], ?_⟩
    intro entry mem
    obtain ⟨w, hw, rfl⟩ := List.mem_map.mp (List.mem_reverse.mp mem)
    simpa [Entry.name_setting (others w hw)] using last w hw
  rw [valueOf?, found, Option.bind_some, Entry.value?_setting own]

namespace Request

variable {r : Request} {book : Cookbook} {job : Job} {recipe : Recipe} {step : Step}

/-! ### What the form says -/

/-- The variable that a field of a form sets. -/
def variableOf (field : String) : String := String.ofList (field.toList.map Char.toUpper)

theorem eq_of_toUpper_eq {c : Char} (h : c.toUpper = '=') : c = '=' := by
  unfold Char.toUpper at h
  split at h
  · next lower =>
    have value := congrArg (·.val.toNat) h
    simp [UInt32.le_iff_toNat_le] at lower value
    omega
  · exact h

theorem bare_variableOf {field : String} (h : isFieldName field = true) :
    '=' ∉ (variableOf field).toList := by
  rw [variableOf, String.toList_ofList, List.mem_map]
  rintro ⟨c, mem, upper⟩
  obtain rfl := eq_of_toUpper_eq upper
  simp only [isFieldName, Bool.and_eq_true, List.all_eq_true] at h
  exact absurd (h.2 _ mem) (by decide)

/-- What a field of a form sets its variable to. -/
def assigned (field : String × String) : String × String := (variableOf field.1, field.2)

theorem formVariables_eq_ok {form : List (String × String)} {vars : List String}
    (h : formVariables form = .ok vars) :
    (∀ field ∈ form, isFieldName field.1 = true) ∧ vars = (form.map assigned).map Entry.setting := by
  induction form generalizing vars with
  | nil =>
    obtain rfl := Except.ok.inj h
    exact ⟨List.forall_mem_nil _, rfl⟩
  | cons field rest ih =>
    rw [formVariables] at h
    split at h
    · next named =>
      obtain ⟨others, hr, rfl⟩ := map_eq_ok.mp h
      obtain ⟨all, rfl⟩ := ih hr
      exact ⟨List.forall_mem_cons.mpr ⟨named, all⟩, rfl⟩
    · exact nomatch h

theorem exists_last_field {form : List (String × String)} {field : String × String} (h : field ∈ form) :
    ∃ before last behind, form = before ++ last :: behind ∧ variableOf last.1 = variableOf field.1 ∧
      ∀ f ∈ behind, variableOf f.1 ≠ variableOf field.1 := by
  have there : (form.reverse.find? (variableOf ·.1 = variableOf field.1)).isSome := by
    rw [List.find?_isSome]
    exact ⟨field, List.mem_reverse.mpr h, decide_eq_true rfl⟩
  obtain ⟨last, found⟩ := Option.isSome_iff_exists.mp there
  obtain ⟨same, behind, before, parts, others⟩ := List.find?_eq_some_iff_append.mp found
  refine ⟨before.reverse, last, behind.reverse, ?_, of_decide_eq_true same, fun f mem => ?_⟩
  · rw [← List.reverse_inj, parts]
    simp
  · simpa using others f (List.mem_reverse.mp mem)

/-! ### What the system says -/

/-- The variables of the system. -/
def systemNames : List String :=
  ["LEMC_SCOPE", "LEMC_USER_ID", "LEMC_USERNAME", "LEMC_UUID", "LEMC_RECIPE_NAME", "LEMC_PAGE_ID",
    "LEMC_HTTP_DOWNLOAD_BASE_URL", "PYTHONUNBUFFERED", "LEMC_STEP_ID", "LEMC_HTML_ID", "LEMC_CSS_ID",
    "LEMC_JS_ID"]

theorem bare_systemNames : ∀ name ∈ systemNames, '=' ∉ name.toList := by decide

theorem nodup_systemNames : systemNames.Nodup := by decide

/-- What the system says to a step of a requested recipe. -/
def told (r : Request) (recipe : Recipe) (step : Step) : List (String × String) :=
  let id := s!"uuid-{r.uuid}-pageid-{r.page}-scope-{r.scope.text}"
  [("LEMC_SCOPE", r.scope.text), ("LEMC_USER_ID", toString r.userId), ("LEMC_USERNAME", r.username),
    ("LEMC_UUID", r.uuid), ("LEMC_RECIPE_NAME", recipe.name.slug), ("LEMC_PAGE_ID", toString r.page),
    ("LEMC_HTTP_DOWNLOAD_BASE_URL", downloadBaseUrl r.uuid r.page r.scope), ("PYTHONUNBUFFERED", "1"),
    ("LEMC_STEP_ID", toString step.step), ("LEMC_HTML_ID", id ++ "-html"), ("LEMC_CSS_ID", id ++ "-style"),
    ("LEMC_JS_ID", id ++ "-script")]

theorem map_fst_told (r : Request) (recipe : Recipe) (step : Step) :
    (r.told recipe step).map (·.1) = systemNames := rfl

theorem mem_systemNames_of_told {v : String × String} (h : v ∈ r.told recipe step) :
    v.1 ∈ systemNames := by
  rw [← map_fst_told r recipe step]
  exact List.mem_map_of_mem h

/-- What is set behind the entries of the cookbook. The system gives the number of the first step before
that of the step. -/
def settings (r : Request) (recipe : Recipe) (step : Step) : List (String × String) :=
  r.form.map assigned ++ ("LEMC_STEP_ID", "1") :: r.told recipe step

theorem systemVariables_append_stepVariables (recipe : Recipe) (uuid : job.uuid = r.uuid)
    (pageId : job.pageId = toString r.page) (scope : job.scope = r.scope.text) :
    r.systemVariables recipe ++ job.stepVariables step =
      (("LEMC_STEP_ID", "1") :: r.told recipe step).map Entry.setting := by
  simp only [Job.stepVariables, uuid, pageId, scope, told, List.map_cons, List.map_nil, Entry.setting,
    ← String.append_assoc]
  rfl

/-- The entries for a step without variables of its own. -/
theorem stepEnv_of_build (built : r.build book = .ok job) (own : step.vars = []) :
    ∃ recipe, book.findRecipe? r.page r.recipe = some recipe ∧
      (∀ v ∈ r.settings recipe step, '=' ∉ v.1.toList) ∧
      job.stepEnv step = (book.environment.private ++ book.environment.public) ++
        (r.settings recipe step).map Entry.setting := by
  unfold Request.build at built
  split at built
  · exact nomatch built
  · next recipe found =>
    obtain ⟨form, read, built⟩ := bind_eq_ok.mp built
    obtain rfl := Except.ok.inj built
    obtain ⟨named, rfl⟩ := formVariables_eq_ok read
    refine ⟨recipe, found, ?_, ?_⟩
    · rw [settings, List.forall_mem_append, List.forall_mem_map, List.forall_mem_cons]
      exact ⟨fun field mem => bare_variableOf (named field mem), by decide,
        fun v mem => bare_systemNames _ (mem_systemNames_of_told mem)⟩
    · rw [Job.stepEnv, own, List.append_nil, List.append_assoc, systemVariables_append_stepVariables,
        settings, List.map_append, List.append_assoc]
      all_goals rfl

/-- What the system says is what is read. -/
theorem valueOf?_told (built : r.build book = .ok job) (own : step.vars = []) :
    ∃ recipe, book.findRecipe? r.page r.recipe = some recipe ∧
      ∀ v ∈ r.told recipe step, valueOf? v.1 (job.stepEnv step) = some v.2 := by
  obtain ⟨recipe, found, bare, env⟩ := stepEnv_of_build built own
  refine ⟨recipe, found, fun v mem => ?_⟩
  obtain ⟨front, behind, parts⟩ := List.append_of_mem mem
  have distinct := nodup_systemNames
  rw [← map_fst_told r recipe step, parts, List.map_append, List.map_cons] at distinct
  have once : v.1 ∉ behind.map (·.1) := (List.nodup_cons.mp (List.nodup_append.mp distinct).2.1).1
  have place : r.settings recipe step =
      (r.form.map assigned ++ ("LEMC_STEP_ID", "1") :: front) ++ v :: behind := by
    rw [settings, parts, List.append_assoc, List.cons_append]
  rw [env]
  exact valueOf?_of_last _ bare place fun w hw same => once (same ▸ List.mem_map_of_mem hw)

/-- What a form says is what is read where the system says nothing: its last field for a variable counts. -/
theorem valueOf?_assigned (built : r.build book = .ok job) (own : step.vars = [])
    {before behind : List (String × String)} {field : String × String}
    (whole : r.form = before ++ field :: behind)
    (last : ∀ f ∈ behind, variableOf f.1 ≠ variableOf field.1)
    (free : variableOf field.1 ∉ systemNames) :
    valueOf? (variableOf field.1) (job.stepEnv step) = some field.2 := by
  obtain ⟨recipe, -, bare, env⟩ := stepEnv_of_build built own
  have parts : r.settings recipe step = before.map assigned ++ assigned field ::
      (behind.map assigned ++ ("LEMC_STEP_ID", "1") :: r.told recipe step) := by
    rw [settings, whole, List.map_append, List.map_cons, List.append_assoc, List.cons_append]
  rw [env]
  refine valueOf?_of_last (v := assigned field) _ bare parts ?_
  rw [List.forall_mem_append, List.forall_mem_map, List.forall_mem_cons]
  refine ⟨last, fun (same : "LEMC_STEP_ID" = variableOf field.1) => free (same ▸ by decide), ?_⟩
  exact fun v mem (same : v.1 = variableOf field.1) => free (same ▸ mem_systemNames_of_told mem)

/-- Whether a step without variables of its own reads what the system says, however the form is filled in and
whatever the cookbook sets, and otherwise reads what the form says. -/
structure Unforged (r : Request) (book : Cookbook) (job : Job) (step : Step) : Prop where
  told : ∃ recipe, book.findRecipe? r.page r.recipe = some recipe ∧
    ∀ v ∈ r.told recipe step, valueOf? v.1 (job.stepEnv step) = some v.2
  same : ∀ form environment job', build { r with form } { book with environment } = .ok job' →
    ∀ name ∈ systemNames, valueOf? name (job'.stepEnv step) = valueOf? name (job.stepEnv step)
  filled : ∀ field ∈ r.form, variableOf field.1 ∉ systemNames →
    ∃ before last behind, r.form = before ++ last :: behind ∧ variableOf last.1 = variableOf field.1 ∧
      (∀ f ∈ behind, variableOf f.1 ≠ variableOf field.1) ∧
      valueOf? (variableOf field.1) (job.stepEnv step) = some last.2

end Request

open Request in
/-- What the system says to a step can be forged neither by a form nor by the variables of a cookbook, and the
last field of a form for any other variable is what is read for it, whatever the cookbook sets. -/
theorem forms_forge_nothing {r : Request} {book : Cookbook} {job : Job} {step : Step}
    (built : r.build book = .ok job) (own : step.vars = []) : r.Unforged book job step where
  told := valueOf?_told built own
  same form environment job' built' name mem := by
    obtain ⟨recipe, found, told⟩ := valueOf?_told built own
    obtain ⟨recipe', found', told'⟩ := valueOf?_told built' own
    obtain rfl : recipe' = recipe := Option.some.inj (found'.symm.trans found)
    rw [← map_fst_told r recipe' step] at mem
    obtain ⟨v, hv, rfl⟩ := List.mem_map.mp mem
    rw [told v hv, told' v hv]
  filled field mem free := by
    obtain ⟨before, last, behind, whole, same, others⟩ := exists_last_field mem
    refine ⟨before, last, behind, whole, same, others, ?_⟩
    rw [← same] at others free ⊢
    exact valueOf?_assigned built own whole others free

/-! ### A form that speaks for others -/

namespace Request

/-- A cookbook that sets variables of the system and one that the form sets, too. -/
def cellar : Cookbook where
  environment := ⟨["REGION=mars", "LEMC_USERNAME=root"], ["LEMC_UUID"]⟩
  pages := [⟨1, "day", [⟨"Soup", "", [], []⟩]⟩]
  wikis := []

/-- A request with these fields in its form. -/
def toast (form : List (String × String)) : Request where
  entity := .app
  uuid := "u-1"
  entityId := "7"
  page := 1
  recipe := "Soup"
  userId := 42
  username := "ann"
  scope := .individual
  form := form
  recipients := []

def forged : List (String × String) :=
  [("lemc_user_id", "1"), ("region", "eu"), ("Region", "us=east"), ("LEMC_USERNAME", "root")]

def serving : Step where
  step := 2
  name := "serve"
  image := "alpine"
  registryAuth := ""
  entrypoint := []
  command := []
  env := []
  environment := []
  trigger := "now"
  timeout := ""

end Request

open Request in
theorem forms_forge_nothing_toast : ∃ job, (toast forged).build cellar = .ok job ∧ serving.vars = [] ∧
    (toast forged).Unforged cellar job serving ∧
    valueOf? "LEMC_USER_ID" (job.stepEnv serving) = some "42" ∧
    valueOf? "REGION" (job.stepEnv serving) = some "us=east" := by
  have own : serving.vars = [] := rfl
  refine ⟨_, rfl, own, forms_forge_nothing rfl own, ?_, ?_⟩
  · decide
  · decide

end Galley
