import Galley.Job.Key
import Galley.Proofs.Text.Cut
/-!
# What a key identifies

A key is a row of parts between brackets: what the job belongs to, its scope, the id that the scope asks for,
the page, the unit and the queue, each free text behind a label of its own. Where no id closes a bracket the
parts can be read off the key again. Main statement: two jobs then have one key exactly when they are in one
queue and agree in all that the parts name, and nothing else of a job matters.
-/
namespace Galley

namespace Job

variable {job job' : Job} {queue queue' : QueueName} {key key' : String} {scope scope' : Scope}

/-- What a job belongs to: an app if it has the id of one, else a cookbook. -/
def kind (job : Job) : Entity :=
  if job.appId ≠ "" then .app else .cookbook

/-- The id of what a job belongs to. -/
def entityId (job : Job) : String :=
  if job.appId ≠ "" then job.appId else job.cookbookId

theorem owner?_eq {kind : Entity} {id : String} (h : job.owner? = some (kind, id)) :
    kind = job.kind ∧ id = job.entityId := by
  unfold owner? at h
  unfold Job.kind entityId
  split at h
  · next app =>
    rw [if_pos app, if_pos app]
    exact Prod.mk.inj (Option.some.inj h.symm)
  · next app =>
    rw [if_neg app, if_neg app]
    split at h
    · exact Prod.mk.inj (Option.some.inj h.symm)
    · exact nomatch h

/-- The id that tells jobs of one scope apart, behind its label. -/
def keyId (job : Job) : Scope → String
  | .shared => job.kind.text ++ "id:" ++ job.entityId
  | .individual => "userid:" ++ job.userId

/-- The parts of a job's key in their order. -/
def keyParts (job : Job) (scope : Scope) (queue : QueueName) : List String :=
  [job.kind.text, scope.text, job.keyId scope, "page:" ++ job.pageId, "uuid:" ++ job.uuid,
    "queue:" ++ queue.text]

theorem keyTail_toList (job : Job) (queue : QueueName) : (job.keyTail queue).toList =
    Text.bracketed ["page:" ++ job.pageId, "uuid:" ++ job.uuid, "queue:" ++ queue.text] := by
  have text : job.keyTail queue =
      "[page:" ++ job.pageId ++ "][uuid:" ++ job.uuid ++ "][queue:" ++ queue.text ++ "]" := rfl
  simp [text, Text.bracketed]

/-- A key is the row of its parts. -/
theorem exists_key_toList (h : job.key queue = .ok key) : ∃ scope, job.parsedScope = .ok scope ∧
    key.toList = Text.bracketed (job.keyParts scope queue) := by
  unfold Job.key at h
  split at h
  · exact nomatch h
  next scope parsed =>
  split at h
  · exact nomatch h
  next kind id owner =>
  obtain ⟨rfl, rfl⟩ := owner?_eq owner
  refine ⟨scope, parsed, ?_⟩
  cases scope with
  | shared =>
    have text : key = "[" ++ job.kind.text ++ "][shared][" ++ job.kind.text ++ "id:" ++ job.entityId ++
      "]" ++ job.keyTail queue := (Except.ok.inj h).symm
    simp [text, keyTail_toList, keyParts, keyId, Text.bracketed, Scope.text]
  | individual =>
    have text : key = "[" ++ job.kind.text ++ "][individual][userid:" ++ job.userId ++ "]" ++
      job.keyTail queue := (Except.ok.inj h).symm
    simp [text, keyTail_toList, keyParts, keyId, Text.bracketed, Scope.text]

/-- Whether none of the free texts in a job's keys closes a bracket. -/
structure IsUnbracketed (job : Job) : Prop where
  appId : ']' ∉ job.appId.toList
  cookbookId : ']' ∉ job.cookbookId.toList
  userId : ']' ∉ job.userId.toList
  pageId : ']' ∉ job.pageId.toList
  uuid : ']' ∉ job.uuid.toList

theorem IsUnbracketed.keyParts (h : job.IsUnbracketed) (scope : Scope) (queue : QueueName) :
    ∀ part ∈ job.keyParts scope queue, ']' ∉ part.toList := by
  have kind : ']' ∉ job.kind.text.toList := by cases job.kind <;> decide
  have entity : ']' ∉ job.entityId.toList := by
    unfold entityId
    split
    · exact h.appId
    · exact h.cookbookId
  have id : ']' ∉ (job.keyId scope).toList := by
    cases scope with
    | shared => simp [keyId, kind, entity]
    | individual => simp [keyId, h.userId]
  have name : ']' ∉ scope.text.toList := by cases scope <;> decide
  have last : ']' ∉ queue.text.toList := by cases queue <;> decide
  simp [Job.keyParts, kind, name, id, h.pageId, h.uuid, last]

/-- Whether two jobs agree in all that their keys name. -/
structure SameSubmission (job job' : Job) : Prop where
  scope : job.scope = job'.scope
  kind : job.kind = job'.kind
  pageId : job.pageId = job'.pageId
  uuid : job.uuid = job'.uuid
  entity : job.scope = "shared" → job.entityId = job'.entityId
  user : job.scope = "individual" → job.userId = job'.userId

/-- The part with the id tells just the id that the scope asks for. -/
theorem keyId_eq_iff (kind : job.kind = job'.kind) : job.keyId scope = job'.keyId scope ↔
    (scope = .shared → job.entityId = job'.entityId) ∧
      (scope = .individual → job.userId = job'.userId) := by
  cases scope with
  | shared => simp [keyId, kind]
  | individual => simp [keyId]

theorem keyParts_eq_iff : job.keyParts scope queue = job'.keyParts scope' queue' ↔
    queue = queue' ∧ scope = scope' ∧ job.kind = job'.kind ∧ job.pageId = job'.pageId ∧
      job.uuid = job'.uuid ∧ job.keyId scope = job'.keyId scope' := by
  constructor
  · intro same
    simp only [keyParts, List.cons.injEq, String.append_right_inj, and_true] at same
    obtain ⟨kind, name, id, pageId, uuid, last⟩ := same
    exact ⟨QueueName.text_injective last, Scope.text_injective name, Entity.text_injective kind, pageId,
      uuid, id⟩
  · rintro ⟨rfl, rfl, kind, pageId, uuid, id⟩
    rw [keyParts, keyParts, kind, pageId, uuid, id]

/-- For jobs whose scopes are read, agreeing in what the keys name is having the same parts but the queue. -/
theorem sameSubmission_iff (parsed : job.parsedScope = .ok scope) (parsed' : job'.parsedScope = .ok scope') :
    job.SameSubmission job' ↔ scope = scope' ∧ job.kind = job'.kind ∧ job.pageId = job'.pageId ∧
      job.uuid = job'.uuid ∧ job.keyId scope = job'.keyId scope' := by
  have text : job.scope = scope.text := Scope.text_of_parse parsed
  have text' : job'.scope = scope'.text := Scope.text_of_parse parsed'
  have shared : job.scope = "shared" ↔ scope = .shared := by
    rw [text]
    cases scope <;> decide
  have individual : job.scope = "individual" ↔ scope = .individual := by
    rw [text]
    cases scope <;> decide
  constructor
  · intro h
    obtain rfl : scope = scope' := by
      apply Scope.text_injective
      rw [← text, ← text', h.scope]
    refine ⟨rfl, h.kind, h.pageId, h.uuid, ?_⟩
    rw [keyId_eq_iff h.kind]
    exact ⟨fun own => h.entity (shared.mpr own), fun own => h.user (individual.mpr own)⟩
  · rintro ⟨rfl, kind, pageId, uuid, id⟩
    rw [keyId_eq_iff kind] at id
    exact ⟨text.trans text'.symm, kind, pageId, uuid, fun own => id.1 (shared.mp own),
      fun own => id.2 (individual.mp own)⟩

/-- Where no id closes a bracket, two jobs have one key exactly when they are in one queue and agree in their
scope, in what they belong to, in the page and the unit, and in the id that the scope asks for. -/
theorem key_eq_iff (exists_key : job.key queue = .ok key) (exists_key' : job'.key queue' = .ok key')
    (free : job.IsUnbracketed) (free' : job'.IsUnbracketed) :
    key = key' ↔ queue = queue' ∧ job.SameSubmission job' := by
  obtain ⟨scope, parsed, row⟩ := exists_key_toList exists_key
  obtain ⟨scope', parsed', row'⟩ := exists_key_toList exists_key'
  have parts : key = key' ↔ job.keyParts scope queue = job'.keyParts scope' queue' := by
    rw [← String.toList_inj, row, row']
    constructor
    · intro same
      exact Text.bracketed_inj (free.keyParts scope queue) (free'.keyParts scope' queue') same
    · intro same
      rw [same]
  rw [parts, keyParts_eq_iff, sameSubmission_iff parsed parsed']

/-- An order of one user in some app. -/
def tasting (appId pageId uuid : String) : Job where
  entity := .app
  uuid := uuid
  cookbookId := "9"
  appId := appId
  userId := "42"
  username := "ann"
  pageId := pageId
  stepId := ""
  scope := "individual"
  env := []
  containerTimeoutSecs := 0
  recipe := ⟨"soup", "", [], []⟩
  recipients := []

/-- Two apps' orders of one user, for a page and a unit that the apps share. -/
theorem key_eq_iff_tasting :
    (tasting "7" "3" "u-1").key .now =
        .ok "[app][individual][userid:42][page:3][uuid:u-1][queue:now]" ∧
      (tasting "8[" "3" "u-1").key .now =
        .ok "[app][individual][userid:42][page:3][uuid:u-1][queue:now]" ∧
      (tasting "7" "3" "u-1").IsUnbracketed ∧ (tasting "8[" "3" "u-1").IsUnbracketed ∧
      ("[app][individual][userid:42][page:3][uuid:u-1][queue:now]" =
          "[app][individual][userid:42][page:3][uuid:u-1][queue:now]" ↔
        QueueName.now = .now ∧ (tasting "7" "3" "u-1").SameSubmission (tasting "8[" "3" "u-1")) := by
  have free : (tasting "7" "3" "u-1").IsUnbracketed := by constructor <;> decide
  have free' : (tasting "8[" "3" "u-1").IsUnbracketed := by constructor <;> decide
  exact ⟨rfl, rfl, free, free', key_eq_iff rfl rfl free free'⟩

/-- A page that closes its bracket runs into the unit. -/
example : (tasting "7" "1][uuid:2" "3").key .now = (tasting "7" "1" "2][uuid:3").key .now := rfl

end Job

end Galley
