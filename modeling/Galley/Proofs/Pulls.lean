import Galley.Proofs.Executability
import Galley.Proofs.Process.Frame
import Galley.Proofs.Process.Surroundings
import Mathlib.Data.List.Basic
import Mathlib.Data.Set.Insert
/-!
# Pulls of missing images

Before a job is accepted, those of its images that an engine does not have are pulled, one step after the
other. An image that could not be pulled is remembered, and one that could is there for the steps behind.
Main statement: a submission tells of missing images exactly when some can neither be found nor pulled, and
then of just those, in the order in which the steps use them; it asks for every missing image once and for no
other one.
-/
namespace Galley

open Process

/-! ### What an engine has in stock -/

/-- Which images an engine does not have and which it cannot pull, with those that it was asked to pull. -/
structure Stock where
  missing : Set String
  unpullable : Set String
  asked : List String

/-- Whether the answer to an action shows that an engine can be reached, or what it has in stock. -/
def Action.ShowsStock : Action → Prop
  | .container .ping => True
  | .container (.imageExists _) => True
  | .container (.pull _ _) => True
  | _ => False

namespace Stock

/-- How an engine answers that can be reached and keeps the images that it has. What else an action is
answered with, by the engine or by others, does not matter. -/
inductive Answers : Stock → (a : Action) → a.Answer → Stock → Prop
  | ping (s : Stock) : Answers s (.container .ping) (some (.ok ())) s
  | present {s : Stock} {image : String} (h : image ∉ s.missing) :
      Answers s (.container (.imageExists image)) (.ok true) s
  | absent {s : Stock} {image : String} (h : image ∈ s.missing) :
      Answers s (.container (.imageExists image)) (.ok false) s
  | refused {s : Stock} {image : String} (h : image ∈ s.unpullable) (auth : Option Image.Auth)
      (e : ContainerError) : Answers s (.container (.pull image auth)) (.error e)
        { s with asked := s.asked ++ [image] }
  | pulled {s : Stock} {image : String} (h : image ∉ s.unpullable) (auth : Option Image.Auth) :
      Answers s (.container (.pull image auth)) (.ok ())
        { s with missing := s.missing \ {image}, asked := s.asked ++ [image] }
  | aside {a : Action} (h : ¬ a.ShowsStock) (r : a.Answer) (s : Stock) : Answers s a r s

variable {s s' : Stock} {image : String}

theorem Answers.of_ping {r : Option (Except ContainerError Unit)}
    (h : Answers s (.container .ping) r s') : r = some (.ok ()) ∧ s' = s := by
  cases h with
  | ping => exact ⟨rfl, rfl⟩
  | aside shows => exact absurd trivial shows

theorem Answers.of_imageExists {r : Except ContainerError Bool}
    (h : Answers s (.container (.imageExists image)) r s') :
    (image ∉ s.missing ∧ r = .ok true ∨ image ∈ s.missing ∧ r = .ok false) ∧ s' = s := by
  cases h with
  | present there => exact ⟨.inl ⟨there, rfl⟩, rfl⟩
  | absent gone => exact ⟨.inr ⟨gone, rfl⟩, rfl⟩
  | aside shows => exact absurd trivial shows

theorem Answers.of_pull {auth : Option Image.Auth} {r : Except ContainerError Unit}
    (h : Answers s (.container (.pull image auth)) r s') :
    (image ∈ s.unpullable ∧ (∃ e, r = .error e) ∧ s' = { s with asked := s.asked ++ [image] }) ∨
      (image ∉ s.unpullable ∧ r = .ok () ∧
        s' = { s with missing := s.missing \ {image}, asked := s.asked ++ [image] }) := by
  cases h with
  | refused never _ e => exact .inl ⟨never, ⟨e, rfl⟩, rfl⟩
  | pulled can => exact .inr ⟨can, rfl, rfl⟩
  | aside shows => exact absurd trivial shows

theorem Answers.of_aside {a : Action} {r : a.Answer} (h : Answers s a r s') (other : ¬ a.ShowsStock) :
    s' = s := by
  cases h with
  | ping | present | absent | refused | pulled => exact absurd trivial other
  | aside => rfl

end Stock

/-! ### Images in the order of their use -/

/-- The images of some steps, as they are looked for. -/
def stepImages (steps : List Step) : List String := steps.map (·.image.trimBlanks)

/-- Whether `found` has those of some images that are of a kind, each of them once, in the order in which they
are first used. -/
structure FirstUses (kind : String → Prop) (images found : List String) : Prop where
  mem_iff : ∀ image, image ∈ found ↔ image ∈ images ∧ kind image
  ordered : found.Pairwise fun image image' => images.idxOf image < images.idxOf image'

namespace FirstUses

variable {kind : String → Prop} {images found : List String} {image : String}

theorem nil (kind : String → Prop) : FirstUses kind [] [] where
  mem_iff _ := by simp
  ordered := .nil

theorem nodup (h : FirstUses kind images found) : found.Nodup :=
  h.ordered.imp fun {a b} (before : images.idxOf a < images.idxOf b) (same : a = b) =>
    Nat.lt_irrefl _ (same ▸ before)

theorem ordered_snoc (h : FirstUses kind images found) (image : String) :
    found.Pairwise fun a b => (images ++ [image]).idxOf a < (images ++ [image]).idxOf b := by
  refine h.ordered.imp_of_mem fun {a b} ha hb before => ?_
  rwa [List.idxOf_append_of_mem ((h.mem_iff a).mp ha).1, List.idxOf_append_of_mem ((h.mem_iff b).mp hb).1]

/-- An image that is of another kind or was found before is not found now. -/
theorem skip (h : FirstUses kind images found) (known : kind image → image ∈ images) :
    FirstUses kind (images ++ [image]) found where
  mem_iff image' := by
    rw [h.mem_iff, List.mem_append, List.mem_singleton]
    constructor
    · exact fun ⟨mem, is⟩ => ⟨.inl mem, is⟩
    · rintro ⟨mem | rfl, is⟩
      · exact ⟨mem, is⟩
      · exact ⟨known is, is⟩
  ordered := h.ordered_snoc image

theorem snoc (h : FirstUses kind images found) (new : image ∉ images) (is : kind image) :
    FirstUses kind (images ++ [image]) (found ++ [image]) where
  mem_iff image' := by
    rw [List.mem_append, h.mem_iff, List.mem_append, List.mem_singleton]
    constructor
    · rintro (⟨mem, is'⟩ | rfl)
      · exact ⟨.inl mem, is'⟩
      · exact ⟨.inr rfl, is⟩
    · rintro ⟨mem | rfl, is'⟩
      · exact .inl ⟨mem, is'⟩
      · exact .inr rfl
  ordered := by
    rw [List.pairwise_append]
    refine ⟨h.ordered_snoc image, List.pairwise_singleton _ _, fun a ha b hb => ?_⟩
    obtain rfl := List.mem_singleton.mp hb
    have mem := ((h.mem_iff a).mp ha).1
    rw [List.idxOf_append_of_mem mem, List.idxOf_append_of_notMem new]
    exact Nat.lt_add_right _ (List.idxOf_lt_length_of_mem mem)

end FirstUses

/-! ### Pulls -/

def SubmitError.IsUserVisible : SubmitError → Prop
  | .userVisible _ => True
  | _ => False

namespace Submission

/-- What the pulls for some images have come to: which images are missing now, which were pulled, and which
could not be. -/
structure Pulled (start : Stock) (images unpulled : List String) (s : Stock) : Prop where
  unpullable : s.unpullable = start.unpullable
  missing : ∀ image, image ∈ s.missing ↔
    image ∈ start.missing ∧ (image ∈ images → image ∈ start.unpullable)
  asked : ∃ pulls, s.asked = start.asked ++ pulls ∧ FirstUses (· ∈ start.missing) images pulls
  unpulled : FirstUses (fun image => image ∈ start.missing ∧ image ∈ start.unpullable) images unpulled

namespace Pulled

variable {start s : Stock} {images unpulled : List String} {image : String}

theorem none (s : Stock) : Pulled s [] [] s where
  unpullable := rfl
  missing image := by simp
  asked := ⟨[], (List.append_nil _).symm, .nil _⟩
  unpulled := .nil _

/-- An image that was there from the start or has been asked for. -/
theorem skip (h : Pulled start images unpulled s) (known : image ∈ start.missing → image ∈ images) :
    Pulled start (images ++ [image]) unpulled s where
  unpullable := h.unpullable
  missing image' := by
    rw [h.missing, List.mem_append, List.mem_singleton]
    constructor
    · rintro ⟨gone, never⟩
      refine ⟨gone, ?_⟩
      rintro (mem | rfl)
      · exact never mem
      · exact never (known gone)
    · exact fun ⟨gone, never⟩ => ⟨gone, fun mem => never (.inl mem)⟩
  asked := by
    obtain ⟨pulls, all, uses⟩ := h.asked
    exact ⟨pulls, all, uses.skip known⟩
  unpulled := h.unpulled.skip fun is => known is.1

theorem known_of_unpulled (h : Pulled start images unpulled s) (mem : image ∈ unpulled) :
    image ∈ images :=
  ((h.unpulled.mem_iff image).mp mem).1

theorem known_of_present (h : Pulled start images unpulled s) (there : image ∉ s.missing)
    (gone : image ∈ start.missing) : image ∈ images := by
  by_contra new
  exact there ((h.missing image).mpr ⟨gone, fun mem => absurd mem new⟩)

/-- An image that is missing now and could be pulled so far was not asked for. -/
theorem new_of_missing (h : Pulled start images unpulled s) (fresh : image ∉ unpulled)
    (gone : image ∈ s.missing) : image ∈ start.missing ∧ image ∉ images := by
  obtain ⟨missing, never⟩ := (h.missing image).mp gone
  exact ⟨missing, fun mem => fresh ((h.unpulled.mem_iff image).mpr ⟨mem, missing, never mem⟩)⟩

theorem asked_snoc (h : Pulled start images unpulled s) (new : image ∉ images)
    (gone : image ∈ start.missing) : ∃ pulls, s.asked ++ [image] = start.asked ++ pulls ∧
      FirstUses (· ∈ start.missing) (images ++ [image]) pulls := by
  obtain ⟨pulls, all, uses⟩ := h.asked
  refine ⟨pulls ++ [image], ?_, uses.snoc new gone⟩
  rw [all, List.append_assoc]

/-- An image that cannot be pulled stays missing. -/
theorem refused (h : Pulled start images unpulled s) (new : image ∉ images)
    (gone : image ∈ start.missing) (never : image ∈ s.unpullable) :
    Pulled start (images ++ [image]) (unpulled ++ [image]) { s with asked := s.asked ++ [image] } where
  unpullable := h.unpullable
  missing image' := by
    rw [h.missing, List.mem_append, List.mem_singleton]
    refine and_congr_right fun _ => ⟨?_, fun still mem => still (.inl mem)⟩
    rintro still (mem | rfl)
    · exact still mem
    · exact h.unpullable ▸ never
  asked := h.asked_snoc new gone
  unpulled := h.unpulled.snoc new ⟨gone, h.unpullable ▸ never⟩

/-- An image that can be pulled is there from then on. -/
theorem pulled (h : Pulled start images unpulled s) (new : image ∉ images)
    (gone : image ∈ start.missing) (can : image ∉ s.unpullable) :
    Pulled start (images ++ [image]) unpulled
      { s with missing := s.missing \ {image}, asked := s.asked ++ [image] } where
  unpullable := h.unpullable
  missing image' := by
    rw [h.unpullable] at can
    rw [Set.mem_sdiff, h.missing, Set.mem_singleton_iff, List.mem_append, List.mem_singleton]
    constructor
    · rintro ⟨⟨missing, still⟩, other⟩
      refine ⟨missing, ?_⟩
      rintro (mem | same)
      · exact still mem
      · exact absurd same other
    · rintro ⟨missing, still⟩
      refine ⟨⟨missing, fun mem => still (.inl mem)⟩, ?_⟩
      rintro rfl
      exact can (still (.inr rfl))
  asked := h.asked_snoc new gone
  unpulled := h.unpulled.skip fun is => absurd (h.unpullable ▸ is.2) can

end Pulled

/-! ### Looking for images -/

section Always

variable {α : Type} {post : Stock → α → Prop} {start s : Stock} {image : String}

theorem isPresent_always {f : Bool → Process α}
    (present : image ∉ s.missing → (f true).Always Stock.Answers post s)
    (absent : image ∈ s.missing → (f false).Always Stock.Answers post s) :
    ((isPresent image).bind f).Always Stock.Answers post s := by
  constructor
  · by_cases gone : image ∈ s.missing
    · exact ⟨_, _, .absent gone⟩
    · exact ⟨_, _, .present gone⟩
  · intro r s' answered
    obtain ⟨⟨there, rfl⟩ | ⟨gone, rfl⟩, rfl⟩ := answered.of_imageExists
    · exact present there
    · exact absent gone

theorem pull_always {auth : Option Image.Auth} {next : Except ContainerError Unit → Process α}
    (refused : image ∈ s.unpullable → ∀ e,
      (next (.error e)).Always Stock.Answers post { s with asked := s.asked ++ [image] })
    (pulled : image ∉ s.unpullable → (next (.ok ())).Always Stock.Answers post
      { s with missing := s.missing \ {image}, asked := s.asked ++ [image] }) :
    (Process.act (.container (.pull image auth)) next).Always Stock.Answers post s := by
  constructor
  · by_cases never : image ∈ s.unpullable
    · exact ⟨_, _, .refused never auth (.api "")⟩
    · exact ⟨_, _, .pulled never auth⟩
  · intro r s' answered
    rcases answered.of_pull with ⟨never, ⟨e, rfl⟩, rfl⟩ | ⟨can, rfl, rfl⟩
    · exact refused never e
    · exact pulled can

/-- The induction is on the steps that are left, from the images of those before. -/
theorem pullMissing_always {images unpulled : List String} (steps : List Step)
    (h : Pulled start images unpulled s) : (pullMissing unpulled steps).Always Stock.Answers
      (fun s' unpulled' => Pulled start (images ++ stepImages steps) unpulled' s') s := by
  induction steps generalizing images unpulled s with
  | nil =>
    rw [stepImages, List.map_nil, List.append_nil]
    exact h
  | cons step rest ih =>
    have one : images ++ stepImages (step :: rest) =
        (images ++ [step.image.trimBlanks]) ++ stepImages rest := by simp [stepImages]
    rw [pullMissing, one]
    split
    · next known =>
      exact ih (h.skip fun _ => h.known_of_unpulled (List.contains_iff_mem.mp known))
    · next fresh =>
      rw [List.contains_iff_mem] at fresh
      refine isPresent_always (fun there => ?_) fun gone => ?_
      · exact ih (h.skip (h.known_of_present there))
      · obtain ⟨missing, new⟩ := h.new_of_missing fresh gone
        refine pull_always (fun never e => ?_) fun can => ?_
        · exact ih (h.refused new missing never)
        · exact ih (h.pulled new missing can)

/-- Where all images are there, none is found to be missing. -/
theorem stillMissing_always (steps : List Step) (all : ∀ image ∈ stepImages steps, image ∉ s.missing) :
    (stillMissing [] steps).Always Stock.Answers (fun s' missing => s' = s ∧ missing = []) s := by
  induction steps with
  | nil => exact ⟨rfl, rfl⟩
  | cons step rest ih =>
    obtain ⟨first, others⟩ := List.forall_mem_cons.mp all
    exact isPresent_always (fun _ => ih others) fun gone => absurd gone first

/-- What a check of a job's images comes to: it fails with the images that could not be pulled, if any. -/
inductive Checked (start : Stock) (images : List String) (s : Stock) : Except SubmitError Unit → Prop
  | passed (h : Pulled start images [] s) : Checked start images s (.ok ())
  | failed {unpulled : List String} (h : Pulled start images unpulled s) (some : unpulled ≠ []) :
      Checked start images s (.error (.userVisible (.missingImages unpulled)))

theorem checkImages_always (job : Job) (s : Stock) : (checkImages job).Always Stock.Answers
    (Checked s (stepImages job.recipe.steps)) s := by
  refine (pullMissing_always job.recipe.steps (.none s)).bind fun s' unpulled pulled => ?_
  rw [List.nil_append] at pulled
  cases unpulled with
  | nil =>
    have all : ∀ image ∈ stepImages job.recipe.steps, image ∉ s'.missing := by
      intro image mem gone
      obtain ⟨missing, never⟩ := (pulled.missing image).mp gone
      have unpulled := (pulled.unpulled.mem_iff image).mpr ⟨mem, missing, never mem⟩
      exact absurd unpulled List.not_mem_nil
    refine (stillMissing_always job.recipe.steps all).bind ?_
    rintro _ _ ⟨rfl, rfl⟩
    exact .passed pulled
  | cons image rest => exact .failed pulled (List.cons_ne_nil _ _)

end Always

/-! ### What else a submission does -/

section Aside

variable {α β : Type} {s : Stock} {job : Job} {key : String}

/-- Whether images are left as they are, and no user is told of any. -/
def Aside (s s' : Stock) (r : Except SubmitError α) : Prop := s' = s ∧ Avoids SubmitError.IsUserVisible r

theorem aside_always {a : Action} {next : a.Answer → Process α} {post : Stock → α → Prop}
    (other : ¬ a.ShowsStock) (r : a.Answer) (h : ∀ r, (next r).Always Stock.Answers post s) :
    (Process.act a next).Always Stock.Answers post s := by
  refine ⟨⟨r, s, .aside other r s⟩, fun r' s' answered => ?_⟩
  obtain rfl := answered.of_aside other
  exact h r'

theorem Aside.andThen {p : Process (Except SubmitError α)} {f : α → Process (Except SubmitError β)}
    (h : p.Always Stock.Answers (Aside s) s) (hf : ∀ a, (f a).Always Stock.Answers (Aside s) s) :
    (p.andThen id f).Always Stock.Answers (Aside s) s := by
  refine Always.andThen h ?_ ?_
  · rintro s' e ⟨rfl, silent⟩
    exact ⟨rfl, Avoids.error (silent e rfl)⟩
  · rintro s' a ⟨rfl, -⟩
    exact hf a

theorem evictAll_aside (job : Job) (queues : List QueueName) (s : Stock) :
    (evictAll job queues).Always Stock.Answers (Aside s) s := by
  induction queues with
  | nil => exact ⟨rfl, Avoids.ok _ _⟩
  | cons q rest ih =>
    rw [evictAll]
    split
    · exact ⟨rfl, Avoids.error id⟩
    · refine aside_always not_false (.ok 0) fun r => ?_
      cases r with
      | error e => exact ⟨rfl, Avoids.error id⟩
      | ok n => exact ih

theorem removeContainers_aside (layout : Layout) (job : Job) (steps : List Step) (s : Stock) :
    (removeContainers layout job steps).Always Stock.Answers (fun s' _ => s' = s) s := by
  induction steps with
  | nil => rfl
  | cons step rest ih => exact aside_always not_false (.ok 0) fun _ => ih

theorem replacePrevious_aside (locker : Locker) (job : Job) (s : Stock) :
    (replacePrevious locker job).Always Stock.Answers (Aside s) s := by
  refine Aside.andThen (evictAll_aside job _ s) fun _ => ?_
  split
  · exact ⟨rfl, Avoids.error id⟩
  · refine (removeContainers_aside _ job _ s).bind ?_
    rintro _ _ rfl
    exact ⟨rfl, Avoids.ok _ _⟩

theorem file_aside (job : Job) (key : String) (s : Stock) :
    (file job key).Always Stock.Answers (Aside s) s := by
  refine aside_always not_false (0 : Int) fun now => aside_always not_false (.ok 0) fun r => ?_
  cases r with
  | error e => exact ⟨rfl, Avoids.error id⟩
  | ok time => exact ⟨rfl, Avoids.ok _ _⟩

theorem accept_aside (locker : Locker) (job : Job) (key : String) (s : Stock) :
    (accept locker job key).Always Stock.Answers (Aside s) s := by
  rw [accept_eq]
  refine aside_always not_false false fun taken => ?_
  cases taken with
  | false => exact ⟨rfl, Avoids.error id⟩
  | true =>
    refine (Aside.andThen (replacePrevious_aside locker job s) fun _ => file_aside job key s).bind ?_
    rintro _ r ⟨rfl, silent⟩
    cases r with
    | error e => exact aside_always not_false () fun _ => ⟨rfl, Avoids.error (silent e rfl)⟩
    | ok time => exact ⟨rfl, Avoids.ok _ _⟩

theorem ping_always (s : Stock) : ping.Always Stock.Answers (fun s' r => s' = s ∧ r = .ok ()) s := by
  refine ⟨⟨_, s, .ping s⟩, fun r s' answered => ?_⟩
  obtain ⟨rfl, rfl⟩ := answered.of_ping
  exact ⟨rfl, rfl⟩

end Aside

end Submission

/-! ### Scripted engines -/

/-- The image that a call asks an engine to pull. -/
def ContainerCall.asked? : ContainerCall → Option String
  | .pull image _ => some image
  | _ => none

namespace ScriptedEngine

def stock (e : ScriptedEngine) : Stock where
  missing := {image | image ∈ e.missing}
  unpullable := {image | image ∈ e.unpullable}
  asked := e.calls.filterMap (·.asked?)

/-- Whether an engine can be reached and does as it says. -/
structure IsSound (e : ScriptedEngine) : Prop where
  faults : e.faults = []
  pings : e.pingFails = false

variable {e : ScriptedEngine}

theorem IsSound.faultyCall_eq (h : e.IsSound) (instant : Nat) (c : ContainerCall) :
    e.faultyCall instant c = e.call instant c := by
  obtain ⟨scripts, missing, unpullable, pingFails, faults, calls, containers⟩ := e
  obtain ⟨rfl : faults = [], -⟩ := h
  cases c with
  | pull image auth =>
    simp only [faultyCall, call, obey]
    split <;> rfl
  | _ => rfl

theorem IsSound.call (h : e.IsSound) (instant : Nat) (c : ContainerCall) :
    (e.call instant c).2.IsSound := by
  obtain ⟨faults, pings⟩ := h
  cases c with
  | pull _ _ | create _ =>
    simp only [ScriptedEngine.call, obey]
    split <;> exact ⟨faults, pings⟩
  | _ => exact ⟨faults, pings⟩

/-- A call leaves the stock as it is, but for pulls. -/
theorem stock_call (e : ScriptedEngine) (instant : Nat) {c : ContainerCall} (other : c.asked? = none) :
    (e.call instant c).2.stock = e.stock := by
  have calls : (e.calls ++ [c]).filterMap (·.asked?) = e.calls.filterMap (·.asked?) := by simp [other]
  cases c with
  | pull image auth => exact nomatch other
  | create spec =>
    simp only [ScriptedEngine.call, obey]
    split <;> simp only [stock, calls]
  | _ => simp only [ScriptedEngine.call, obey, stock, calls]

theorem IsSound.answers (h : e.IsSound) (instant : Nat) (c : ContainerCall) :
    e.stock.Answers (.container c) (e.call instant c).1 (e.call instant c).2.stock := by
  cases c with
  | ping =>
    have answer : (e.call instant .ping).1 = some (.ok ()) := by
      simp only [ScriptedEngine.call, obey, h.pings]
      rfl
    rw [answer, stock_call e instant rfl]
    exact .ping _
  | imageExists image =>
    rw [stock_call e instant rfl]
    simp only [ScriptedEngine.call, obey]
    by_cases gone : image ∈ e.missing
    · rw [List.contains_iff_mem.mpr gone]
      exact .absent gone
    · have : e.missing.contains image = false := by simpa using gone
      rw [this]
      exact .present gone
  | pull image auth =>
    have calls : (e.calls ++ [ContainerCall.pull image auth]).filterMap (·.asked?) =
        e.stock.asked ++ [image] := by rw [List.filterMap_append]; rfl
    simp only [ScriptedEngine.call, obey]
    split
    · next never =>
      have after : stock { e with calls := e.calls ++ [.pull image auth] } =
          { e.stock with asked := e.stock.asked ++ [image] } := by rw [← calls]; rfl
      rw [after]
      exact .refused (List.contains_iff_mem.mp never) auth _
    · next can =>
      have left : {other | other ∈ e.missing.filter (· ≠ image)} = e.stock.missing \ {image} := by
        ext other
        simp [stock]
      have after : stock { e with
            missing := e.missing.filter (· ≠ image)
            calls := e.calls ++ [.pull image auth] } =
          { e.stock with missing := e.stock.missing \ {image}, asked := e.stock.asked ++ [image] } := by
        rw [← calls, ← left]
        rfl
      rw [after]
      exact .pulled (fun never => can (List.contains_iff_mem.mpr never)) auth
  | _ =>
    rw [stock_call e instant rfl]
    exact .aside id _ _

end ScriptedEngine

namespace World

variable {w w' : World} {cancelled : Bool}

/-- The step lemma: what the world answers is what an engine with its stock answers. -/
theorem answers_of_answer? {a : Action} {r : a.Answer} (h : w.engine.IsSound)
    (ha : w.answer? cancelled a = some (r, w')) :
    w.engine.stock.Answers a r w'.engine.stock ∧ w'.engine.IsSound := by
  by_cases other : ∀ c, a ≠ .container c
  · rw [(frame_answer? ha).engine other]
    refine ⟨.aside (fun shows => ?_) r _, h⟩
    cases a with
    | container c => exact other c rfl
    | _ => exact shows
  · simp only [ne_eq, not_forall, not_not] at other
    obtain ⟨c, rfl⟩ := other
    have answered := h.answers w.instant c
    have sound := h.call w.instant c
    rw [← h.faultyCall_eq] at answered sound
    obtain ⟨rfl, rfl⟩ := Prod.mk.inj (Option.some.inj ha)
    exact ⟨answered, sound⟩

/-- The run lemma: a process that is advanced to its end has gone so among an engine's answers. -/
theorem goes_of_advance {α : Type} {p : Process α} {b : α} (h : w.engine.IsSound)
    (run : w.advance cancelled p = (.done b, w')) :
    p.Goes Stock.Answers w.engine.stock w'.engine.stock b := by
  induction p generalizing w with
  | done a =>
    obtain ⟨same, rfl⟩ := Prod.mk.inj run
    obtain rfl := Process.done.inj same
    exact .done _ _
  | act a next ih =>
    rw [advance] at run
    split at run
    · exact nomatch (Prod.mk.inj run).1
    · next r w₁ ha =>
      obtain ⟨answered, sound⟩ := answers_of_answer? h ha
      exact .act answered (ih r sound run)

end World

namespace Submission

/-! ### Submissions -/

/-- What a submission tells of the images of its job's steps, and what it asks for. -/
structure Reported (job : Job) (start s : Stock) (r : Except SubmitError String) : Prop where
  told_iff : (∃ e, r = .error (.userVisible e)) ↔
    ∃ image ∈ stepImages job.recipe.steps, image ∈ start.missing ∧ image ∈ start.unpullable
  told : ∀ e, r = .error (.userVisible e) → ∃ images : List String, e.code = "MISSING_IMAGES" ∧
    e.data = [("images", .array (images.map .string))] ∧ images.Nodup ∧
    FirstUses (fun image => image ∈ start.missing ∧ image ∈ start.unpullable)
      (stepImages job.recipe.steps) images
  asked : ∃ pulls, s.asked = start.asked ++ pulls ∧ pulls.Nodup ∧
    FirstUses (· ∈ start.missing) (stepImages job.recipe.steps) pulls

theorem Pulled.exists_asked {start s : Stock} {images unpulled : List String}
    (h : Pulled start images unpulled s) : ∃ pulls, s.asked = start.asked ++ pulls ∧ pulls.Nodup ∧
      FirstUses (· ∈ start.missing) images pulls := by
  obtain ⟨pulls, all, uses⟩ := h.asked
  exact ⟨pulls, all, uses.nodup, uses⟩

section Reported

variable {job : Job} {start s : Stock} {unpulled : List String} {r : Except SubmitError String}

theorem Reported.of_none (h : Pulled start (stepImages job.recipe.steps) [] s)
    (silent : Avoids SubmitError.IsUserVisible r) : Reported job start s r where
  told_iff := by
    constructor
    · rintro ⟨e, he⟩
      exact absurd trivial (silent _ he)
    · rintro ⟨image, mem, is⟩
      exact absurd ((h.unpulled.mem_iff image).mpr ⟨mem, is⟩) List.not_mem_nil
  told e he := absurd trivial (silent _ he)
  asked := h.exists_asked

theorem Reported.of_some (h : Pulled start (stepImages job.recipe.steps) unpulled s)
    (some : unpulled ≠ []) : Reported job start s (.error (.userVisible (.missingImages unpulled))) where
  told_iff := by
    obtain ⟨image, mem⟩ := List.exists_mem_of_ne_nil _ some
    exact ⟨fun _ => ⟨image, (h.unpulled.mem_iff image).mp mem⟩, fun _ => ⟨_, rfl⟩⟩
  told e he := by
    obtain rfl := SubmitError.userVisible.inj (Except.error.inj he)
    exact ⟨unpulled, UserError.code_missingImages _, UserError.data_missingImages _, h.unpulled.nodup,
      h.unpulled⟩
  asked := h.exists_asked

end Reported

/-- A submission of a valid job comes to its end whatever it is answered. It tells the user of missing images
exactly when an image of a step is neither there nor can be pulled, and then of all such images, each once and
in the order of their first use. It asks for every image that is missing, once, and for no other one. -/
theorem missing_images_reported (locker : Locker) {job : Job} {key : String}
    (valid : job.validateSubmission = .ok ()) (hkey : job.key .now = .ok key) (start : Stock) :
    (job.submit locker).Always Stock.Answers (Reported job start) start := by
  rw [submit_eq locker valid hkey]
  refine (ping_always start).andThen ?_ ?_
  · rintro _ e ⟨-, failed⟩
    exact nomatch failed
  rintro _ _ ⟨rfl, -⟩
  refine (checkImages_always job _).andThen ?_ ?_
  · intro s e checked
    cases checked with
    | failed pulled some => exact .of_some pulled some
  · intro s _ checked
    cases checked with
    | passed pulled =>
      refine (accept_aside locker job key s).mono ?_
      rintro _ r ⟨rfl, silent⟩
      exact .of_none pulled silent

end Submission

/-! ### A stew -/

namespace Stew

def adding (step : Nat) (image : String) : Step where
  step := step
  name := "add"
  image := image
  registryAuth := ""
  entrypoint := []
  command := []
  env := []
  environment := []
  trigger := "now"
  timeout := ""

/-- A job that uses most of its images more than once. -/
def stew : Job := { pancakes with
  recipe := ⟨"stew", "", [], [adding 1 " saffron", adding 2 "onion", adding 3 "salt", adding 4 "onion ",
    adding 5 "truffle", adding 6 "saffron"]⟩ }

/-- Of what is missing, only the onions can be had. -/
def kitchen : World where
  instant := 0
  clock := ⟨0⟩
  running := .empty
  stores _ := .memory .empty
  woken _ := false
  engine := { ScriptedEngine.empty with
    missing := ["truffle", "onion", "saffron"]
    unpullable := ["saffron", "truffle"] }
  files := ⟨.directory [], ""⟩
  sent := []
  registry := .empty

theorem kitchen_sound : kitchen.engine.IsSound := ⟨rfl, rfl⟩

/-- The kitchen after the stew was turned down. -/
def turnedDown : World := (kitchen.advance false (stew.submit Feast.locker)).2

theorem advance_kitchen : kitchen.advance false (stew.submit Feast.locker) =
    (.done (.error (.userVisible (.missingImages ["saffron", "truffle"]))), turnedDown) :=
  Prod.ext rfl rfl

end Stew

open Stew in
theorem missing_images_reported_stew : stew.validateSubmission = .ok () ∧ stew.key .now = .ok Feast.nowKey ∧
    kitchen.advance false (stew.submit Feast.locker) =
      (.done (.error (.userVisible (.missingImages ["saffron", "truffle"]))), turnedDown) ∧
    turnedDown.engine.stock.asked = ["saffron", "onion", "truffle"] ∧
    Submission.Reported stew kitchen.engine.stock turnedDown.engine.stock
      (.error (.userVisible (.missingImages ["saffron", "truffle"]))) := by
  have valid : stew.validateSubmission = .ok () := by decide
  have own : stew.key .now = .ok Feast.nowKey := by decide
  have run := World.goes_of_advance kitchen_sound advance_kitchen
  exact ⟨valid, own, advance_kitchen, rfl,
    (Submission.missing_images_reported Feast.locker valid own kitchen.engine.stock).of_goes run⟩

end Galley
