import Galley.Container.Image
import Galley.Proofs.Text.Blank
import Galley.Proofs.Text.Cut
import Mathlib.Data.List.Basic
/-!
# Spellings of image references

A reference to an image falls into a name and an ending, the ending being its digest or its tag. The normal
form has the name in full and keeps the ending. What stands in front of a slash belongs to the name, so a name
in full falls into the same two parts again. Main statement: the normal form of a reference is its own normal
form, and references that leave out the tag, the library or the registry have the normal form of those that do
not.
-/
namespace Galley.Image

open Text

/-! ### Parts of a reference -/

section Parts

variable {mark : Char} {as bs : List Char}

theorem afterLast_append_cons (as bs : List Char) (mark : Char) :
    afterLast mark (as ++ mark :: bs) = afterLast mark bs := by
  have turned : (as ++ mark :: bs).reverse = bs.reverse ++ mark :: as.reverse := by simp
  rw [afterLast, turned, takeWhile_append_cons, afterLast]

theorem afterLast_of_not_mem (h : mark ∉ as) : afterLast mark as = as := by
  rw [afterLast, takeWhile_of_not_mem (by simpa using h), List.reverse_reverse]

/-- What stands in front of the last part ends in the mark, if there is anything. -/
theorem exists_afterLast (mark : Char) (as : List Char) :
    mark ∉ afterLast mark as ∧
      (afterLast mark as = as ∨ ∃ before, as = before ++ mark :: afterLast mark as) := by
  by_cases h : mark ∈ as
  · obtain ⟨behind, before, turned, fresh⟩ := List.eq_append_cons_of_mem (List.mem_reverse.mpr h)
    have whole : as = before.reverse ++ mark :: behind.reverse := by
      rw [← List.reverse_inj, turned]
      simp
    have last : afterLast mark as = behind.reverse := by
      rw [whole, afterLast_append_cons, afterLast_of_not_mem (by simpa using fresh)]
    rw [last]
    exact ⟨by simpa using fresh, .inr ⟨_, whole⟩⟩
  · rw [afterLast_of_not_mem h]
    exact ⟨h, .inl rfl⟩

theorem afterLast_append (h : mark ∉ bs) : afterLast mark (as ++ bs) = afterLast mark as ++ bs := by
  obtain ⟨fresh, same | ⟨before, whole⟩⟩ := exists_afterLast mark as
  · rw [same] at fresh ⊢
    exact afterLast_of_not_mem (by simp [fresh, h])
  · rw [whole, List.append_assoc, List.cons_append, afterLast_append_cons, afterLast_append_cons]
    rw [afterLast_of_not_mem fresh]
    exact afterLast_of_not_mem (by simp [fresh, h])

end Parts

/-! ### Tags -/

section Tags

variable {name tag reference : List Char}

theorem nameAndTag_of_tag (colon : ':' ∉ tag) (slash : '/' ∉ tag) :
    nameAndTag (name ++ ':' :: tag) = (name, tag) := by
  have last : afterLast '/' (name ++ ':' :: tag) = afterLast '/' name ++ ':' :: tag :=
    afterLast_append (by simpa using slash)
  have tagged : afterLast ':' (afterLast '/' name ++ ':' :: tag) = tag := by
    rw [afterLast_append_cons, afterLast_of_not_mem colon]
  have front : (name ++ ':' :: tag).length - tag.length - 1 = name.length := by
    simp
    omega
  simp only [nameAndTag, last, tagged, front]
  simp

theorem nameAndTag_of_untagged (h : ':' ∉ afterLast '/' reference) :
    nameAndTag reference = (reference, "latest".toList) := by
  simp [nameAndTag, h]

/-- A reference has no tag, or falls into its name and its tag. -/
theorem nameAndTag_cases (reference : List Char) :
    (':' ∉ afterLast '/' reference ∧ nameAndTag reference = (reference, "latest".toList)) ∨
      ∃ name tag, reference = name ++ ':' :: tag ∧ ':' ∉ tag ∧ '/' ∉ tag ∧
        nameAndTag reference = (name, tag) := by
  by_cases h : ':' ∈ afterLast '/' reference
  · right
    obtain ⟨slash, same⟩ := exists_afterLast '/' reference
    obtain ⟨colon, all | ⟨front, cut⟩⟩ := exists_afterLast ':' (afterLast '/' reference)
    · rw [all] at colon
      exact absurd h colon
    · generalize afterLast ':' (afterLast '/' reference) = tag at colon cut
      have plain : '/' ∉ tag := fun mem => slash (by simp [cut, mem])
      obtain ⟨before, whole⟩ : ∃ before, reference = before ++ afterLast '/' reference := by
        rcases same with same | ⟨before, whole⟩
        · exact ⟨[], same.symm⟩
        · exact ⟨before ++ ['/'], by simpa using whole⟩
      have split : reference = (before ++ front) ++ ':' :: tag := by
        rw [whole, cut, List.append_assoc]
      exact ⟨before ++ front, tag, split, colon, plain, split ▸ nameAndTag_of_tag colon plain⟩
  · exact .inl ⟨h, nameAndTag_of_untagged h⟩

/-- What stands in front of a slash belongs to the name. -/
theorem nameAndTag_append (front reference : List Char) :
    nameAndTag (front ++ '/' :: reference) =
      (front ++ '/' :: (nameAndTag reference).1, (nameAndTag reference).2) := by
  rcases nameAndTag_cases reference with ⟨untagged, both⟩ | ⟨name, tag, rfl, colon, slash, both⟩
  · rw [both]
    exact nameAndTag_of_untagged (by rwa [afterLast_append_cons])
  · have longer : front ++ '/' :: (name ++ ':' :: tag) = (front ++ '/' :: name) ++ ':' :: tag := by simp
    rw [both, longer]
    exact nameAndTag_of_tag colon slash

end Tags

/-! ### Names in full -/

section Names

variable {name first rest : List Char}

theorem qualified_of_bare (h : '/' ∉ name) : qualified name = "docker.io/library/".toList ++ name := by
  rw [qualified, cutAt?_eq_none_iff.mpr h]

theorem qualified_of_host (h : '/' ∉ first) (host : isRegistryHost first = true) :
    qualified (first ++ '/' :: rest) = first ++ '/' :: rest := by
  rw [qualified, cutAt?_append h]
  exact if_pos host

theorem qualified_of_other (h : '/' ∉ first) (other : isRegistryHost first = false) :
    qualified (first ++ '/' :: rest) = "docker.io/".toList ++ (first ++ '/' :: rest) := by
  rw [qualified, cutAt?_append h]
  exact if_neg (by simp [other])

theorem library_append (name : List Char) :
    "docker.io/library/".toList ++ name = "docker.io/library".toList ++ '/' :: name := by
  have slash : "docker.io/library/".toList = "docker.io/library".toList ++ ['/'] := by decide
  rw [slash, List.append_assoc, List.singleton_append]

theorem registry_append (name : List Char) :
    "docker.io/".toList ++ name = "docker.io".toList ++ '/' :: name := by
  have slash : "docker.io/".toList = "docker.io".toList ++ ['/'] := by decide
  rw [slash, List.append_assoc, List.singleton_append]

/-- What stands before the names of images that the official registry has. -/
def official : List (List Char) := ["docker.io".toList, "docker.io/library".toList]

theorem registry_mem_official : "docker.io".toList ∈ official := List.mem_cons_self

theorem library_mem_official : "docker.io/library".toList ∈ official :=
  List.mem_cons_of_mem _ List.mem_cons_self

theorem qualified_official {front : List Char} (h : front ∈ official) (name : List Char) :
    qualified (front ++ '/' :: name) = front ++ '/' :: name := by
  rw [official, List.mem_cons, List.mem_singleton] at h
  have slash : '/' ∉ "docker.io".toList := by decide
  have host : isRegistryHost "docker.io".toList = true := by decide
  have library : "docker.io/library".toList = "docker.io".toList ++ '/' :: "library".toList := by decide
  rcases h with rfl | rfl
  · exact qualified_of_host slash host
  · rw [library, List.append_assoc, List.cons_append]
    exact qualified_of_host slash host

/-- A name stays as it is or comes behind the official registry. -/
theorem qualified_cases (name : List Char) :
    qualified name = name ∨ ∃ front ∈ official, qualified name = front ++ '/' :: name := by
  cases cut : cutAt? '/' name with
  | none =>
    have bare := cutAt?_eq_none_iff.mp cut
    exact .inr ⟨_, library_mem_official, (qualified_of_bare bare).trans (library_append name)⟩
  | some parts =>
    obtain ⟨rfl, slash⟩ := cutAt?_eq_some_iff.mp cut
    by_cases host : isRegistryHost parts.1 = true
    · exact .inl (qualified_of_host slash host)
    · have whole := @qualified_of_other parts.1 parts.2 slash (by simpa using host)
      exact .inr ⟨_, registry_mem_official, whole.trans (registry_append _)⟩

end Names

/-! ### Names and endings -/

/-- The two halves of an image reference: its name, and its digest or its tag. -/
def halves (image : List Char) : List Char × List Char :=
  match cutAt? '@' image with
  | some (reference, digest) => ((nameAndTag reference).1, '@' :: digest)
  | none => ((nameAndTag image).1, ':' :: (nameAndTag image).2)

theorem normalizeTrimmed_eq (image : List Char) :
    normalizeTrimmed image = qualified (halves image).1 ++ (halves image).2 := by
  unfold normalizeTrimmed halves
  cases cutAt? '@' image <;> rfl

theorem halves_of_digest {reference digest : List Char} (h : '@' ∉ reference) :
    halves (reference ++ '@' :: digest) = ((nameAndTag reference).1, '@' :: digest) := by
  rw [halves, cutAt?_append h]

theorem halves_of_no_digest {image : List Char} (h : '@' ∉ image) :
    halves image = ((nameAndTag image).1, ':' :: (nameAndTag image).2) := by
  rw [halves, cutAt?_eq_none_iff.mpr h]

theorem halves_append {front : List Char} (h : '@' ∉ front) (image : List Char) :
    halves (front ++ '/' :: image) = (front ++ '/' :: (halves image).1, (halves image).2) := by
  have outside (reference : List Char) (h' : '@' ∉ reference) : '@' ∉ front ++ '/' :: reference := by
    simp [h, h']
  cases cut : cutAt? '@' image with
  | none =>
    have fresh := cutAt?_eq_none_iff.mp cut
    rw [halves_of_no_digest (outside image fresh), halves_of_no_digest fresh, nameAndTag_append]
  | some parts =>
    obtain ⟨rfl, fresh⟩ := cutAt?_eq_some_iff.mp cut
    have longer : front ++ '/' :: (parts.1 ++ '@' :: parts.2) =
        (front ++ '/' :: parts.1) ++ '@' :: parts.2 := by simp
    rw [longer, halves_of_digest (outside _ fresh), halves_of_digest fresh, nameAndTag_append]

/-- Halves are found again where they are put together, as long as no colon stays in the last part of a name
whose tag was dropped. -/
theorem halves_join {image : List Char}
    (h : (afterLast '/' (image.takeWhile (· ≠ '@'))).count ':' ≤ 1) :
    halves ((halves image).1 ++ (halves image).2) = halves image := by
  cases cut : cutAt? '@' image with
  | none =>
    have fresh := cutAt?_eq_none_iff.mp cut
    rw [halves_of_no_digest fresh]
    rcases nameAndTag_cases image with ⟨untagged, both⟩ | ⟨name, tag, rfl, colon, slash, both⟩
    · simp only [both]
      rw [halves_of_no_digest (by simp [fresh]), nameAndTag_of_tag (by decide) (by decide)]
    · simp only [both]
      rw [halves_of_no_digest fresh, both]
  | some parts =>
    obtain ⟨rfl, fresh⟩ := cutAt?_eq_some_iff.mp cut
    rw [takeWhile_append_cons, takeWhile_of_not_mem fresh] at h
    have untagged : ':' ∉ afterLast '/' (nameAndTag parts.1).1 := by
      rcases nameAndTag_cases parts.1 with ⟨untagged, both⟩ | ⟨name, tag, whole, colon, slash, both⟩
      · rwa [both]
      · rw [whole, afterLast_append (by simpa using slash), List.count_append, List.count_cons_self] at h
        rw [both]
        have none : (afterLast '/' name).count ':' = 0 := by omega
        exact List.count_eq_zero.mp none
    have fresh' : '@' ∉ (nameAndTag parts.1).1 := by
      rcases nameAndTag_cases parts.1 with ⟨-, both⟩ | ⟨name, tag, whole, -, -, both⟩
      · rwa [both]
      · rw [both]
        rw [whole] at fresh
        simp_all
    rw [halves_of_digest fresh, halves_of_digest fresh', nameAndTag_of_untagged untagged]

/-! ### Blanks at the ends -/

theorem trimmed_latest : Trimmed ":latest".toList := by
  rw [← trim_eq_self_iff]
  decide

theorem trimmed_official {front : List Char} (h : front ∈ official) : Trimmed (front ++ ['/']) := by
  have all : ∀ front ∈ official, trim (front ++ ['/']) = front ++ ['/'] := by decide
  exact trim_eq_self_iff.mp (all front h)

/-- The name of an image begins it, and its ending ends it unless it has no tag. -/
theorem halves_spec (image : List Char) :
    (∃ rest, image = (halves image).1 ++ rest ∧
        ((halves image).2 <:+ rest ∨ (halves image).2 = ":latest".toList)) ∧
      ∃ mark rest, (halves image).2 = mark :: rest ∧ isBlank mark = false := by
  cases cut : cutAt? '@' image with
  | none =>
    rw [halves_of_no_digest (cutAt?_eq_none_iff.mp cut)]
    refine ⟨?_, ':', _, rfl, by decide⟩
    rcases nameAndTag_cases image with ⟨-, both⟩ | ⟨name, tag, rfl, -, -, both⟩
    · rw [both]
      exact ⟨[], by simp, .inr rfl⟩
    · rw [both]
      exact ⟨_, rfl, .inl (List.suffix_refl _)⟩
  | some parts =>
    obtain ⟨rfl, fresh⟩ := cutAt?_eq_some_iff.mp cut
    rw [halves_of_digest fresh]
    refine ⟨?_, '@', _, rfl, by decide⟩
    rcases nameAndTag_cases parts.1 with ⟨-, both⟩ | ⟨name, tag, whole, -, -, both⟩
    · rw [both]
      exact ⟨_, rfl, .inl (List.suffix_refl _)⟩
    · rw [both]
      refine ⟨':' :: tag ++ '@' :: parts.2, ?_, .inl (List.suffix_append _ _)⟩
      rw [whole, List.append_assoc]

theorem trimmed_join {image : List Char} (h : Trimmed image) :
    Trimmed ((halves image).1 ++ (halves image).2) := by
  obtain ⟨⟨rest, whole, ends⟩, mark, behind, starts, solid⟩ := halves_spec image
  generalize halves image = both at whole ends starts
  obtain ⟨name, ending⟩ := both
  subst whole starts
  constructor
  · intro c hc
    cases name with
    | nil =>
      obtain rfl : mark = c := by simpa using hc
      exact solid
    | cons d name => exact h.first c hc
  · intro c hc
    rw [List.getLast?_append_cons] at hc
    rcases ends with ⟨front, rfl⟩ | same
    · refine h.last c ?_
      rw [← List.append_assoc, List.getLast?_append_cons, hc]
    · dsimp only at same
      rw [same] at hc
      exact trimmed_latest.last c hc

theorem trimmed_normalizeTrimmed {image : List Char} (h : Trimmed image) :
    Trimmed (normalizeTrimmed image) := by
  rw [normalizeTrimmed_eq]
  have join := trimmed_join h
  rcases qualified_cases (halves image).1 with same | ⟨front, known, same⟩
  · rwa [same]
  · rw [same, List.append_assoc, List.cons_append, ← List.singleton_append, ← List.append_assoc]
    exact (trimmed_official known).append join

/-! ### Colons in the last part -/

/-- What stands before the digest of an image. -/
def reference (image : List Char) : List Char :=
  image.takeWhile (· ≠ '@')

theorem filter_takeWhile {p q : Char → Bool} (h : ∀ c, q c = false → p c = true) (cs : List Char) :
    (cs.takeWhile p).filter q = (cs.filter q).takeWhile p := by
  induction cs with
  | nil => rfl
  | cons c cs ih =>
    by_cases hp : p c = true <;> by_cases hq : q c = true <;> simp_all

/-- How many colons are in the last part of a reference before its digest. -/
def colons (image : List Char) : Nat :=
  (afterLast '/' (reference image)).count ':'

theorem colons_trim (image : List Char) : colons (trim image) = colons image := by
  have solid (mark : Char) (h : isBlank mark = false) (c : Char) (blank : (!isBlank c) = false) :
      decide (c ≠ mark) = true := by
    rw [decide_eq_true_eq]
    rintro rfl
    simp [h] at blank
  have filtered (cs : List Char) : colons (cs.filter (!isBlank ·)) = colons cs := by
    rw [colons, reference, ← filter_takeWhile (solid '@' (by decide)), afterLast, ← List.filter_reverse,
      ← filter_takeWhile (solid '/' (by decide)), ← List.filter_reverse, List.count_filter (by decide)]
    rfl
  rw [← filtered, filter_trim, filtered]

/-! ### Spellings -/

section Spellings

variable {image : List Char}

theorem halves_name (image : List Char) : (halves image).1 = (nameAndTag (reference image)).1 := by
  cases cut : cutAt? '@' image with
  | none =>
    have fresh := cutAt?_eq_none_iff.mp cut
    rw [halves_of_no_digest fresh, reference, takeWhile_of_not_mem fresh]
  | some parts =>
    obtain ⟨rfl, fresh⟩ := cutAt?_eq_some_iff.mp cut
    rw [halves_of_digest fresh, reference, takeWhile_append_cons, takeWhile_of_not_mem fresh]

theorem normalizeTrimmed_append {front : List Char} (h : '@' ∉ front) (image : List Char) :
    normalizeTrimmed (front ++ '/' :: image) =
      qualified (front ++ '/' :: (halves image).1) ++ (halves image).2 := by
  rw [normalizeTrimmed_eq, halves_append h]

theorem normalizeTrimmed_normalizeTrimmed (h : colons image ≤ 1) :
    normalizeTrimmed (normalizeTrimmed image) = normalizeTrimmed image := by
  have join := halves_join h
  rw [normalizeTrimmed_eq image]
  rcases qualified_cases (halves image).1 with same | ⟨front, known, same⟩
  · rw [same, normalizeTrimmed_eq, join, same]
  · have fresh : ∀ front ∈ official, '@' ∉ front := by decide
    rw [same, List.append_assoc, List.cons_append, normalizeTrimmed_append (fresh front known), join,
      qualified_official known, List.append_assoc, List.cons_append]

theorem normalizeTrimmed_latest (digest : '@' ∉ image) (tag : ':' ∉ afterLast '/' (reference image)) :
    normalizeTrimmed (image ++ ":latest".toList) = normalizeTrimmed image := by
  rw [reference, takeWhile_of_not_mem digest] at tag
  have tagged : nameAndTag (image ++ ":latest".toList) = (image, "latest".toList) :=
    nameAndTag_of_tag (by decide) (by decide)
  rw [normalizeTrimmed_eq, normalizeTrimmed_eq image, halves_of_no_digest digest,
    halves_of_no_digest (by simpa using digest), tagged, nameAndTag_of_untagged tag]

theorem normalizeTrimmed_library (bare : '/' ∉ reference image) :
    normalizeTrimmed ("docker.io/library/".toList ++ image) = normalizeTrimmed image := by
  have name : '/' ∉ (halves image).1 := by
    rw [halves_name]
    rcases nameAndTag_cases (reference image) with ⟨-, both⟩ | ⟨name, tag, whole, -, -, both⟩
    · rwa [both]
    · rw [whole] at bare
      rw [both]
      exact fun mem => bare (List.mem_append_left _ mem)
  rw [library_append, normalizeTrimmed_append (by decide), qualified_official library_mem_official,
    normalizeTrimmed_eq image, qualified_of_bare name, library_append]

theorem normalizeTrimmed_registry (slash : '/' ∈ reference image)
    (other : isRegistryHost ((reference image).takeWhile (· ≠ '/')) = false) :
    normalizeTrimmed ("docker.io/".toList ++ image) = normalizeTrimmed image := by
  obtain ⟨first, rest, whole, fresh⟩ := List.eq_append_cons_of_mem slash
  rw [whole, takeWhile_append_cons, takeWhile_of_not_mem fresh] at other
  have name : (halves image).1 = first ++ '/' :: (nameAndTag rest).1 := by
    rw [halves_name, whole, nameAndTag_append]
  rw [registry_append, normalizeTrimmed_append (by decide), qualified_official registry_mem_official,
    normalizeTrimmed_eq image, name, qualified_of_other fresh other, registry_append]

end Spellings

theorem normalize_of_trimmed {image : String} (h : Trimmed image.toList) :
    normalize image = String.ofList (normalizeTrimmed image.toList) := by
  rw [normalize, trim_eq_self_iff.mpr h]

theorem normalize_append {first second : String} (h : Trimmed first.toList) (h' : Trimmed second.toList) :
    normalize (first ++ second) = String.ofList (normalizeTrimmed (first.toList ++ second.toList)) := by
  rw [normalize, String.toList_append, trim_eq_self_iff.mpr (h.append h')]

/-- The normal form of a reference is its own normal form, if the last part before the digest has no more than
one colon. A reference without blanks at its ends has the normal form of the one with the tag `latest`, if it
has neither digest nor tag; of the one in the official library, if there is no slash before its digest; and of
the one on the official registry, if there is one and the first part, where no tag stands then, is no registry
host. -/
theorem normalize_spellings (image : String) :
    ((afterLast '/' (reference image.toList)).count ':' ≤ 1 →
      normalize (normalize image) = normalize image) ∧
    (image.trimBlanks = image →
      ('@' ∉ image.toList → ':' ∉ afterLast '/' (reference image.toList) →
        normalize (image ++ ":latest") = normalize image) ∧
      ('/' ∉ reference image.toList → normalize ("docker.io/library/" ++ image) = normalize image) ∧
      ('/' ∈ reference image.toList →
        isRegistryHost ((reference image.toList).takeWhile (· ≠ '/')) = false →
        normalize ("docker.io/" ++ image) = normalize image)) := by
  constructor
  · intro single
    have few : colons (trim image.toList) ≤ 1 := by rwa [colons_trim]
    have ends : Trimmed (normalize image).toList := by
      rw [normalize, String.toList_ofList]
      exact trimmed_normalizeTrimmed (trimmed_trim _)
    rw [normalize_of_trimmed ends, normalize, String.toList_ofList,
      normalizeTrimmed_normalizeTrimmed few]
  · intro same
    have ends : Trimmed image.toList := by
      rw [← same, String.trimBlanks, String.toList_ofList]
      exact trimmed_trim _
    rw [normalize_of_trimmed ends]
    refine ⟨fun digest tag => ?_, fun bare => ?_, fun slash other => ?_⟩
    · rw [normalize_append ends trimmed_latest, normalizeTrimmed_latest digest tag]
    · have front : Trimmed "docker.io/library/".toList :=
        trimmed_official library_mem_official
      rw [normalize_append front ends, normalizeTrimmed_library bare]
    · have front : Trimmed "docker.io/".toList := trimmed_official registry_mem_official
      rw [normalize_append front ends, normalizeTrimmed_registry slash other]

/-- References with a digest, with a colon in it, and references in each of the short forms. -/
theorem normalize_spellings_short :
    ((afterLast '/' (reference " org/tool:v1@sha256:a/b:c".toList)).count ':' ≤ 1 ∧
      normalize (normalize " org/tool:v1@sha256:a/b:c") = normalize " org/tool:v1@sha256:a/b:c") ∧
    ("alpine".trimBlanks = "alpine" ∧ '@' ∉ "alpine".toList ∧
      ':' ∉ afterLast '/' (reference "alpine".toList) ∧ '/' ∉ reference "alpine".toList ∧
      normalize ("alpine" ++ ":latest") = normalize "alpine" ∧
      normalize ("docker.io/library/" ++ "alpine") = normalize "alpine") ∧
    ("org/tool:v1".trimBlanks = "org/tool:v1" ∧ '/' ∈ reference "org/tool:v1".toList ∧
      isRegistryHost ((reference "org/tool:v1".toList).takeWhile (· ≠ '/')) = false ∧
      normalize ("docker.io/" ++ "org/tool:v1") = normalize "org/tool:v1") := by
  have few : (afterLast '/' (reference " org/tool:v1@sha256:a/b:c".toList)).count ':' ≤ 1 := by decide
  have bare : "alpine".trimBlanks = "alpine" := by decide
  have owned : "org/tool:v1".trimBlanks = "org/tool:v1" := by decide
  obtain ⟨latest, library, -⟩ := (normalize_spellings "alpine").2 bare
  obtain ⟨-, -, registry⟩ := (normalize_spellings "org/tool:v1").2 owned
  exact ⟨⟨few, (normalize_spellings _).1 few⟩,
    ⟨bare, by decide, by decide, by decide, latest (by decide) (by decide), library (by decide)⟩,
    owned, by decide, by decide, registry (by decide) (by decide)⟩

/-- Where a colon stays behind a dropped tag, it is taken for another tag. -/
example : normalize "a:b:c@d" = "docker.io/library/a:b@d" ∧
    normalize "docker.io/library/a:b@d" = "docker.io/library/a@d" := by decide

end Galley.Image
