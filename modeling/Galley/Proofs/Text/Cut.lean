import Galley.Text.Split
import Mathlib.Data.List.TakeWhile
/-!
# Texts that are put together from parts

Where the parts hold no mark, a text with marks between them falls into the same parts again. Main
statement: a row of parts between brackets comes from one row only, if no part closes its bracket.
-/
namespace Galley.Text

/-! ### One mark -/

section Cut

variable {α : Type} {a : α} {as as' bs bs' : List α}

/-- Lists that are cut at the first occurrence of an element are cut in one way. -/
theorem cut_at_first (h : as ++ a :: bs = as' ++ a :: bs') (has : a ∉ as) (has' : a ∉ as') :
    as = as' ∧ bs = bs' := by
  induction as generalizing as' with
  | nil =>
    cases as' with
    | nil => exact ⟨rfl, (List.cons.inj h).2⟩
    | cons b as' => exact absurd ((List.cons.inj h).1 ▸ List.mem_cons_self) has'
  | cons b as ih =>
    cases as' with
    | nil => exact absurd ((List.cons.inj h).1 ▸ List.mem_cons_self) has
    | cons b' as' =>
      obtain ⟨rfl, rest⟩ := List.cons.inj h
      obtain ⟨rfl, same⟩ := ih rest (fun m => has (List.mem_cons_of_mem _ m))
        fun m => has' (List.mem_cons_of_mem _ m)
      exact ⟨rfl, same⟩

/-- Lists that are cut at the last occurrence of an element are cut in one way. -/
theorem cut_at_last (h : as ++ a :: bs = as' ++ a :: bs') (hbs : a ∉ bs) (hbs' : a ∉ bs') :
    as = as' ∧ bs = bs' := by
  have turned (xs ys : List α) : (xs ++ a :: ys).reverse = ys.reverse ++ a :: xs.reverse := by simp
  have back : bs.reverse ++ a :: as.reverse = bs'.reverse ++ a :: as'.reverse := by
    rw [← turned, ← turned, h]
  obtain ⟨behind, before⟩ := cut_at_first back (by simpa using hbs) (by simpa using hbs')
  exact ⟨List.reverse_inj.mp before, List.reverse_inj.mp behind⟩

end Cut

/-! ### The text before a mark -/

section Before

variable {mark : Char} {cs before behind : List Char}

theorem cutAt?_append (h : mark ∉ before) (behind : List Char) :
    cutAt? mark (before ++ mark :: behind) = some (before, behind) := by
  induction before with
  | nil => simp [cutAt?]
  | cons c before ih =>
    rw [List.mem_cons, not_or] at h
    rw [List.cons_append, cutAt?, if_neg (Ne.symm h.1), ih h.2]
    rfl

theorem eq_append_of_cutAt? (h : cutAt? mark cs = some (before, behind)) :
    cs = before ++ mark :: behind := by
  induction cs generalizing before with
  | nil => exact nomatch h
  | cons c cs ih =>
    rw [cutAt?] at h
    split at h
    · next own =>
      obtain ⟨rfl, rfl⟩ := Prod.mk.inj (Option.some.inj h)
      rw [own, List.nil_append]
    · obtain ⟨⟨first, last⟩, cut, same⟩ := Option.map_eq_some_iff.mp h
      obtain ⟨rfl, rfl⟩ := Prod.mk.inj same
      rw [ih cut, List.cons_append]

theorem not_mem_of_cutAt? (h : cutAt? mark cs = some (before, behind)) : mark ∉ before := by
  induction cs generalizing before with
  | nil => exact nomatch h
  | cons c cs ih =>
    rw [cutAt?] at h
    split at h
    · obtain ⟨rfl, -⟩ := Prod.mk.inj (Option.some.inj h)
      exact List.not_mem_nil
    · next other =>
      obtain ⟨⟨first, last⟩, cut, same⟩ := Option.map_eq_some_iff.mp h
      obtain ⟨rfl, rfl⟩ := Prod.mk.inj same
      rw [List.mem_cons, not_or]
      exact ⟨Ne.symm other, ih cut⟩

theorem cutAt?_eq_some_iff :
    cutAt? mark cs = some (before, behind) ↔ cs = before ++ mark :: behind ∧ mark ∉ before := by
  constructor
  · intro h
    exact ⟨eq_append_of_cutAt? h, not_mem_of_cutAt? h⟩
  · rintro ⟨rfl, h⟩
    exact cutAt?_append h behind

theorem cutAt?_eq_none_iff : cutAt? mark cs = none ↔ mark ∉ cs := by
  induction cs with
  | nil => simp [cutAt?]
  | cons c cs ih =>
    rw [cutAt?, List.mem_cons, not_or]
    split
    · next own => simp [own]
    · next other => simp [ih, Ne.symm other]

theorem takeWhile_append_cons (mark : Char) (before behind : List Char) :
    (before ++ mark :: behind).takeWhile (· ≠ mark) = before.takeWhile (· ≠ mark) := by
  induction before with
  | nil => simp
  | cons c before ih => rw [List.cons_append, List.takeWhile_cons, List.takeWhile_cons, ih]

theorem takeWhile_of_not_mem (h : mark ∉ cs) : cs.takeWhile (· ≠ mark) = cs := by
  rw [List.takeWhile_eq_self_iff]
  intro c hc
  rw [decide_eq_true_eq]
  rintro rfl
  exact h hc

/-- The text is cut at the first place where the word may begin. -/
theorem cutAtWord?_append (word : List Char) (h : mark ∉ before) (behind : List Char) :
    cutAtWord? (mark :: word) (before ++ (mark :: word ++ behind)) = some (before, behind) := by
  induction before with
  | nil =>
    have found : after? (mark :: word) (mark :: (word ++ behind)) = some behind :=
      after?_append (mark :: word) behind
    rw [List.nil_append, List.cons_append, cutAtWord?, found]
  | cons c before ih =>
    rw [List.mem_cons, not_or] at h
    rw [List.cons_append, cutAtWord?, after?, if_neg h.1, ih h.2]
    rfl

theorem eq_append_of_cutAtWord? {word : List Char} (h : cutAtWord? word cs = some (before, behind)) :
    cs = before ++ (word ++ behind) := by
  induction cs generalizing before with
  | nil =>
    rw [cutAtWord?] at h
    split at h
    · next none =>
      obtain ⟨rfl, rfl⟩ := Prod.mk.inj (Option.some.inj h)
      rw [none, List.nil_append, List.nil_append]
    · exact nomatch h
  | cons c cs ih =>
    rw [cutAtWord?] at h
    split at h
    · next found =>
      obtain ⟨rfl, rfl⟩ := Prod.mk.inj (Option.some.inj h)
      rw [eq_append_of_after? found, List.nil_append]
    · obtain ⟨⟨first, last⟩, cut, same⟩ := Option.map_eq_some_iff.mp h
      obtain ⟨rfl, rfl⟩ := Prod.mk.inj same
      rw [ih cut, List.cons_append]

end Before

/-! ### Pieces between marks -/

section Pieces

variable {mark : Char} {cs : List Char}

theorem pieces_of_not_mem (h : mark ∉ cs) : pieces mark cs = [cs] := by
  induction cs with
  | nil => rfl
  | cons c cs ih =>
    rw [List.mem_cons, not_or] at h
    rw [pieces, if_neg (Ne.symm h.1), ih h.2]

theorem pieces_append_cons (h : mark ∉ cs) (ds : List Char) :
    pieces mark (cs ++ mark :: ds) = cs :: pieces mark ds := by
  induction cs with
  | nil => simp [pieces]
  | cons c cs ih =>
    rw [List.mem_cons, not_or] at h
    rw [List.cons_append, pieces, if_neg (Ne.symm h.1), ih h.2]

/-- Parts without the mark are what the text falls into that they were joined to. -/
theorem pieces_intercalate {parts : List (List Char)} (ne : parts ≠ []) (h : ∀ p ∈ parts, mark ∉ p) :
    pieces mark ([mark].intercalate parts) = parts := by
  induction parts with
  | nil => exact absurd rfl ne
  | cons p rest ih =>
    have head : mark ∉ p := h p List.mem_cons_self
    cases rest with
    | nil =>
      rw [List.intercalate_singleton]
      exact pieces_of_not_mem head
    | cons q rest =>
      rw [List.intercalate_cons_cons, List.append_assoc, List.singleton_append,
        pieces_append_cons head,
        ih (List.cons_ne_nil q rest) fun p hp => h p (List.mem_cons_of_mem _ hp)]

/-- The pieces of a text hold no mark, and make up the text with marks between them. -/
theorem pieces_spec (mark : Char) (cs : List Char) :
    [mark].intercalate (pieces mark cs) = cs ∧ ∀ p ∈ pieces mark cs, mark ∉ p := by
  induction cs with
  | nil => simp [pieces]
  | cons c cs ih =>
    rw [pieces]
    cases rest : pieces mark cs with
    | nil =>
      obtain rfl : [] = cs := by simpa [rest] using ih.1
      exact absurd rest (by simp [pieces])
    | cons p ps =>
      rw [rest] at ih
      by_cases own : c = mark
      · rw [if_pos own, List.intercalate_cons_cons, ih.1, own]
        exact ⟨rfl, List.forall_mem_cons.mpr ⟨List.not_mem_nil, ih.2⟩⟩
      · rw [List.forall_mem_cons] at ih
        rw [if_neg own, List.forall_mem_cons, List.mem_cons, not_or]
        refine ⟨?_, ⟨Ne.symm own, ih.2.1⟩, ih.2.2⟩
        cases ps with
        | nil => simpa using ih.1
        | cons q qs =>
          rw [List.intercalate_cons_cons] at ih ⊢
          exact congrArg (c :: ·) ih.1

end Pieces

/-! ### Parts between brackets -/

/-- Parts in a row, each between square brackets. -/
def bracketed : List String → List Char
  | [] => []
  | part :: parts => '[' :: (part.toList ++ ']' :: bracketed parts)

theorem bracketed_inj {parts parts' : List String} (closed : ∀ p ∈ parts, ']' ∉ p.toList)
    (closed' : ∀ p ∈ parts', ']' ∉ p.toList) (same : bracketed parts = bracketed parts') :
    parts = parts' := by
  induction parts generalizing parts' with
  | nil =>
    cases parts' with
    | nil => rfl
    | cons p' parts' => exact nomatch same
  | cons p parts ih =>
    cases parts' with
    | nil => exact nomatch same
    | cons p' parts' =>
      rw [List.forall_mem_cons] at closed closed'
      obtain ⟨first, rest⟩ := cut_at_first (List.cons.inj same).2 closed.1 closed'.1
      rw [String.toList_inj.mp first, ih closed.2 closed'.2 rest]

end Galley.Text
