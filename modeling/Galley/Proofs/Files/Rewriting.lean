import Galley.Proofs.Queue.Proper
import Galley.Queue.Store
/-!
# Directories that are rewritten

What is left behind when the entries of one directory are replaced. The directories among them have to
stay, since a path may lead through them. Main statement: the new entries are found under the same path,
so that an operation on a queue that leaves directories alone is answered and leaves what it says.
-/
namespace Galley

namespace Entries

theorem replace_of_not_contains {es : Entries} {name : String} (h : es.contains name = false)
    (node : Node) : es.replace name node = es := by
  refine (List.map_congr_left fun e he => ?_).trans (List.map_id es)
  have other := List.any_eq_false.mp h e he
  rw [if_neg (by simpa using other)]
  rfl

/-- Of two nodes put under one name the second stays. -/
theorem put_put (es : Entries) (name : String) (first second : Node) :
    (es.put name first).put name second = es.put name second := by
  have put_of_contains {es : Entries} (h : es.contains name = true) (node : Node) :
      es.put name node = es.replace name node := if_pos h
  cases held : es.contains name with
  | true =>
    have again : (es.replace name first).contains name = true := by
      obtain ⟨e, he, hn⟩ := List.any_eq_true.mp held
      have same : e.1 = name := by simpa using hn
      refine List.any_eq_true.mpr ⟨(name, first), List.mem_map.mpr ⟨e, he, if_pos same⟩, ?_⟩
      exact decide_eq_true rfl
    rw [put_of_contains held, put_of_contains again, put_of_contains held, replace, replace,
      List.map_map]
    refine List.map_congr_left fun e _ => ?_
    simp only [Function.comp]
    split <;> simp_all
  | false =>
    have new (node : Node) : es.put name node = (name, node) :: es :=
      if_neg (by rw [held]; exact Bool.false_ne_true)
    rw [new, new, put_of_contains (by simp [contains]), replace, List.map_cons, if_pos rfl]
    exact congrArg _ (replace_of_not_contains held second)

end Entries

namespace Node

variable {node : Node} {es es' : Entries}

/-- Whether a directory has nothing but files. -/
def Plain (es : Entries) : Prop :=
  ∀ name es', Entries.find? es name ≠ some (.directory es')

def IsDirectory (r : Except FileError Node) : Prop := ∃ es, r = .ok (.directory es)

/-- Whether the directories among some entries are among others as they were. -/
def KeepsDirectories (es es' : Entries) : Prop :=
  ∀ name inner, es.find? name = some (.directory inner) → es'.find? name = some (.directory inner)

theorem get_cons (name : String) (rest : List String) (es : Entries) :
    (directory es).get (name :: rest) =
      if maxName < name.utf8ByteSize then .error .nameTooLong
      else match Entries.find? es name with
        | none => .error .notFound
        | some child => child.get rest := rfl

/-- A path that leads somewhere leads there from an entry with its first name. -/
theorem get_cons_ok {name : String} {rest : List String} {last : Node}
    (h : node.get (name :: rest) = .ok last) :
    ∃ all child, node = directory all ∧ ¬ maxName < name.utf8ByteSize ∧
      Entries.find? all name = some child ∧ child.get rest = .ok last := by
  cases node with
  | file bytes => exact nomatch h
  | directory all =>
    rw [get_cons] at h
    split at h
    · exact nomatch h
    next short =>
    split at h
    · exact nomatch h
    next child hc =>
    exact ⟨all, child, rfl, short, hc, h⟩

/-- There is nothing to keep in a plain directory. -/
theorem Plain.keepsDirectories (h : Plain es) (es' : Entries) : KeepsDirectories es es' :=
  fun name inner found => absurd found (h name inner)

theorem KeepsDirectories.trans {es'' : Entries} (h : KeepsDirectories es es')
    (h' : KeepsDirectories es' es'') : KeepsDirectories es es'' :=
  fun name inner found => h' name inner (h name inner found)

/-- A path that leads to a directory by way of one that is kept still does so. -/
theorem KeepsDirectories.isDirectory (h : KeepsDirectories es es') {p : List String}
    (found : IsDirectory ((directory es).get p)) : IsDirectory ((directory es').get p) := by
  cases p with
  | nil => exact ⟨es', rfl⟩
  | cons name rest =>
    obtain ⟨last, found⟩ := found
    obtain ⟨_, child, ⟨⟩, short, hc, found⟩ := get_cons_ok found
    cases child with
    | directory inner =>
      refine ⟨last, ?_⟩
      rw [get_cons, if_neg short, h name inner hc]
      exact found
    | file bytes => cases rest <;> exact nomatch found

/-- The entries of a directory can be replaced. -/
theorem exists_rewritten {place : List String} (found : node.get place = .ok (.directory es))
    (es' : Entries) :
    ∃ node', node.inDirectory place (fun _ => .ok es') = .ok node' ∧
      node'.get place = .ok (.directory es') := by
  induction place generalizing node with
  | nil =>
    obtain rfl := Except.ok.inj found
    exact ⟨.directory es', rfl, rfl⟩
  | cons name rest ih =>
    obtain ⟨all, child, rfl, short, hc, found⟩ := get_cons_ok found
    obtain ⟨child', changed, found'⟩ := ih found
    refine ⟨.directory (Entries.put all name child'), ?_, ?_⟩
    · unfold inDirectory at changed ⊢
      rw [modify, if_neg short, hc]
      simp only [changed]
      rfl
    · rw [get_cons, if_neg short, Entries.find?_put, if_pos rfl]
      exact found'

/-- Where a directory is rewritten and its directories are kept, all directories stay directories. -/
theorem isDirectory_of_rewritten {node' : Node} {place : List String} (kept : KeepsDirectories es es')
    (found : node.get place = .ok (.directory es))
    (changed : node.inDirectory place (fun _ => .ok es') = .ok node') {p : List String}
    (h : IsDirectory (node.get p)) : IsDirectory (node'.get p) := by
  induction place generalizing node node' p with
  | nil =>
    obtain rfl := Except.ok.inj found
    obtain rfl := Except.ok.inj changed
    exact kept.isDirectory h
  | cons name rest ih =>
    obtain ⟨all, child, rfl, short, hc, found⟩ := get_cons_ok found
    obtain ⟨child', changed', -⟩ := exists_rewritten found es'
    unfold inDirectory at changed changed'
    rw [modify, if_neg short, hc] at changed
    simp only [changed'] at changed
    obtain rfl : Node.directory (Entries.put all name child') = node' := Except.ok.inj changed
    cases p with
    | nil => exact ⟨_, rfl⟩
    | cons n r =>
      rw [get_cons] at h ⊢
      rw [Entries.find?_put]
      by_cases same : name = n
      · subst same
        rw [if_neg short] at h ⊢
        rw [hc] at h
        rw [if_pos rfl]
        exact ih found changed' h
      · rwa [if_neg same]

/-- Of two rewritings of one directory the second stays. -/
theorem inDirectory_rewritten {node' : Node} {place : List String}
    (found : node.get place = .ok (.directory es))
    (changed : node.inDirectory place (fun _ => .ok es') = .ok node') (es'' : Entries) :
    node'.inDirectory place (fun _ => .ok es'') = node.inDirectory place (fun _ => .ok es'') := by
  induction place generalizing node node' with
  | nil =>
    obtain rfl := Except.ok.inj found
    obtain rfl := Except.ok.inj changed
    rfl
  | cons name rest ih =>
    obtain ⟨all, child, rfl, short, hc, found⟩ := get_cons_ok found
    obtain ⟨child', changed', -⟩ := exists_rewritten found es'
    obtain ⟨child'', changed'', -⟩ := exists_rewritten found es''
    have again := ih found changed'
    rw [changed''] at again
    unfold inDirectory at changed changed' changed'' again ⊢
    rw [modify, if_neg short, hc] at changed
    simp only [changed'] at changed
    obtain rfl : Node.directory (Entries.put all name child') = node' := Except.ok.inj changed
    rw [modify, modify, if_neg short, if_neg short, hc, Entries.find?_put, if_pos rfl]
    simp only [again, changed'', bind, Except.bind, Entries.put_put]

end Node

namespace Files

variable {files : Files} {es es' : Entries} {path : String}

/-- A path leads to the same place in every tree that keeps the directories. -/
theorem walk_of_directories {root : Node}
    (kept : ∀ p, Node.IsDirectory (files.root.get p) → Node.IsDirectory (root.get p))
    {place : List String} {parts : List String} {last : List String}
    (h : files.walk place parts = .ok last) :
    ({ files with root } : Files).walk place parts = .ok last := by
  induction parts generalizing place with
  | nil => exact h
  | cons part rest ih =>
    unfold walk at h ⊢
    split
    · next up =>
      rw [if_pos up] at h
      split at h
      · exact nomatch h
      · exact nomatch h
      · next inner hd =>
        obtain ⟨inner', hd'⟩ := kept place ⟨inner, hd⟩
        simp only [hd']
        exact ih h
    · next down =>
      rw [if_neg down] at h
      exact ih h

theorem place_eq_ok {place : List String} (h : files.place path = .ok place) :
    checkPath path = .ok () ∧
      files.walk [] (Path.parts (Path.join files.here path)) = .ok place := by
  unfold Files.place at h
  obtain ⟨⟨⟩, valid, h⟩ := bind_eq_ok.mp h
  obtain ⟨last, led, h⟩ := bind_eq_ok.mp h
  split at h
  · split at h
    · exact nomatch h
    · obtain rfl := Except.ok.inj h
      exact ⟨valid, led⟩
  · obtain rfl := Except.ok.inj h
    exact ⟨valid, led⟩

/-- Entries are those of the directory that a path leads to. -/
theorem entries_eq_ok (h : files.entries path = .ok es) :
    ∃ place, files.place path = .ok place ∧ files.root.get place = .ok (.directory es) := by
  unfold entries get at h
  obtain ⟨node, h, he⟩ := bind_eq_ok.mp h
  obtain ⟨place, hp, found⟩ := bind_eq_ok.mp h
  cases node with
  | file bytes => exact nomatch he
  | directory all =>
    obtain rfl := Except.ok.inj he
    exact ⟨place, hp, found⟩

theorem place_of_directory {place : List String} (valid : checkPath path = .ok ())
    (led : files.walk [] (Path.parts (Path.join files.here path)) = .ok place)
    (found : files.root.get place = .ok (.directory es)) : files.place path = .ok place := by
  unfold Files.place
  simp only [valid, led, bind, Except.bind, pure, Except.pure, found]

theorem entries_of_place {place : List String} (valid : checkPath path = .ok ())
    (led : files.walk [] (Path.parts (Path.join files.here path)) = .ok place)
    (found : files.root.get place = .ok (.directory es)) : files.entries path = .ok es := by
  unfold entries get
  simp only [place_of_directory valid led found, bind, Except.bind, pure, Except.pure, found]

theorem setEntries_eq {place : List String} (hp : files.place path = .ok place) (es : Entries) :
    files.setEntries path es =
      (files.root.inDirectory place fun _ => .ok es).map fun root => { files with root } := by
  unfold setEntries
  rw [hp]
  rfl

/-- Whether a tree of files is another one with other entries in one directory, which is all that a
later rewriting of the directory changes too. -/
structure Rewrites (files : Files) (path : String) (es : Entries) (files' : Files) : Prop where
  set : files.setEntries path es = .ok files'
  found : files'.entries path = .ok es
  again : ∀ es', files'.setEntries path es' = files.setEntries path es'

theorem Rewrites.trans {files' files'' : Files} (h : files.Rewrites path es files')
    (h' : files'.Rewrites path es' files'') : files.Rewrites path es' files'' where
  set := (h.again es').symm.trans h'.set
  found := h'.found
  again es'' := (h'.again es'').trans (h.again es'')

/-- Entries can be replaced under the path of their directory by others that keep its directories. -/
theorem exists_rewrites (h : files.entries path = .ok es) (kept : Node.KeepsDirectories es es') :
    ∃ files', files.Rewrites path es' files' := by
  obtain ⟨place, hp, found⟩ := entries_eq_ok h
  obtain ⟨valid, led⟩ := place_eq_ok hp
  obtain ⟨root, changed, found'⟩ := Node.exists_rewritten found es'
  have still (p : List String) := Node.isDirectory_of_rewritten kept found changed (p := p)
  have led' := walk_of_directories still led
  refine ⟨{ files with root }, ?_, entries_of_place valid led' found', fun es'' => ?_⟩
  · rw [setEntries_eq hp, changed]
    rfl
  · rw [setEntries_eq hp, setEntries_eq (place_of_directory valid led' found'),
      Node.inDirectory_rewritten found changed]

end Files

/-- An operation on a queue that keeps the directories beside its records gives and leaves behind what
the change of its entries does. -/
theorem Store.exists_inDirectory {α : Type} {files : Files} {path : String} {es : Entries}
    (h : files.entries path = .ok es) (change : Entries → Except QueueError α × Entries)
    (kept : Node.KeepsDirectories es (change es).2) :
    ∃ files', inDirectory files path change = ⟨(change es).1, files', .directory path⟩ ∧
      files.Rewrites path (change es).2 files' := by
  obtain ⟨files', rewrites⟩ := Files.exists_rewrites h kept
  refine ⟨files', ?_, rewrites⟩
  unfold inDirectory
  rw [h]
  simp only [rewrites.set]

end Galley
