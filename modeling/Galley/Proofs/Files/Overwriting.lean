import Galley.Proofs.Files.Rewriting
import Mathlib.Data.List.Basic
/-!
# Files that are written over

What is left behind when a file that is there gets new bytes. Nothing else changes: all paths lead
where they led, and every other file has its bytes. Main statement: a file under a path with a name gets
what a change makes of it, and no other file does.
-/
namespace Galley

namespace Path

/-- Whether a path has a name as its last part. -/
def EndsWith (path name : String) : Prop :=
  path = name ∨ ∃ above, path = above ++ "/" ++ name

variable {name : String} (relative : name.toList.head? ≠ some '/')

include relative in
/-- A directory's path and a name make a path that ends with the name. -/
theorem endsWith_join (dir : String) : EndsWith (join dir name) name := by
  unfold join
  rw [if_neg relative]
  split
  · next isRoot =>
    rcases isRoot with bare | slash
    · exact .inl (by rw [String.isEmpty_iff.mp bare, String.empty_append])
    · obtain ⟨above, hd⟩ := List.getLast?_eq_some_iff.mp slash
      refine .inr ⟨String.ofList above, String.ext ?_⟩
      simp [hd]
  · exact .inr ⟨dir, rfl⟩

include relative in
theorem EndsWith.join {path : String} (h : EndsWith path name) (base : String) :
    EndsWith (Path.join base path) name := by
  rcases h with rfl | ⟨above, rfl⟩
  · exact endsWith_join relative base
  · unfold Path.join
    split
    · exact .inr ⟨above, rfl⟩
    · split
      · exact .inr ⟨base ++ above, by simp [String.append_assoc]⟩
      · exact .inr ⟨base ++ "/" ++ above, by simp [String.append_assoc]⟩

/-- A slash stands between parts. -/
theorem parts_slash (above below : String) :
    Path.parts (above ++ "/" ++ below) = Path.parts above ++ Path.parts below := by
  have cut : (above ++ "/" ++ below).toList.splitOn '/' =
      above.toList.splitOn '/' ++ below.toList.splitOn '/' := by
    rw [String.toList_append, String.toList_append, List.append_assoc]
    exact List.splitOn_append_cons_self _ _
  rw [Path.parts, cut, List.map_append, List.filter_append]
  rfl

theorem parts_of_name (whole : '/' ∉ name.toList) (counts : name ≠ "" ∧ name ≠ ".") :
    Path.parts name = [name] := by
  have alone : name.toList.splitOn '/' = [name.toList] := List.splitOn_eq_singleton whole
  simp [Path.parts, alone, counts]

/-- The name is the last part then. -/
theorem EndsWith.parts {path : String} (h : EndsWith path name) (whole : '/' ∉ name.toList)
    (counts : name ≠ "" ∧ name ≠ ".") : ∃ above, Path.parts path = above ++ [name] := by
  rcases h with rfl | ⟨above, rfl⟩
  · exact ⟨[], parts_of_name whole counts⟩
  · exact ⟨Path.parts above, by rw [parts_slash, parts_of_name whole counts]⟩

end Path

namespace Node

variable {node node' child child' : Node} {es : Entries} {name : String} {place : List String}
  {old bytes : List UInt8}

/-- Whether a tree is another one in which a file has new bytes. -/
structure Overwrites (node : Node) (place : List String) (bytes : List UInt8) (node' : Node) :
    Prop where
  kind : ∀ p, (node'.get p).map isDirectory = (node.get p).map isDirectory
  found : node'.get place = .ok (.file bytes)
  other : ∀ p old, p ≠ place → node.get p = .ok (.file old) → node'.get p = .ok (.file old)

/-- Where two answers are of one kind, they are the same error, two files or two directories. -/
theorem cases_of_kind {r r' : Except FileError Node} (h : r.map isDirectory = r'.map isDirectory) :
    (∃ e, r = .error e ∧ r' = .error e) ∨ (∃ b b', r = .ok (.file b) ∧ r' = .ok (.file b')) ∨
      ∃ es es', r = .ok (.directory es) ∧ r' = .ok (.directory es') := by
  rcases r with e | b | es <;> rcases r' with e' | b' | es' <;>
    simp_all [Except.map, isDirectory]

/-- A file itself is written over. -/
theorem overwrites_file (old bytes : List UInt8) : (file old).Overwrites [] bytes (file bytes) where
  kind p := by cases p <;> rfl
  found := rfl
  other p _ elsewhere h := by
    cases p with
    | nil => exact absurd rfl elsewhere
    | cons name rest => exact nomatch h

/-- A file in an entry of a directory is written over. -/
theorem Overwrites.put (h : child.Overwrites place bytes child') (held : es.find? name = some child)
    (short : ¬ maxName < name.utf8ByteSize) :
    (directory es).Overwrites (name :: place) bytes (directory (es.put name child')) where
  kind p := by
    cases p with
    | nil => rfl
    | cons n rest =>
      rw [get_cons, get_cons, Entries.find?_put]
      by_cases same : name = n
      · subst same
        rw [if_neg short, if_neg short, if_pos rfl, held]
        exact h.kind rest
      · rw [if_neg same]
  found := by
    rw [get_cons, if_neg short, Entries.find?_put, if_pos rfl]
    exact h.found
  other p old elsewhere found := by
    cases p with
    | nil => exact nomatch found
    | cons n rest =>
      rw [get_cons] at found ⊢
      rw [Entries.find?_put]
      by_cases same : name = n
      · subst same
        rw [if_neg short, held] at found
        rw [if_neg short, if_pos rfl]
        exact h.other rest old (fun hr => elsewhere (hr ▸ rfl)) found
      · rwa [if_neg same]

/-- What is under a name is an entry of the directory that the path before it leads to. -/
theorem get_concat {above : List String} (found : node.get (above ++ [name]) = .ok child) :
    ∃ es, node.get above = .ok (.directory es) ∧ ¬ maxName < name.utf8ByteSize ∧
      Entries.find? es name = some child := by
  induction above generalizing node with
  | nil =>
    obtain ⟨es, c, rfl, short, held, hc⟩ := get_cons_ok found
    exact ⟨es, rfl, short, held.trans (congrArg some (Except.ok.inj hc))⟩
  | cons n rest ih =>
    obtain ⟨all, c, rfl, short, held, found⟩ := get_cons_ok found
    rw [get_cons, if_neg short, held]
    exact ih found

/-- A directory is changed by what the change makes of its entries. -/
theorem inDirectory_of_get (found : node.get place = .ok (.directory es))
    (change : Entries → Except FileError Entries) :
    node.inDirectory place change =
      change es >>= fun es' => node.inDirectory place fun _ => .ok es' := by
  induction place generalizing node with
  | nil =>
    obtain rfl := Except.ok.inj found
    cases h : change es <;> simp [inDirectory, modify, h, bind, Except.bind, Except.map]
  | cons name rest ih =>
    obtain ⟨all, child, rfl, short, held, found⟩ := get_cons_ok found
    have below := ih found
    unfold inDirectory at below ⊢
    simp only [modify, if_neg short, held, below]
    cases change es <;> rfl

theorem exists_overwritten {above : List String} (found : node.get above = .ok (.directory es))
    (held : es.find? name = some (.file old)) (short : ¬ maxName < name.utf8ByteSize)
    (bytes : List UInt8) :
    ∃ node', node.inDirectory above (fun _ => .ok (es.put name (.file bytes))) = .ok node' ∧
      node.Overwrites (above ++ [name]) bytes node' := by
  induction above generalizing node with
  | nil =>
    obtain rfl := Except.ok.inj found
    exact ⟨_, rfl, (overwrites_file old bytes).put held short⟩
  | cons n rest ih =>
    obtain ⟨all, child, rfl, short', held', found⟩ := get_cons_ok found
    obtain ⟨child', changed, wrote⟩ := ih found
    refine ⟨.directory (Entries.put all n child'), ?_, wrote.put held' short'⟩
    unfold inDirectory at changed ⊢
    rw [modify, if_neg short', held']
    simp only [changed]
    rfl

end Node

namespace Files

variable {files files' : Files} {path : String} {old new : List UInt8}

theorem read_eq_ok {bytes : List UInt8} : files.read path = .ok bytes ↔
    ∃ place, files.place path = .ok place ∧ files.root.get place = .ok (.file bytes) := by
  unfold read get
  constructor
  · intro h
    obtain ⟨node, h, hr⟩ := bind_eq_ok.mp h
    obtain ⟨place, hp, hn⟩ := bind_eq_ok.mp h
    cases node with
    | directory es => exact nomatch hr
    | file b =>
      obtain rfl := Except.ok.inj hr
      exact ⟨place, hp, hn⟩
  · rintro ⟨place, hp, hn⟩
    simp only [hp, hn, bind, Except.bind, pure, Except.pure]

section Kind

variable {root : Node}
  (kind : ∀ p, (root.get p).map Node.isDirectory = (files.root.get p).map Node.isDirectory)

include kind in
/-- A path leads to the same place in a tree with the same directories and files. -/
theorem walk_of_kind (place parts : List String) :
    ({ files with root } : Files).walk place parts = files.walk place parts := by
  induction parts generalizing place with
  | nil => rfl
  | cons part rest ih =>
    unfold walk
    rw [ih, ih]
    obtain ⟨e, h, h'⟩ | ⟨b, b', h, h'⟩ | ⟨es, es', h, h'⟩ := Node.cases_of_kind (kind place) <;>
      simp only [h, h']

include kind in
theorem place_of_kind (path : String) :
    ({ files with root } : Files).place path = files.place path := by
  unfold place
  rw [walk_of_kind kind]
  rcases files.walk [] (Path.parts (Path.join files.here path)) with e | place
  · rfl
  · simp only [bind, Except.bind]
    obtain ⟨e, h, h'⟩ | ⟨b, b', h, h'⟩ | ⟨es, es', h, h'⟩ := Node.cases_of_kind (kind place) <;>
      simp only [h, h']

end Kind

/-- Whether files are others that differ at most in what the file under one path has. -/
structure Spares (files : Files) (path : String) (files' : Files) : Prop where
  place : files'.place = files.place
  other : ∀ p old, files.place p ≠ files.place path → files.read p = .ok old → files'.read p = .ok old

/-- Whether files are others of which one has new bytes. -/
structure Overwrites (files : Files) (path : String) (bytes : List UInt8) (files' : Files) : Prop
    extends Spares files path files' where
  found : files'.read path = .ok bytes

theorem Spares.refl (files : Files) (path : String) : files.Spares path files := ⟨rfl, fun _ _ _ h => h⟩

theorem Spares.trans {files'' : Files} (h : files.Spares path files')
    (h' : files'.Spares path files'') : files.Spares path files'' where
  place := h'.place.trans h.place
  other p old elsewhere found := h'.other p old (h.place ▸ elsewhere) (h.other p old elsewhere found)

/-- A path to a file does not go into it. -/
theorem outside_of_file {place : List String} (hp : files.place path = .ok place)
    (found : files.root.get place = .ok (.file old)) : Path.endsInside path = false := by
  unfold Files.place at hp
  obtain ⟨⟨⟩, -, h⟩ := bind_eq_ok.mp hp
  obtain ⟨last, -, h⟩ := bind_eq_ok.mp h
  split at h
  · split at h
    · exact nomatch h
    · next outside => exact Bool.eq_false_iff.mpr outside
  · next none =>
    obtain rfl := Except.ok.inj h
    exact absurd found (none old)

/-- What is under a path gets the node that the change makes of it. -/
theorem update_eq {above : List String} {name : String} {child : Node}
    (hp : files.place path = .ok (above ++ [name]))
    (found : files.root.get (above ++ [name]) = .ok child) (outside : Path.endsInside path = false)
    (change : Option Node → Except FileError Node) :
    ∃ es : Entries, files.root.get above = .ok (.directory es) ∧ es.find? name = some child ∧
      files.update path change = change (some child) >>= fun node =>
        (files.root.inDirectory above fun _ => .ok (es.put name node)) >>= fun root =>
          .ok { files with root } := by
  obtain ⟨es, hd, short, held⟩ := Node.get_concat found
  have changed := Node.inDirectory_of_get hd fun es => do
    return Entries.put es name (← change (Entries.find? es name))
  refine ⟨es, hd, held, ?_⟩
  unfold update
  simp only [hp, bind, Except.bind, List.getLast?_concat, List.dropLast_concat, outside,
    Bool.false_eq_true, if_false, if_neg short] at changed ⊢
  rw [changed, held]
  cases change (some child) <;> rfl

/-- A file under a path with a name gets the new bytes. -/
theorem exists_overwrites {above : List String} {name : String}
    (hp : files.place path = .ok (above ++ [name]))
    (found : files.root.get (above ++ [name]) = .ok (.file old))
    {change : Option Node → Except FileError Node}
    (changed : change (some (.file old)) = .ok (.file new)) :
    ∃ files', files.update path change = .ok files' ∧ files.Overwrites path new files' := by
  obtain ⟨es, hd, held, eq⟩ := update_eq hp found (outside_of_file hp found) change
  obtain ⟨_, _, short, _⟩ := Node.get_concat found
  obtain ⟨root, made, wrote⟩ := Node.exists_overwritten hd held short new
  have place := place_of_kind wrote.kind
  refine ⟨{ files with root }, ?_, ⟨funext place, fun p b elsewhere h => ?_⟩, ?_⟩
  · rw [eq, changed]
    simp only [made, bind, Except.bind]
  · obtain ⟨q, hq, hf⟩ := read_eq_ok.mp h
    refine read_eq_ok.mpr ⟨q, (place p).trans hq, wrote.other q b ?_ hf⟩
    rintro rfl
    exact elsewhere (hq.trans hp.symm)
  · exact read_eq_ok.mpr ⟨_, (place path).trans hp, wrote.found⟩

/-- There is no file under a path that leads to the root. -/
theorem update_root (hp : files.place path = .ok []) (change : Option Node → Except FileError Node) :
    files.update path change = .error .isDirectory := by
  unfold update
  rw [hp]
  rfl

/-- A directory is not written over. -/
theorem update_directory {place : List String} {es : Entries} (hp : files.place path = .ok place)
    (found : files.root.get place = .ok (.directory es))
    {change : Option Node → Except FileError Node}
    (refused : change (some (.directory es)) = .error .isDirectory) :
    files.update path change = .error .isDirectory := by
  obtain rfl | ⟨above, name, rfl⟩ := place.eq_nil_or_concat'
  · exact update_root hp change
  cases outside : Path.endsInside path with
  | true =>
    unfold update
    simp only [hp, bind, Except.bind, List.getLast?_concat, outside]
    rfl
  | false =>
    obtain ⟨_, -, -, eq⟩ := update_eq hp found outside change
    rw [eq, refused]
    rfl

/-- What is appended under a path that leads somewhere is lost, or it is in the file there. -/
theorem append_spares (there : files.exist path = true) (bytes : List UInt8) :
    files.Spares path ((files.append path bytes).toOption.getD files) := by
  have lost (h : files.append path bytes = .error .isDirectory) :
      files.Spares path ((files.append path bytes).toOption.getD files) := by
    rw [h]
    exact .refl files path
  rcases h : files.get path with e | node
  · rw [exist, h] at there
    exact nomatch there
  obtain ⟨place, hp, found⟩ := bind_eq_ok.mp h
  cases node with
  | directory es => exact lost (update_directory hp found rfl)
  | file old =>
    obtain rfl | ⟨above, name, rfl⟩ := place.eq_nil_or_concat'
    · exact lost (update_root hp _)
    · obtain ⟨files', eq, wrote⟩ : ∃ files', files.append path bytes = .ok files' ∧
          files.Overwrites path (old ++ bytes) files' := exists_overwrites hp found rfl
      rw [eq]
      exact wrote.toSpares

theorem walk_concat {name : String} (down : name ≠ "..") {place parts last : List String}
    (led : files.walk place (parts ++ [name]) = .ok last) : ∃ above, last = above ++ [name] := by
  induction parts generalizing place with
  | nil =>
    rw [List.nil_append, walk, if_neg down] at led
    exact ⟨place, (Except.ok.inj led).symm⟩
  | cons part rest ih =>
    rw [List.cons_append, walk] at led
    split at led
    · split at led
      · cases led
      · cases led
      · exact ih led
    · exact ih led

/-- What a directory's path and a name lead to is under that name. -/
theorem place_join {dir name : String} {place : List String} (relative : name.toList.head? ≠ some '/')
    (whole : '/' ∉ name.toList) (counts : name ≠ "" ∧ name ≠ ".") (down : name ≠ "..")
    (hp : files.place (Path.join dir name) = .ok place) : ∃ above, place = above ++ [name] := by
  have ends := (Path.endsWith_join relative dir).join relative files.here
  obtain ⟨parts, hparts⟩ := ends.parts whole counts
  obtain ⟨-, led⟩ := place_eq_ok hp
  rw [hparts] at led
  exact walk_concat down led

end Files

end Galley
