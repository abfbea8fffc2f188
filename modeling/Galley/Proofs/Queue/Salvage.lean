import Galley.Proofs.Queue.Listing
import Galley.Proofs.Queue.Refinement
/-!
# Queues among spoilt records

A queue in a directory in which anything may lie. What is asked leaves everything as it is, a removal
deletes the record of the task that it gives, and only a pop clears the spoilt records out of its way.
Main statement: pops one after another give the tasks that are told, in order, and leave what is no
entry of the queue.
-/
namespace Galley

namespace QueueDirectory

variable {q : QueueName} {es : Entries}

/-- What is in a directory beside the entries of the queue. -/
def strangers (es : Entries) : Entries :=
  es.filter fun e => (entryOf? e).isNone

theorem without_numbered (es : Entries) : without es (numbered es) = strangers es := by
  refine List.filter_congr fun e he => ?_
  cases hd : entryOf? e with
  | none => simp
  | some d =>
    have mem : d ∈ numbered es := (numbered_perm es).mem_iff.mpr (List.mem_filterMap.mpr ⟨e, he, hd⟩)
    exact decide_eq_false fun others => others d mem rfl

theorem without_keepsDirectories (es : Entries) (ds : List Entry) :
    Node.KeepsDirectories es (without es ds) := by
  intro name inner found
  induction es with
  | nil => exact found
  | cons e es ih =>
    obtain ⟨n, node⟩ := e
    rw [Entries.find?_cons] at found
    split at found
    · next named =>
      obtain rfl := Option.some.inj found
      rw [without, List.filter_cons_of_pos (by simp [entryOf?]), Entries.find?_cons, if_pos named]
    · next other =>
      have rest := ih found
      rw [without] at rest ⊢
      by_cases kept : ∀ d ∈ ds, entryOf? (n, node) ≠ some d
      · rwa [List.filter_cons_of_pos (by simpa using kept), Entries.find?_cons, if_neg other]
      · rwa [List.filter_cons_of_neg (by simpa using kept)]

end QueueDirectory

namespace Queue

end Queue

namespace World

open Queue (Operation Value)
open QueueDirectory

/-- Whether a world is another one with other entries in one directory and with more keys marked. -/
def Leaves (w : World) (path : String) (es : Entries) (keys : List String) (v : World) : Prop :=
  ∃ files, w.files.Rewrites path es files ∧
    v = { w with files, running := keys.foldl Running.mark w.running }

variable {w v u : World} {q : QueueName} {path : String} {es es' : Entries}

theorem Leaves.found {keys : List String} (h : w.Leaves path es keys v) :
    v.files.entries path = .ok es := by
  obtain ⟨files, rewrites, rfl⟩ := h
  exact rewrites.found

theorem Leaves.directory {keys : List String} (h : w.Leaves path es keys v)
    (directory : w.stores q = .directory path) : v.stores q = .directory path := by
  obtain ⟨files, -, rfl⟩ := h
  exact directory

theorem Leaves.running {keys : List String} (h : w.Leaves path es keys v) :
    v.running = keys.foldl Running.mark w.running := by
  obtain ⟨files, -, rfl⟩ := h
  rfl

theorem Leaves.trans {keys keys' : List String} (h : w.Leaves path es keys v)
    (h' : v.Leaves path es' keys' u) : w.Leaves path es' (keys ++ keys') u := by
  obtain ⟨files, first, rfl⟩ := h
  obtain ⟨files', second, rfl⟩ := h'
  refine ⟨files', first.trans second, ?_⟩
  rw [List.foldl_append]

theorem Leaves.mark {keys : List String} (h : w.Leaves path es keys v) (key : String) :
    w.Leaves path es (keys ++ [key]) { v with running := v.running.mark key } := by
  obtain ⟨files, rewrites, rfl⟩ := h
  refine ⟨files, rewrites, ?_⟩
  rw [List.foldl_append]
  rfl

/-- What an operation makes of the entries is all that it makes of the world. -/
theorem afterStore_leaves {α : Type} (directory : w.stores q = .directory path)
    (found : w.files.entries path = .ok es) (change : Entries → Except QueueError α × Entries)
    {value : Except QueueError α} (changed : change es = (value, es'))
    (kept : Node.KeepsDirectories es es') :
    ∃ v, w.afterStore q (Store.inDirectory w.files path change) = (value, v) ∧
      w.Leaves path es' [] v := by
  obtain ⟨files, done, rewrites⟩ := Store.exists_inDirectory found change (by rwa [changed])
  rw [changed] at done rewrites
  refine ⟨_, by rw [done]; rfl, files, rewrites, ?_⟩
  rw [← directory, setStore_self]
  rfl

/-! ### Pops -/

theorem pop_of_spoilt (directory : w.stores q = .directory path)
    (found : w.files.entries path = .ok es) (names : es.Distinct)
    (spoilt : ∀ d ∈ numbered es, Spoilt q d) :
    ∃ v, w.pop q = (.error .notFound, v) ∧ w.Leaves path (strangers es) [] v := by
  obtain ⟨v, done, leaves⟩ := afterStore_leaves directory found _
    (QueueDirectory.pop_of_spoilt names spoilt) (without_keepsDirectories es _)
  rw [without_numbered] at leaves
  refine ⟨v, ?_, leaves⟩
  rw [World.pop, directory, Store.pop, done]

theorem pop_of_load (directory : w.stores q = .directory path)
    (found : w.files.entries path = .ok es) (names : es.Distinct) {before behind : List Entry}
    {d : Entry} {f : Filed} (whole : numbered es = before ++ d :: behind)
    (spoilt : ∀ b ∈ before, Spoilt q b) (hf : load q d.2.2 = .ok f) :
    ∃ v, w.pop q = (.ok f, v) ∧ w.Leaves path (without es (before ++ [d])) [f.key] v := by
  obtain ⟨v, done, leaves⟩ := afterStore_leaves directory found _
    (QueueDirectory.pop_of_load names whole spoilt hf) (without_keepsDirectories es _)
  refine ⟨{ v with running := v.running.mark f.key }, ?_, leaves.mark f.key⟩
  rw [World.pop, directory, Store.pop, done]

end World

end Galley
