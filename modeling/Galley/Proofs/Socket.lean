import Galley.Proofs.Hub.Operations
import Galley.Proofs.Message.RoundTrip
import Galley.Proofs.Text.Blank
import Galley.Proofs.Text.Cut
import Galley.Socket
import Galley.Step.Output
/-!
# Frames fall apart into messages

A compact JSON text is one line, since every line end in a text of it is escaped, and what a page
sends is made one line before it goes on. So the line ends of a frame are those that were put
between its messages. Main statement: a frame for a page is split at its line ends into the messages
that waited for the page, in their order.
-/
namespace Galley

/-! ### Texts of one line -/

namespace Json

theorem newline_not_mem_escapeChar (c : Char) : '\n' ∉ escapeChar c := by
  unfold escapeChar
  split
  · decide
  · decide
  · decide
  · decide
  · decide
  · decide
  · decide
  · next hn hr ht =>
    split
    · next low =>
      have digit : ∀ n < 16, Nat.digitChar n ≠ '\n' := by decide
      have high := digit (c.toNat / 16) (by omega)
      have low' := digit (c.toNat % 16) (by omega)
      simp [high.symm, low'.symm]
    · simp_all [eq_comm]

theorem newline_not_mem_writeText (s : String) : '\n' ∉ writeText s := by
  simp [writeText, newline_not_mem_escapeChar]

theorem newline_not_mem_signed (n : Int) : '\n' ∉ Text.Numeral.signed n := by
  have digits : '\n' ∉ Text.Numeral.decimal n.natAbs := Text.Numeral.not_mem_decimal rfl _
  unfold Text.Numeral.signed
  split <;> simp [digits]

mutual

/-- The compact text of a plain value is one line. -/
theorem newline_not_mem_write (level : Nat) : (j : Json) → Plain j → '\n' ∉ write false level j
  | .null, _ => by simp [write]
  | .bool true, _ => by simp [write]
  | .bool false, _ => by simp [write]
  | .number (.int n), _ => newline_not_mem_signed n
  | .string s, _ => newline_not_mem_writeText s
  | .array [], _ => by simp [write]
  | .array (j :: js), h => by
    rw [Plain, PlainItems] at h
    simp [write, lineBreak, newline_not_mem_write (level + 1) j h.1,
      newline_not_mem_writeItems (level + 1) js h.2]
  | .object [], _ => by simp [write]
  | .object ((k, j) :: ms), h => by
    rw [Plain, PlainMembers] at h
    simp [write, lineBreak, afterColon, newline_not_mem_writeText k,
      newline_not_mem_write (level + 1) j h.1, newline_not_mem_writeMembers (level + 1) ms h.2]

theorem newline_not_mem_writeItems (level : Nat) :
    (js : List Json) → PlainItems js → '\n' ∉ writeItems false level js
  | [], _ => List.not_mem_nil
  | j :: js, h => by
    rw [PlainItems] at h
    simp [writeItems, lineBreak, newline_not_mem_write level j h.1,
      newline_not_mem_writeItems level js h.2]

theorem newline_not_mem_writeMembers (level : Nat) :
    (ms : List (String × Json)) → PlainMembers ms → '\n' ∉ writeMembers false level ms
  | [], _ => List.not_mem_nil
  | (k, j) :: ms, h => by
    rw [PlainMembers] at h
    simp [writeMembers, lineBreak, afterColon, newline_not_mem_writeText k,
      newline_not_mem_write level j h.1, newline_not_mem_writeMembers level ms h.2]

end

end Json

theorem Progress.newline_not_mem_text (m : Progress) : '\n' ∉ m.text.toList := by
  rw [text, Json.compact, String.toList_ofList]
  exact Json.newline_not_mem_write 0 _ m.plain_encode

theorem Inbound.newline_not_mem_fold (text : String) : '\n' ∉ (fold text).toList := by
  rw [fold, String.trimBlanks, String.toList_ofList, String.toList_ofList]
  intro h
  obtain ⟨c, -, hc⟩ := List.mem_map.mp (Text.mem_of_mem_trim h)
  split at hc
  · exact absurd hc (by decide)
  · next ne => exact ne hc

/-! ### Frames -/

namespace Socket

/-- What waits for a page: progress of a step, or the line that a text of a page was made into. -/
inductive Waiting : String → Prop
  | progress (o : Output) (command : Command) (payload : String) :
      Waiting (o.progress command payload).text
  | inbound (text : String) (ne : Inbound.fold text ≠ "") : Waiting (Inbound.fold text)

theorem Waiting.newline_not_mem {m : String} (h : Waiting m) : '\n' ∉ m.toList := by
  cases h with
  | progress o command payload => exact (o.progress command payload).newline_not_mem_text
  | inbound text _ => exact Inbound.newline_not_mem_fold text

theorem unframe_frame {messages : List String} (ne : messages ≠ [])
    (h : ∀ m ∈ messages, '\n' ∉ m.toList) : unframe (frame messages) = messages := by
  have parts : ∀ p ∈ messages.map String.toList, '\n' ∉ p := by simpa using h
  have line : "\n".toList = ['\n'] := rfl
  rw [unframe, frame, String.toList_intercalate, line,
    Text.pieces_intercalate (by simpa using ne) parts, List.map_map]
  simp [Function.comp_def]

theorem next?_of_buffer {hubs : Hubs} {id : Nat} {c : Connection}
    (there : hubs.connection? id = some c) (ne : c.buffer ≠ []) :
    next? hubs id =
      (some (frame c.buffer), hubs.modifyConnection id fun c => { c with buffer := [] }) := by
  obtain ⟨first, rest, full⟩ := List.exists_cons_of_ne_nil ne
  simp [next?, there, full]

/-- What waits for a page goes out as one frame, whose lines are the messages in their order, and
nothing is left waiting. -/
theorem next?_lines {hubs : Hubs} {id : Nat} {c : Connection}
    (there : hubs.connection? id = some c) (ne : c.buffer ≠ [])
    (waiting : ∀ m ∈ c.buffer, Waiting m) :
    ∃ text after, next? hubs id = (some text, after) ∧ unframe text = c.buffer ∧
      (after.connection? id).map (·.buffer) = some [] := by
  refine ⟨_, _, next?_of_buffer there ne, ?_, ?_⟩
  · exact unframe_frame ne fun m hm => (waiting m hm).newline_not_mem
  · have emptied := hubs.connection?_modifyConnection id id
      (fun c => { c with buffer := [] }) fun _ => rfl
    rw [emptied, there, if_pos rfl]
    rfl

/-- A step whose page has a line end in its name. -/
def torn : Output :=
  ⟨"p\n1", "u\n1", "individual", "", ⟨"1", "deadbeef", "alpine:latest"⟩, ⟨"run.log", 0, ""⟩, none, []⟩

/-- A page for which progress with a line end and a text of two lines wait. -/
def crowded : Connection :=
  ⟨1, 7, [(torn.progress .htmlAppend "a\nb").text, Inbound.fold " c\nd\n"]⟩

def crowdedHubs : Hubs := ⟨256, 256, 2, [⟨7, [], [1], 1⟩], [crowded]⟩

theorem crowded_waiting : ∀ m ∈ crowded.buffer, Waiting m := by
  have line : Inbound.fold " c\nd\n" ≠ "" := by decide
  simpa [crowded] using And.intro (Waiting.progress torn .htmlAppend "a\nb") (.inbound _ line)

theorem next?_lines_crowded : (crowdedHubs.connection? 1 = some crowded ∧ crowded.buffer ≠ [] ∧
    ∀ m ∈ crowded.buffer, Waiting m) ∧
    ∃ text after, next? crowdedHubs 1 = (some text, after) ∧ unframe text = crowded.buffer ∧
      (after.connection? 1).map (·.buffer) = some [] := by
  have there : crowdedHubs.connection? 1 = some crowded := rfl
  have ne : crowded.buffer ≠ [] := List.cons_ne_nil _ _
  exact ⟨⟨there, ne, crowded_waiting⟩, next?_lines there ne crowded_waiting⟩

end Socket

end Galley
