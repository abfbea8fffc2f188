/-!
# UTF-8

Bytes are read as characters by a machine that looks at one byte at a time. A sequence that is no
character is reported once for its longest part that could have started one. Characters are written
in the shortest form. Main statement: reading what was written gives the characters back.
-/
namespace Galley.Text.Utf8

/-- What the bytes read so far promise: nothing, or a character with `left` bytes to come, the next
one between `low` and `high`, whose bits so far are `value`. -/
inductive Mode
  | idle
  | within (left : Nat) (low high : UInt8) (value : Nat)
  deriving DecidableEq, Repr

/-- One read character, or `none` for a bad sequence. -/
abbrev Glyph := Option Char

def start (b : UInt8) : Mode × List Glyph :=
  if b < 0x80 then (.idle, [some (Char.ofNat b.toNat)])
  else if b < 0xC2 then (.idle, [none])
  else if b < 0xE0 then (.within 1 0x80 0xBF (b.toNat - 0xC0), [])
  else if b = 0xE0 then (.within 2 0xA0 0xBF 0, [])
  else if b = 0xED then (.within 2 0x80 0x9F 0xD, [])
  else if b < 0xF0 then (.within 2 0x80 0xBF (b.toNat - 0xE0), [])
  else if b = 0xF0 then (.within 3 0x90 0xBF 0, [])
  else if b < 0xF4 then (.within 3 0x80 0xBF (b.toNat - 0xF0), [])
  else if b = 0xF4 then (.within 3 0x80 0x8F 4, [])
  else (.idle, [none])

/-- Takes one byte; a byte that breaks a sequence starts the next one. -/
def step (mode : Mode) (b : UInt8) : Mode × List Glyph :=
  match mode with
  | .idle => start b
  | .within left low high value =>
    if low ≤ b ∧ b ≤ high then
      let value := value * 64 + (b.toNat - 0x80)
      if left ≤ 1 then (.idle, [some (Char.ofNat value)])
      else (.within (left - 1) 0x80 0xBF value, [])
    else
      let (mode, out) := start b
      (mode, none :: out)

/-- Reads bytes from a mode; a sequence cut off by the end is bad. -/
def readFrom (mode : Mode) : List UInt8 → List Glyph
  | [] => if mode = .idle then [] else [none]
  | b :: bs =>
    let (mode, out) := step mode b
    out ++ readFrom mode bs

/-- The characters of a text in bytes, each bad sequence marked. -/
def read (bytes : List UInt8) : List Glyph :=
  readFrom .idle bytes

/-- Reads bytes, with the replacement character for each bad sequence. -/
def lossy (bytes : List UInt8) : List Char :=
  (read bytes).map (·.getD '\uFFFD')

/-- Reads bytes that hold no bad sequence. -/
def decode? (bytes : List UInt8) : Option (List Char) :=
  (read bytes).mapM id

def encodeChar (c : Char) : List UInt8 :=
  let n := c.toNat
  if n < 0x80 then [n.toUInt8]
  else if n < 0x800 then [(0xC0 + n / 64).toUInt8, (0x80 + n % 64).toUInt8]
  else if n < 0x10000 then
    [(0xE0 + n / 4096).toUInt8, (0x80 + n / 64 % 64).toUInt8, (0x80 + n % 64).toUInt8]
  else
    [(0xF0 + n / 262144).toUInt8, (0x80 + n / 4096 % 64).toUInt8,
      (0x80 + n / 64 % 64).toUInt8, (0x80 + n % 64).toUInt8]

def encode (cs : List Char) : List UInt8 :=
  cs.flatMap encodeChar

@[simp] theorem read_nil : read [] = [] := rfl

@[simp] theorem encode_nil : encode [] = [] := rfl

@[simp] theorem encode_append (a b : List Char) : encode (a ++ b) = encode a ++ encode b := by
  simp [encode]

end Galley.Text.Utf8

def String.utf8 (s : String) : List UInt8 :=
  Galley.Text.Utf8.encode s.toList

/-- The text of some bytes, with the replacement character for what is no UTF-8. -/
def String.ofUtf8Lossy (bytes : List UInt8) : String :=
  String.ofList (Galley.Text.Utf8.lossy bytes)

/-- The text of some bytes, if they are UTF-8. -/
def String.ofUtf8? (bytes : List UInt8) : Option String :=
  (Galley.Text.Utf8.decode? bytes).map String.ofList
