import Galley.Text.Numeral
import Galley.Text.Split
/-!
# Assignments in TOML

The part of TOML that a settings file uses: comments and assignments of texts and whole numbers to
single keys, one to a line. All other TOML has no meaning in a settings file and is refused with
everything that is no TOML: tables, dotted keys, lists, truth values, dates and other numbers. No
key is assigned twice.
-/
namespace Galley.Toml

inductive Value
  | text (s : String)
  | whole (n : Int)
  deriving DecidableEq, Repr

/-- What a reader makes of the start of a text, with the rest of the text. -/
abbrev Reader (α : Type) := List Char → Option (α × List Char)

/-- The text with the line feed alone as the end of a line. -/
def unifyLines : List Char → List Char
  | '\r' :: '\n' :: rest => '\n' :: unifyLines rest
  | c :: rest => c :: unifyLines rest
  | [] => []

def isSpace (c : Char) : Bool := c = ' ' || c = '\t'

/-- A character that may stand in a text or a comment: no control but the tab. -/
def isPlain (c : Char) : Bool :=
  c = '\t' || (0x20 ≤ c.toNat && c.toNat ≠ 0x7F)

def skipSpaces (cs : List Char) : List Char :=
  cs.dropWhile isSpace

def escapeLetter? (c : Char) : Option Char :=
  match c with
  | 'b' => some '\x08'
  | 't' => some '\t'
  | 'n' => some '\n'
  | 'f' => some '\x0c'
  | 'r' => some '\r'
  | '"' => some '"'
  | '\\' => some '\\'
  | _ => none

def escapeWidth? (c : Char) : Option Nat :=
  match c with
  | 'u' => some 4
  | 'U' => some 8
  | _ => none

def numbered? (digits : List Char) : Option Char := do
  let values ← digits.mapM Text.Numeral.hexValue?
  let n := values.foldl (fun n d => 16 * n + d) 0
  if h : n.isValidChar then some (Char.ofNatAux n h) else none

def escape? : Reader Char
  | [] => none
  | c :: rest =>
    match escapeLetter? c with
    | some e => some (e, rest)
    | none =>
      match escapeWidth? c with
      | none => none
      | some width =>
        if (rest.take width).length = width then
          (numbered? (rest.take width)).map fun e => (e, rest.drop width)
        else none

theorem escape?_length {cs rest : List Char} {c : Char} (h : escape? cs = some (c, rest)) :
    rest.length < cs.length := by
  unfold escape? at h
  split at h
  · simp at h
  · split at h
    · simp only [Option.some.injEq, Prod.mk.injEq] at h
      simp [← h.2]
    · split at h
      · simp at h
      · split at h
        · simp only [Option.map_eq_some_iff, Prod.mk.injEq] at h
          obtain ⟨_, -, -, rfl⟩ := h
          simp only [List.length_drop, List.length_cons]
          omega
        · simp at h

/-- The rest of a text of several lines after a backslash that ends a line: the blanks at its end,
and those at the start of the lines after it, do not count. -/
def gap? (cs : List Char) : Option (List Char) :=
  match skipSpaces cs with
  | '\n' :: rest => some (rest.dropWhile fun c => isSpace c || c = '\n')
  | _ => none

theorem gap?_length {cs rest : List Char} (h : gap? cs = some rest) : rest.length < cs.length := by
  unfold gap? at h
  split at h
  · next after heq =>
    have short : (skipSpaces cs).length ≤ cs.length := by
      simpa [skipSpaces] using (List.dropWhile_suffix isSpace).length_le
    have shorter := (List.dropWhile_suffix (l := after) fun c => isSpace c || c = '\n').length_le
    simp only [Option.some.injEq] at h
    rw [heq, List.length_cons] at short
    rw [← h]
    omega
  · simp at h

/-- The quotes that belong to a text of several lines when quotes end it, with the rest: three end
it, and up to two more in front of them belong to it. -/
def closing? (quote : Char) (cs : List Char) : Option (List Char × List Char) :=
  let run := (cs.takeWhile (· = quote)).length
  if run < 3 then none
  else
    let own := min run 5 - 3
    some (cs.take own, cs.drop (own + 3))

/-- Reads a text between double quotes up to its end. -/
def basic? (cs : List Char) : Option (List Char × List Char) :=
  match cs with
  | [] => none
  | '"' :: rest => some ([], rest)
  | '\\' :: rest =>
    match h : escape? rest with
    | none => none
    | some (c, after) =>
      have := escape?_length h
      (basic? after).map fun (text, rest) => (c :: text, rest)
  | c :: rest =>
    if isPlain c then (basic? rest).map fun (text, rest) => (c :: text, rest) else none
termination_by cs.length

def basicLines? (cs : List Char) : Option (List Char × List Char) :=
  match closing? '"' cs with
  | some closed => some closed
  | none =>
    match cs with
    | [] => none
    | '\\' :: rest =>
      match h : escape? rest with
      | some (c, after) =>
        have := escape?_length h
        (basicLines? after).map fun (text, rest) => (c :: text, rest)
      | none =>
        match h' : gap? rest with
        | none => none
        | some after =>
          have := gap?_length h'
          basicLines? after
    | c :: rest =>
      if isPlain c || c = '\n' then
        (basicLines? rest).map fun (text, rest) => (c :: text, rest)
      else none
termination_by cs.length

/-- Reads a text between single quotes, in which nothing is escaped, up to its end. -/
def literal? : Reader (List Char)
  | [] => none
  | c :: rest =>
    if c = '\'' then some ([], rest)
    else if isPlain c then (literal? rest).map fun (text, rest) => (c :: text, rest)
    else none

def literalLines? (cs : List Char) : Option (List Char × List Char) :=
  match closing? '\'' cs with
  | some closed => some closed
  | none =>
    match cs with
    | [] => none
    | c :: rest =>
      if isPlain c || c = '\n' then
        (literalLines? rest).map fun (text, rest) => (c :: text, rest)
      else none

/-- A line end right after the opening quotes of a text of several lines does not count. -/
def skipFirstLineEnd : List Char → List Char
  | '\n' :: rest => rest
  | cs => cs

/-- The digits of a group of digits, in which single underscores may stand between digits. -/
def grouped? (isDigit : Char → Bool) (cs : List Char) : Option (List Char) :=
  let runs := Text.pieces '_' cs
  if runs.all fun run => run ≠ [] ∧ run.all isDigit then some runs.flatten else none

def based? (base : Nat) (cs : List Char) : Option Int := do
  let digits ← grouped? (fun c => (Text.Numeral.hexValue? c).any (· < base)) cs
  let n := digits.foldl (fun n c => base * n + (Text.Numeral.hexValue? c).getD 0) 0
  return n

/-- A decimal number without a sign, with no zero in front of other digits. -/
def decimal? (cs : List Char) : Option Int :=
  if cs.head? = some '0' ∧ 1 < cs.length then none else based? 10 cs

def whole? (word : List Char) : Option Int :=
  let n := match word with
    | '0' :: 'x' :: rest => based? 16 rest
    | '0' :: 'o' :: rest => based? 8 rest
    | '0' :: 'b' :: rest => based? 2 rest
    | '+' :: rest => decimal? rest
    | '-' :: rest => (decimal? rest).map (- ·)
    | _ => decimal? word
  n.filter fun n => Text.Numeral.minI64 ≤ n ∧ n ≤ Text.Numeral.maxI64

def wholeValue? : Reader Value := fun cs =>
  let word := cs.takeWhile fun c => !isSpace c && c != '\n' && c != '#'
  (whole? word).map fun n => (.whole n, cs.drop word.length)

def textValue (r : List Char × List Char) : Value × List Char :=
  (.text (String.ofList r.1), r.2)

def value? : Reader Value := fun cs =>
  match cs with
  | '"' :: '"' :: '"' :: rest => (basicLines? (skipFirstLineEnd rest)).map textValue
  | '"' :: rest => (basic? rest).map textValue
  | '\'' :: '\'' :: '\'' :: rest => (literalLines? (skipFirstLineEnd rest)).map textValue
  | '\'' :: rest => (literal? rest).map textValue
  | _ => wholeValue? cs

def isKeyChar (c : Char) : Bool :=
  c.isAlphanum || c = '-' || c = '_'

def key? : Reader (List Char) := fun cs =>
  match cs with
  | '"' :: rest => basic? rest
  | '\'' :: rest => literal? rest
  | _ =>
    let key := cs.takeWhile isKeyChar
    if key = [] then none else some (key, cs.drop key.length)

/-- The rest of the text after the end of a line that holds nothing but a comment any more. -/
def lineEnd? (cs : List Char) : Option (List Char) :=
  match skipSpaces cs with
  | [] => some []
  | '\n' :: rest => some rest
  | '#' :: rest =>
    let comment := rest.takeWhile (· ≠ '\n')
    if comment.all isPlain then some (rest.drop (comment.length + 1)) else none
  | _ => none

def assignment? : Reader (String × Value) := fun cs => do
  let (key, rest) ← key? (skipSpaces cs)
  match skipSpaces rest with
  | '=' :: rest =>
    let (value, rest) ← value? (skipSpaces rest)
    return ((String.ofList key, value), ← lineEnd? rest)
  | _ => none

def line? : Reader (Option (String × Value)) := fun cs =>
  match lineEnd? cs with
  | some rest => some (none, rest)
  | none => (assignment? cs).map fun (a, rest) => (some a, rest)

/-- Reads lines to the end of the text. Every line is shorter than what it is the start of. -/
def lines? (cs : List Char) : Option (List (String × Value)) :=
  if cs = [] then some []
  else
    match line? cs with
    | none => none
    | some (a, rest) =>
      if rest.length < cs.length then (lines? rest).map (a.toList ++ ·) else none
termination_by cs.length

def hasDistinctKeys (assignments : List (String × Value)) : Bool :=
  decide (assignments.map (·.1)).Nodup

/-- Reads the assignments of a text, which may start with a byte order mark. -/
def ofText? (s : String) : Option (List (String × Value)) :=
  let cs := match s.toList with
    | '\ufeff' :: rest => rest
    | cs => cs
  (lines? (unifyLines cs)).filter hasDistinctKeys

end Galley.Toml
