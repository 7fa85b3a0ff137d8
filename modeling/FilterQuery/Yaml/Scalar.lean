/-
The text of YAML scalars. In plain and quoted scalars a line may be broken
where a blank could stand: a single line break is read as a space, and of
several the first goes. In block scalars the indentation goes, and the
header says what happens to the line breaks.
-/
import FilterQuery.Yaml.Cursor

namespace FilterQuery
namespace Yaml

-- ============================================================= folding

/-- A scalar being read: its text so far, and what has been read since
that will only count if more text follows. -/
structure Folding where
  text : Text := []
  /-- Blanks, as long as there is no line break. -/
  blanks : Text := []
  /-- A line has been broken. -/
  broken : Bool := false
  /-- The first line break; none if it was escaped. -/
  firstBreak : Text := []
  /-- The line breaks after the first. -/
  moreBreaks : Text := []

namespace Folding

/-- Reads a blank; at the start of a line it does not count. -/
def blank (f : Folding) (c : Char) : Folding :=
  if f.broken then f else { f with blanks := f.blanks ++ [c] }

/-- Reads a line break. -/
def lineBreak (f : Folding) (c : Char) : Folding :=
  if f.broken then { f with moreBreaks := f.moreBreaks ++ [c] }
  else { f with blanks := [], broken := true, firstBreak := [c] }

/-- Reads a line break that is escaped. -/
def escapedBreak (f : Folding) : Folding := { f with broken := true }

/-- Something has been read that waits for more text. -/
def isPending (f : Folding) : Bool := f.broken || !f.blanks.isEmpty

/-- What the breaks and blanks before more text amount to. -/
def gap (f : Folding) : Text :=
  if f.broken then
    if f.firstBreak = ['\n'] then
      if f.moreBreaks.isEmpty then [' '] else f.moreBreaks
    else f.firstBreak ++ f.moreBreaks
  else f.blanks

/-- More text follows, so what was waiting counts. -/
def settle (f : Folding) : Folding := { text := f.text ++ f.gap }

/-- Reads a character of the text. -/
def push (f : Folding) (c : Char) : Folding :=
  { text := f.settle.text ++ [c] }

end Folding

-- ============================================================== quoted

/-- What a backslash with one character after it stands for. -/
def escape? : Char → Option Char
  | '0' => some '\x00'
  | 'a' => some '\x07'
  | 'b' => some '\x08'
  | 't' | '\t' => some '\t'
  | 'n' => some '\n'
  | 'v' => some '\x0b'
  | 'f' => some '\x0c'
  | 'r' => some '\r'
  | 'e' => some '\x1b'
  | ' ' => some ' '
  | '"' => some '"'
  | '/' => some '/'
  | '\\' => some '\\'
  | 'N' => some (.ofNat 0x85)
  | '_' => some (.ofNat 0xA0)
  | 'L' => some (.ofNat 0x2028)
  | 'P' => some (.ofNat 0x2029)
  | _ => none

/-- The number of digits after a backslash and this character. -/
def codeLength? : Char → Option Nat
  | 'x' => some 2
  | 'u' => some 4
  | 'U' => some 8
  | _ => none

/-- The character of a code, unless it is one half of a pair or too large. -/
def charOfCode? (n : Nat) : Option Char :=
  if n < 0xD800 ∨ (0xDFFF < n ∧ n ≤ 0x10FFFF) then some (.ofNat n) else none

/-- Where the reading of a quoted scalar stands. -/
inductive Quoting where
  /-- In the text. -/
  | text
  /-- After a single quote that ends the scalar or is doubled. -/
  | quote
  /-- After a backslash. -/
  | escape
  /-- In the digits of a character code. -/
  | code (left value : Nat)

/-- Reads a quoted scalar from inside on: its text, and what follows the
closing mark. Single quotes escape nothing but themselves. -/
def readQuoted (single : Bool) :
    Quoting → Folding → Mark → Text → Option (Text × Cursor)
  | .quote, f, m, [] => some (f.text, ⟨[], m⟩)
  | _, _, _, [] => none
  | .quote, f, m, c :: t =>
      if c = '\'' then readQuoted single .text (f.push c) (m.after c) t
      else some (f.text, ⟨c :: t, m⟩)
  | .text, f, m, c :: t =>
      if isBlank c then readQuoted single .text (f.blank c) (m.after c) t
      else if isBreak c then
        readQuoted single .text (f.lineBreak c) (m.after c) t
      -- The scalar would go on in another document.
      else if m.column = 0 ∧ isDocumentMarker (c :: t) then none
      else if single then
        if c = '\'' then readQuoted single .quote f.settle (m.after c) t
        else readQuoted single .text (f.push c) (m.after c) t
      else if c = '"' then some (f.settle.text, ⟨t, m.after c⟩)
      else if c = '\\' then
        readQuoted single .escape f.settle (m.after c) t
      else readQuoted single .text (f.push c) (m.after c) t
  | .escape, f, m, c :: t =>
      if isBreak c then
        readQuoted single .text f.escapedBreak (m.after c) t
      else
        match codeLength? c with
        | some n => readQuoted single (.code n 0) f (m.after c) t
        | none =>
            match escape? c with
            | some d => readQuoted single .text (f.push d) (m.after c) t
            | none => none
  | .code left value, f, m, c :: t =>
      match hexDigit? c with
      | none => none
      | some d =>
          if left ≤ 1 then
            match charOfCode? (16 * value + d) with
            | some e => readQuoted single .text (f.push e) (m.after c) t
            | none => none
          else
            readQuoted single (.code (left - 1) (16 * value + d)) f
              (m.after c) t

-- =============================================================== plain

/-- The characters that structure flow collections. -/
def isFlowIndicator (c : Char) : Bool :=
  [',', '[', ']', '\x7b', '\x7d'].contains c

/-- Reads a plain scalar: what of it has been read, and what follows the
blanks and breaks after it. In a block it ends where a line is indented
less than `indent`. -/
def readPlain (inFlow : Bool) (indent : Nat) :
    Folding → Mark → Text → Option (Folding × Cursor)
  | f, m, [] => some (f, ⟨[], m⟩)
  | f, m, c :: t =>
      if isBlank c then
        -- A tab can not indent.
        if f.broken ∧ m.column < indent ∧ c = '\t' then none
        else readPlain inFlow indent (f.blank c) (m.after c) t
      else if isBreak c then
        readPlain inFlow indent (f.lineBreak c) (m.after c) t
      else if f.isPending ∧ (!inFlow ∧ m.column < indent ∨ c = '#') then
        some (f, ⟨c :: t, m⟩)
      else if m.column = 0 ∧ isDocumentMarker (c :: t) then
        some (f, ⟨c :: t, m⟩)
      else if inFlow ∧ c = ':' ∧
          (t.head?.any fun d => isFlowIndicator d || d == '?') then none
      else if c = ':' ∧ isSeparated t ∨ inFlow ∧ isFlowIndicator c then
        some (f, ⟨c :: t, m⟩)
      else readPlain inFlow indent (f.push c) (m.after c) t

-- =============================================================== block

/-- What becomes of the line breaks at the end of a block scalar. -/
inductive Chomping where
  /-- One is kept. -/
  | clip
  /-- None is kept. -/
  | strip
  /-- All are kept. -/
  | keep
  deriving DecidableEq, Repr

/-- Reads the sign of a chomping, if there is one. -/
def readChomping : Text → Chomping × Text
  | '+' :: t => (.keep, t)
  | '-' :: t => (.strip, t)
  | t => (.clip, t)

/-- Reads the digit of an indentation, if there is one; zero is none. -/
def readIndentation : Text → Option (Option Nat × Text)
  | [] => some (none, [])
  | c :: t =>
      if c = '0' then none
      else if c.isDigit then some (some (c.toNat - '0'.toNat), t)
      else some (none, c :: t)

/-- Reads the signs after the indicator of a block scalar: the chomping,
the indentation relative to the level around, and how many signs. -/
def readHeader (t : Text) : Option (Chomping × Option Nat × Nat) := do
  let (chomping, u) := readChomping t
  let (indentation, v) ← readIndentation u
  let (chomping, w) :=
    if u.length = t.length then readChomping v else (chomping, v)
  return (chomping, indentation, t.length - w.length)

/-- The lines of a text, each with the break after it. -/
def linesOf : Text → List (Text × Text)
  | [] => [([], [])]
  | c :: t =>
      if isBreak c then ([], [c]) :: linesOf t
      else
        match linesOf t with
        | [] => [([c], [])]
        | (line, ending) :: lines => (c :: line, ending) :: lines

/-- The indentation of a block scalar, read off its lines: that of the
first line that is not blank, or of a longer blank line before it. A tab
may not stand there. -/
def detectIndentation (widest : Nat) : List (Text × Text) → Option Nat
  | [] => some widest
  | (line, _) :: lines =>
      let column := (line.takeWhile (· == ' ')).length
      let widest := max widest column
      match line.drop column with
      | [] => detectIndentation widest lines
      | c :: _ => if c = '\t' then none else some widest

/-- A block scalar being read. -/
structure Block where
  text : Text := []
  /-- The break after the last line that is not empty. -/
  firstBreak : Text := []
  /-- The breaks of the empty lines after it. -/
  moreBreaks : Text := []
  /-- That line starts with a blank. -/
  indented : Bool := false

/-- Reads a line that is not empty. -/
def Block.line (b : Block) (fold : Bool) (line ending : Text) : Block :=
  let indented := line.head?.any isBlank
  let joined :=
    if fold ∧ b.firstBreak = ['\n'] ∧ !b.indented ∧ !indented then
      if b.moreBreaks.isEmpty then [' '] else []
    else b.firstBreak
  { text := b.text ++ joined ++ b.moreBreaks ++ line
    firstBreak := ending
    indented := indented }

/-- The text of a block scalar. -/
def Block.finish (b : Block) : Chomping → Text
  | .strip => b.text
  | .clip => b.text ++ b.firstBreak
  | .keep => b.text ++ b.firstBreak ++ b.moreBreaks

/-- Reads the lines of a block scalar of known indentation: the scalar and
the number of characters that belong to it, those of the indentation of
the line after it included. -/
def readLines (fold : Bool) (indent : Nat) (b : Block) (taken : Nat) :
    List (Text × Text) → Option (Block × Nat)
  | [] => some (b, taken)
  | (line, ending) :: lines =>
      let column := min indent (line.takeWhile (· == ' ')).length
      match line.drop column with
      | [] =>
          readLines fold indent
            { b with moreBreaks := b.moreBreaks ++ ending }
            (taken + line.length + ending.length) lines
      | c :: content =>
          if column < indent then
            if c = '\t' then none else some (b, taken + column)
          else
            readLines fold indent (b.line fold (c :: content) ending)
              (taken + line.length + ending.length) lines

/-- Reads a block scalar from behind its indicator on; `level` is the
indentation of the block around it, if there is one. -/
def readBlock (fold : Bool) (level : Option Nat) (c : Cursor) :
    Option (Text × Cursor) := do
  let (chomping, indentation, signs) ← readHeader c.rest
  let c ← (c.skip signs).skipLine?
  let lines := linesOf c.rest
  let indent ← match indentation with
    | some n => some (level.getD 0 + n)
    | none => do
        let widest ← detectIndentation 0 lines
        some (max widest (max 1 ((level.map (· + 1)).getD 0)))
  let (b, taken) ← readLines fold indent {} 0 lines
  return (b.finish chomping, c.skip taken)

end Yaml
end FilterQuery
