/-
Positions in a YAML text. Lines and columns matter in YAML: a column is an
indentation level, and a key written without `?` has to stay on one line.
A cursor is the text that is left to read together with the position of
its first character.

Before it is read, a text is brought into one form: a carriage return, the
two of it with a line feed, and a next-line character each become a line
feed. The two Unicode separators break lines as well, but are kept as they
are. A byte order mark is passed over where a line starts, but like any
other character it takes a column.
-/
import FilterQuery.Text

namespace FilterQuery
namespace Yaml

/-- The characters that a YAML text may hold. -/
def isAllowed (c : Char) : Bool :=
  let n := c.toNat
  n == 0x09 || n == 0x0A || n == 0x0D || (0x20 ≤ n && n ≤ 0x7E)
    || n == 0x85 || (0xA0 ≤ n && n ≤ 0xD7FF)
    || (0xE000 ≤ n && n ≤ 0xFFFD) || 0x10000 ≤ n

/-- The byte order mark. -/
def byteOrderMark : Char := .ofNat 0xFEFF

/-- Every line break as one character. -/
def unifyBreaks : Text → Text
  | [] => []
  | '\r' :: '\n' :: t => '\n' :: unifyBreaks t
  | c :: t =>
      (if c = '\r' ∨ c.toNat = 0x85 then '\n' else c) :: unifyBreaks t

-- ========================================================== characters

/-- Ends a line. -/
def isBreak (c : Char) : Bool :=
  c == '\n' || c.toNat == 0x2028 || c.toNat == 0x2029

/-- Separates tokens within a line. -/
def isBlank (c : Char) : Bool := c == ' ' || c == '\t'

/-- A line break or the end of the text. -/
def isEndOfLine : Text → Bool
  | [] => true
  | c :: _ => isBreak c

/-- A blank, a line break or the end of the text. -/
def isSeparated : Text → Bool
  | [] => true
  | c :: _ => isBlank c || isBreak c

/-- The characters of anchors, of handles and of the names of directives. -/
def isNameChar (c : Char) : Bool := c.isAlphanum || c == '_' || c == '-'

/-- Three times a character and then something that separates: with the
right character, and at the start of a line, a document marker. -/
def isTripled (mark : Char) : Text → Bool
  | a :: b :: c :: t => a == mark && b == mark && c == mark && isSeparated t
  | _ => false

/-- A document marker, if at the start of a line. -/
def isDocumentMarker (t : Text) : Bool := isTripled '-' t || isTripled '.' t

-- =========================================================== positions

/-- A position in a text. -/
structure Mark where
  /-- The number of bytes before it. -/
  index : Nat := 0
  line : Nat := 0
  column : Nat := 0
  deriving DecidableEq, Repr

/-- The position after a character. -/
def Mark.after (m : Mark) (c : Char) : Mark :=
  if isBreak c then ⟨m.index + c.utf8Size, m.line + 1, 0⟩
  else ⟨m.index + c.utf8Size, m.line, m.column + 1⟩

/-- What is left of a text, and where it starts. -/
structure Cursor where
  rest : Text
  mark : Mark := {}
  deriving DecidableEq, Repr

namespace Cursor

/-- Moves over so many characters. -/
def skip (c : Cursor) (n : Nat) : Cursor :=
  ⟨c.rest.drop n, (c.rest.take n).foldl Mark.after c.mark⟩

/-- Moves over characters of a kind, and says which. -/
def span (p : Char → Bool) (c : Cursor) : Text × Cursor :=
  let t := c.rest.takeWhile p
  (t, c.skip t.length)

/-- Moves over blanks. -/
def skipBlanks (c : Cursor) : Cursor := (c.span isBlank).2

/-- Moves over blanks and a comment to the end of the line, and over the
line break; nothing else may stand there. -/
def skipLine? (c : Cursor) : Option Cursor :=
  let c := c.skipBlanks
  let c := if c.rest.head? = some '#' then (c.span (!isBreak ·)).2 else c
  if isEndOfLine c.rest then some (c.skip 1) else none

end Cursor
end Yaml
end FilterQuery
