/-
The tokens of a JSON text. Scanning goes character by character and stops
at the first character that no token can have there; what was read before
it is kept, so that a reader can still tell which fault comes first.

A string may escape the two halves of a character beyond the basic plane
separately. Such halves are paired after the string has been read; a
string with a half left over is a token all the same, but has no text.
-/
import FilterQuery.Text

namespace FilterQuery
namespace Json

/-- A part of a string: a character, or half of one. -/
inductive Piece where
  | char (c : Char)
  | half (unit : Nat)
  deriving DecidableEq, Repr

namespace Piece

/-- What a four-digit escape stands for. -/
def ofUnit (n : Nat) : Piece :=
  if 0xD800 ≤ n ∧ n ≤ 0xDFFF then half n else char (.ofNat n)

/-- The text of the parts, each first half followed by a second one. -/
def join : List Piece → Option Text
  | [] => some []
  | char c :: ps => (c :: ·) <$> join ps
  | half m :: half n :: ps =>
      if m < 0xDC00 ∧ 0xDC00 ≤ n then
        (Char.ofNat (0x10000 + (m - 0xD800) * 0x400 + (n - 0xDC00)) :: ·)
          <$> join ps
      else none
  | half _ :: _ => none

end Piece

/-- A token of a JSON text. -/
inductive Token where
  | openBrace
  | closeBrace
  | openBracket
  | closeBracket
  | colon
  | comma
  /-- A number or a bare word. -/
  | word (spelling : Text)
  /-- A string; without a text if half a character is left over in it. -/
  | string (text : Option Text)
  /-- The text can not be read any further. -/
  | broken
  deriving DecidableEq, Repr

namespace Token

/-- The value of hexadecimal digits, the first one weighing most. -/
def hex? (digits : Text) : Option Nat :=
  digits.foldlM (fun n c => (16 * n + ·) <$> hexDigit? c) 0

/-- What a backslash with one character after it stands for. -/
def escape? : Char → Option Char
  | '"' => some '"'
  | '\\' => some '\\'
  | '/' => some '/'
  | 'b' => some '\x08'
  | 'f' => some '\x0c'
  | 'n' => some '\n'
  | 'r' => some '\r'
  | 't' => some '\t'
  | _ => none

/-- The characters of numbers and bare words. -/
def isWordChar (c : Char) : Bool :=
  c.isAlphanum || c == '+' || c == '-' || c == '.'

/-- Where scanning stands. -/
inductive Scan where
  | between
  | word (read : Text)
  | string (read : List Piece)

/-- What a character between tokens does. -/
inductive Start where
  /-- It is a token. -/
  | token (t : Token)
  /-- Scanning goes on in another state. -/
  | scan (s : Scan)
  /-- No token starts with it. -/
  | stop

/-- What a character does that stands between tokens. -/
def start (c : Char) : Start :=
  match c with
  | '\x7b' => .token openBrace
  | '\x7d' => .token closeBrace
  | '[' => .token openBracket
  | ']' => .token closeBracket
  | ':' => .token colon
  | ',' => .token comma
  | '"' => .scan (.string [])
  | ' ' | '\t' | '\n' | '\r' => .scan .between
  | c => if isWordChar c then .scan (.word [c]) else .stop

/-- The tokens of a text from a state on. -/
def scan : Scan → Text → List Token
  | .between, [] => []
  | .word w, [] => [word w]
  | .string _, [] => [broken]
  | .between, c :: t =>
      match start c with
      | .token tok => tok :: scan .between t
      | .scan s => scan s t
      | .stop => [broken]
  | .word w, c :: t =>
      if isWordChar c then scan (.word (w ++ [c])) t
      else
        word w ::
          match start c with
          | .token tok => tok :: scan .between t
          | .scan s => scan s t
          | .stop => [broken]
  | .string ps, '"' :: t => string (Piece.join ps) :: scan .between t
  | .string ps, '\\' :: 'u' :: a :: b :: c :: d :: t =>
      match hex? [a, b, c, d] with
      | some n => scan (.string (ps ++ [Piece.ofUnit n])) t
      | none => [broken]
  | .string ps, '\\' :: e :: t =>
      match escape? e with
      | some c => scan (.string (ps ++ [.char c])) t
      | none => [broken]
  | .string ps, c :: t =>
      if c.toNat < 0x20 then [broken]
      else scan (.string (ps ++ [.char c])) t

/-- The tokens of a whole text. -/
def ofText (t : Text) : List Token := scan .between t

end Token
end Json
end FilterQuery
