/-
The tokens of a query. A token is a stretch of the query together with
the byte offset of its first character, so that the tokens of a query
tile it without gap or overlap and a message can point at each of them.

A stretch in quotes is one token, and so is a group in parentheses with
all that it encloses. An opening mark without its partner is an error in
strict mode; in lenient mode the stretch runs to the end of the query.
-/
import FilterQuery.Error

namespace FilterQuery

/-- What becomes of a quote or a group that is opened and never closed. -/
inductive Mode where
  /-- It is an error. -/
  | strict
  /-- It runs to the end of the text. -/
  | lenient
  deriving DecidableEq, Repr

/-- The mode that a yes-or-no setting asks for. -/
def Mode.ofLenient (lenient : Bool) : Mode :=
  if lenient then .lenient else .strict

/-- The characters that open a quoted stretch, each closed by itself. -/
def isQuoteMark (c : Char) : Bool :=
  c == '\'' || c == '"' || c == '\x60' || c == '´'

namespace Token

/-- What a token is made of. -/
inductive Kind where
  /-- Text between delimiters. -/
  | text
  /-- One delimiter: a symbol, punctuation or white space. -/
  | delimiter
  /-- A quoted stretch with its marks. -/
  | quoted
  /-- A group with its parentheses. -/
  | group
  deriving DecidableEq, Repr

/-- The name under which token kinds are listed. -/
def Kind.name : Kind → Text
  | text => "Text".toList
  | delimiter => "Delimiter".toList
  | quoted => "Quoted".toList
  | group => "Group".toList

end Token

/-- A stretch of a query. -/
structure Token where
  kind : Token.Kind
  text : Text
  /-- Byte offset of the first character in the whole query. -/
  offset : Nat
  deriving DecidableEq, Repr

namespace Token

/-- Byte offset just past the last character. -/
def stop (t : Token) : Nat := t.offset + t.text.byteSize

/-- White space only. -/
def isBlank (t : Token) : Bool := t.text.isBlank

/-- The quote mark that a token consists of, if it is a lone one. -/
def quoteMark? (t : Token) : Option Char :=
  match t.kind, t.text with
  | .delimiter, [c] => if isQuoteMark c then some c else none
  | _, _ => none

/-- A lone opening parenthesis. -/
def isOpening (t : Token) : Bool := t.kind == .delimiter && t.text == ['(']

/-- A lone closing parenthesis. -/
def isClosing (t : Token) : Bool := t.kind == .delimiter && t.text == [')']

/-- The contents of a group: its text without the parenthesis at either
end. The closing one is missing from a group left open, and both may be
missing from a token put together by hand. -/
def interior (t : Token) : Text :=
  (t.text.dropLeading '(').dropTrailing ')'

/-- The token grown by the text of the token after it. -/
def absorb (t next : Token) : Token := { t with text := t.text ++ next.text }

end Token
end FilterQuery
