/-
Expression nodes: what a query says, as a flat list in which a group holds
a list of its own. A well-formed list alternates terms and bind operators,
a term being a column with a comparison and, unless that is a null check,
a value, or a group. The type also admits lists that are not well-formed;
those are told apart when they are compiled.

Names and values are kept as they are written, quote marks included. How
marks are taken off is said here too: a name loses every one of them, a
value only the pair around it.
-/
import FilterQuery.Token

namespace FilterQuery

/-- One node of an expression. -/
inductive Node where
  /-- A field id, or the wildcard `*`, as written. -/
  | column (name : Text)
  /-- A bind operator or a comparison. -/
  | operator (op : Operator)
  /-- A literal, as written. -/
  | value (raw : Text)
  /-- The contents of a pair of parentheses. -/
  | group (children : List Node)
  deriving Repr, Inhabited

/-- A node in the words of an error message. -/
def Node.describe : Node → Text
  | column name => "column reference '".toList ++ name ++ "'".toList
  | operator op => "operator '".toList ++ op.spelling ++ "'".toList
  | value raw => "value '".toList ++ raw ++ "'".toList
  | group _ => "sub-expression".toList

namespace Text

/-- The text without any quote mark. -/
def withoutQuoteMarks (t : Text) : Text := t.filter (!isQuoteMark ·)

/-- The text without white space around it and then without the pair of
equal quote marks around it. Where the closing mark is missing, as in a
literal left open, only the opening one is taken off. -/
def unquote (t : Text) : Text :=
  match t.trim with
  | [] => []
  | c :: u => if isQuoteMark c then dropTrailing c u else c :: u

end Text
end FilterQuery
