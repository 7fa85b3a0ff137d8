/-
Why a query is refused. Each cause carries what its message needs and
nothing else; the wording is in one place, `QueryError.message`. Offsets
are byte offsets in the whole query, also for a token deep inside groups.
-/
import FilterQuery.Operator
import FilterQuery.Field

namespace FilterQuery

/-- What could have stood where a query goes wrong. -/
inductive Expected where
  /-- The start of a term, when tokens are read. -/
  | columnOrGroup
  /-- A term to follow the bind operator that ends the query. -/
  | termAfterBind
  /-- The start of a term, when expression nodes are compiled. -/
  | columnOrSubExpression
  | comparison
  | value
  /-- A bind operator, when tokens are read. -/
  | bind
  /-- A bind operator or nothing more, when nodes are compiled. -/
  | bindOrEnd
  deriving DecidableEq, Repr

/-- The words for what was expected. -/
def Expected.describe : Expected → Text
  | columnOrGroup => "column reference or group".toList
  | termAfterBind => "column reference or group after bind operator".toList
  | columnOrSubExpression => "column reference or sub-expression".toList
  | comparison => "comparison operator".toList
  | value => "value".toList
  | bind => "AND or OR".toList
  | bindOrEnd => "AND, OR or end of expression".toList

/-- The causes for which a query, or a list of nodes, has no predicate. -/
inductive QueryError where
  /-- A quote is opened at the offset and never closed. -/
  | unterminatedQuote (quote : Char) (offset : Nat)
  /-- A parenthesis without a partner stands at the offset. -/
  | unbalancedParenthesis (offset : Nat)
  /-- The token at the offset does not fit there. -/
  | unexpectedToken (found : Text) (expected : Expected) (offset : Nat)
  /-- A node does not fit after the nodes before it. -/
  | unexpectedNode (found : Text) (expected : Expected)
  /-- The query ends where something more is needed. -/
  | incomplete (expected : Expected)
  /-- The text is no comparison operator. -/
  | unknownOperator (text : Text)
  /-- No field has the id. -/
  | unknownField (id : Text)
  /-- The operator is not admitted for the type of the field. -/
  | invalidOperator (op : Operator) (field : Text) (type : DataType)
  /-- The text names no type. -/
  | unknownType (name : Text)
  deriving DecidableEq, Repr

/-- The wording of an error. -/
def QueryError.message (e : QueryError) : Text :=
  "query parsing error: ".toList ++
  match e with
  | unterminatedQuote quote offset =>
      "unterminated ".toList ++ quote :: " quote starting at offset ".toList
        ++ Text.ofNat offset
  | unbalancedParenthesis offset =>
      "unbalanced parenthesis at offset ".toList ++ Text.ofNat offset
  | unexpectedToken found expected offset =>
      "expected ".toList ++ expected.describe ++ ", found '".toList ++ found
        ++ "' at offset ".toList ++ Text.ofNat offset
  | unexpectedNode found expected =>
      "expected ".toList ++ expected.describe ++ ", found ".toList ++ found
  | incomplete expected =>
      "incomplete expression, expected ".toList ++ expected.describe
  | unknownOperator text => "unknown operator '".toList ++ text ++ "'".toList
  | unknownField id => "unknown field '".toList ++ id ++ "'".toList
  | invalidOperator op field type =>
      "operator '".toList ++ op.spelling ++ "' is not valid for field '".toList
        ++ field ++ "' of type ".toList ++ type.name
  | unknownType name =>
      "unknown database type '".toList ++ name ++ "'".toList

end FilterQuery
