/-
From expression nodes to an SQL condition. A filter holds what the
translation depends on: the fields, the quoter, the qualifier of columns
and the mode in which queries are read.

A column with its comparison becomes one condition, by the type of the
column:

    boolean             "active" = TRUE
    integer, decimal    "age" > 18
    date, time, stamp   "born" < '2000-01-01'
    all kinds of text   lower("name") like lower('%x%')

The wildcard stands for all searchable fields, joined by `OR`; with none
of them it is the empty text. An empty condition matches nothing, so
beside others it is written `(1=0)`, and conditions that are all empty
are empty together.
-/
import FilterQuery.Grammar
import FilterQuery.Literal
import FilterQuery.Quoting

namespace FilterQuery

/-- The operators that a type admits. -/
def DataType.admits (ty : DataType) (op : Operator) : Bool :=
  if ty = .boolean then op.suitsBoolean
  else if ty.isNumeric then op.suitsNumber
  else if ty.isTemporal then op.suitsTemporal
  else op.suitsText

/-- What queries are compiled against. -/
structure Filter where
  fields : Resolver
  quoter : Quoter
  /-- What qualifies every column, if anything does. -/
  qualifier : Option Text := none
  mode : Mode := .strict

namespace Filter

/-- The filter with another qualifier; a blank one means none. -/
def withQualifier (f : Filter) (qualifier : Text) : Filter :=
  { f with qualifier := if qualifier.isBlank then none else some qualifier }

-- ======================================================== one predicate

variable (f : Filter)

/-- A column as SQL names it. -/
def column (field : Field) : Text :=
  match f.qualifier with
  | none => f.quoter.identifier field.id
  | some qualifier => qualifier ++ '.' :: f.quoter.identifier field.id

/-- A column tested for a missing value; `missing` tells which outcome is
asked for. Text, dates and times count the empty string as missing. -/
def nullTest (field : Field) (missing : Bool) : Text :=
  let column := f.column field
  if field.type = .boolean ∨ field.type.isNumeric then
    column ++ (if missing then " IS NULL" else " IS NOT NULL").toList
  -- No UUID is the empty string.
  else if field.type = .uuid then
    column ++ (if missing then " is null" else " is not null").toList
  else if missing then
    '(' :: column ++ " is null or ".toList ++ column ++ "= '')".toList
  else
    '(' :: column ++ " is not null and ".toList ++ column ++ "!= '')".toList

/-- A value as a literal for a type. -/
def literal (ty : DataType) (value : Text) : Text :=
  if ty = .boolean then Literal.boolean value
  else if ty.isNumeric then Literal.number value
  else f.quoter.value value

/-- A field compared with a value by an operator that its type admits. -/
def comparison (field : Field) (op : Operator) (value : Text) : Text :=
  match op with
  | .isNull => f.nullTest field true
  | .isNotNull => f.nullTest field false
  | .like =>
      "lower(".toList ++ f.column field ++ ") like lower(".toList
        ++ f.quoter.value value ++ [')']
  | _ =>
      f.column field ++ ' ' :: op.spelling ++ ' ' :: f.literal field.type value

/-- A field compared with a value, if its type admits the operator. -/
def fieldPredicate (field : Field) (op : Operator) (value : Text) :
    Except QueryError Text :=
  if field.type.admits op then .ok (f.comparison field op value)
  else .error (.invalidOperator op field.id field.type)

/-- Every searchable field compared with a value. -/
def wildcard (op : Operator) (value : Text) : Except QueryError Text := do
  let parts ← f.fields.searchable.mapM (f.fieldPredicate · op value)
  if parts.isEmpty then return []
  else return '(' :: Text.join " OR ".toList parts ++ [')']

/-- The id that a column reference means: no quote mark in a name counts,
nor does white space around it. -/
def key (name : Text) : Text := name.withoutQuoteMarks.trim

/-- The predicate of a column reference, a comparison and a value; without
a value the empty one is meant. -/
def term (name : Text) (op : Operator) (value : Option Text) :
    Except QueryError Text :=
  let value := (value.map Text.unquote).getD []
  if key name = ['*'] then f.wildcard op value
  else
    match f.fields.find? (key name) with
    | none => .error (.unknownField (key name))
    | some field => f.fieldPredicate field op value

/-- The predicate of a column reference, an operator still in writing and
a value. -/
def predicate (name operator : Text) (value : Option Text) :
    Except QueryError Text :=
  match (Operator.parse? operator).filter (·.isComparison) with
  | none => .error (.unknownOperator operator.trim.upper)
  | some op => f.term name op value

-- ============================================================ fragments

/-- The condition of one term, and the bind operator before it. -/
structure Fragment where
  bind : Option Operator
  sql : Text
  deriving DecidableEq, Repr

/-- The condition that is never met. -/
def noMatch : Text := "(1=0)".toList

/-- The condition of a fragment beside others. -/
def Fragment.condition (p : Fragment) : Text :=
  if p.sql.isEmpty then noMatch else p.sql

/-- A fragment after another one, with its bind operator. -/
def Fragment.continuation (p : Fragment) : Text :=
  ' ' :: (p.bind.getD .and).spelling ++ ' ' :: p.condition

/-- The conditions joined; empty ones that are all alone stay empty. -/
def join : List Fragment → Text
  | [] => []
  | p :: ps =>
      if (p :: ps).all (·.sql.isEmpty) then []
      else p.condition ++ ps.flatMap Fragment.continuation

-- ========================================================== compilation

/-- What may come next, with the part of the term that has been read. -/
inductive Awaiting where
  /-- A term, after the bind operator if there is one. -/
  | term (bind : Option Operator)
  /-- The comparison after a column. -/
  | comparison (bind : Option Operator) (name : Text)
  /-- The value after a comparison. -/
  | value (bind : Option Operator) (name : Text) (op : Operator)
  /-- A bind operator, or the end. -/
  | bind
  deriving DecidableEq, Repr

/-- What is wanted of the next node. -/
def Awaiting.expected : Awaiting → Expected
  | term _ => .columnOrSubExpression
  | comparison .. => .comparison
  | value .. => .value
  | bind => .bindOrEnd

/-- How far a list of nodes has been compiled. -/
structure Progress where
  awaiting : Awaiting := .term none
  fragments : List Fragment := []
  deriving DecidableEq, Repr

/-- A term is complete: its condition joins the others. -/
def Progress.emit (p : Progress) (bind : Option Operator) (sql : Text) :
    Progress where
  awaiting := .bind
  fragments := p.fragments ++ [⟨bind, sql⟩]

/-- The condition of all the nodes, where they may end. -/
def Progress.finish (p : Progress) : Except QueryError Text :=
  match p.awaiting with
  | .bind | .term none => .ok (join p.fragments)
  | awaiting => .error (.incomplete awaiting.expected)

/-- The condition of a group: in parentheses unless it is empty. -/
def grouped (sql : Text) : Text :=
  if sql.isEmpty then [] else '(' :: sql ++ [')']

/-- The error for a node that does not fit. -/
def unexpected (node : Node) (awaiting : Awaiting) :
    Except QueryError Progress :=
  .error (.unexpectedNode node.describe awaiting.expected)

mutual

/-- Compiles one more node. -/
def step (p : Progress) : Node → Except QueryError Progress
  | .column name =>
      match p.awaiting with
      | .term bind => .ok { p with awaiting := .comparison bind name }
      | awaiting => unexpected (.column name) awaiting
  | .operator op =>
      match p.awaiting with
      | .comparison bind name =>
          if op.isNullCheck then do
            let sql ← f.term name op none
            return p.emit bind sql
          else if op.isComparison then
            .ok { p with awaiting := .value bind name op }
          else unexpected (.operator op) p.awaiting
      | .bind =>
          if op.isBind then .ok { p with awaiting := .term (some op) }
          else unexpected (.operator op) p.awaiting
      | awaiting => unexpected (.operator op) awaiting
  | .value raw =>
      match p.awaiting with
      | .value bind name op => do
          let sql ← f.term name op (some raw)
          return p.emit bind sql
      | awaiting => unexpected (.value raw) awaiting
  | .group children =>
      match p.awaiting with
      | .term bind => do
          let inner ← run {} children
          let sql ← inner.finish
          return p.emit bind (grouped sql)
      | awaiting => unexpected (.group children) awaiting

/-- Compiles nodes in order. -/
def run (p : Progress) : List Node → Except QueryError Progress
  | [] => .ok p
  | node :: nodes => do
      let next ← step p node
      run next nodes

end

/-- The condition of a list of nodes. -/
def compile (nodes : List Node) : Except QueryError Text := do
  let p ← f.run {} nodes
  p.finish

/-- The condition of a query. -/
def compileQuery (query : Text) : Except QueryError Text := do
  let nodes ← Node.parse f.mode query
  f.compile nodes

end Filter
end FilterQuery
