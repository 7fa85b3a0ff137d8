/-
Invocations: one command on one query, under a schema from a file and what
is set beside it. An invocation prints a text or fails, and which of the
two is a function of the invocation and of the text in the file.

The condition is compiled with the whole schema. Tokens and nodes are read
from the query alone: of the schema only its leniency counts there, but a
schema that can not be loaded is a failure of every command.
-/
import FilterQuery.Json.Value
import FilterQuery.Schema.Formats
import FilterQuery.Text.Displayed

namespace FilterQuery

/-- What is to be printed of a query. -/
inductive Command where
  /-- The condition. -/
  | compile
  /-- The tokens that are not blank. -/
  | tokens
  /-- The expression nodes. -/
  | tree
  deriving DecidableEq, Repr

/-- A command with its settings. -/
structure Invocation where
  /-- The path of the schema. -/
  schema : Text
  /-- What qualifies columns instead of what the schema says. -/
  qualifier : Option Text := none
  /-- The dialect instead of that of the schema. -/
  dialect : Option Dialect := none
  /-- Whether to be lenient even if the schema is not. -/
  lenient : Bool := false
  /-- How often more detail was asked for, without an end to the count. No
  result depends on it, so it makes no difference where a count of so many
  bits would stay at its greatest value. -/
  verbosity : Nat := 0
  command : Command
  query : Text
  deriving DecidableEq, Repr

namespace Invocation

/-- Why an invocation prints no result. -/
inductive Failure where
  /-- The schema at the path can not be loaded. -/
  | schema (path : Text) (e : Schema.Error)
  /-- The query can not be compiled. -/
  | compile (query : Text) (e : QueryError)
  /-- The query can not be read. -/
  | read (e : QueryError)
  deriving DecidableEq, Repr

/-- The wording of a failure. -/
def Failure.message : Failure → Text
  | schema path e =>
      "cannot load schema ".toList ++ path
        ++ ((e.message?.map (": ".toList ++ ·)).getD [])
  | compile query e =>
      "cannot compile ".toList ++ query.display ++ ": ".toList ++ e.message
  | read e => e.message

-- ============================================================= results

/-- A token in one line. -/
def tokenLine (t : Token) : Text :=
  Text.ofNat t.offset ++ '\t' :: t.kind.name ++ '\t' :: t.text

/-- The lines of the tokens that are not blank. -/
def tokenLines (ts : List Token) : Text :=
  Text.join ['\n'] ((ts.filter (!·.isBlank)).map tokenLine)

mutual

/-- A node as JSON, its kind first. -/
def nodeValue : Node → Json.Value
  | .column name =>
      .object [("kind".toList, .string "column_ref".toList),
        ("name".toList, .string name)]
  | .operator op =>
      .object [("kind".toList, .string "operator".toList),
        ("op".toList, .string op.spelling)]
  | .value raw =>
      .object [("kind".toList, .string "value".toList),
        ("raw".toList, .string raw)]
  | .group children =>
      .object [("kind".toList, .string "sub_expression".toList),
        ("children".toList, .array (nodeValues children))]

/-- Nodes as JSON, each by itself. -/
def nodeValues : List Node → List Json.Value
  | [] => []
  | n :: ns => nodeValue n :: nodeValues ns

end

/-- Nodes as one JSON text. -/
def treeText (ns : List Node) : Text :=
  Json.Value.pretty 0 (.array (nodeValues ns))

-- ============================================================= running

variable (i : Invocation)

/-- The schema with what the invocation sets instead. -/
def override (s : Schema) : Schema :=
  { s with
    qualifier := i.qualifier.or s.qualifier
    dialect := i.dialect.getD s.dialect
    lenient := s.lenient || i.lenient }

/-- What is printed with a schema. -/
def print (s : Schema) : Except Failure Text :=
  match i.command with
  | .compile => (s.filter.compileQuery i.query).mapError (.compile i.query)
  | .tokens =>
      ((Token.tokenize (.ofLenient s.lenient) i.query).map
        tokenLines).mapError .read
  | .tree =>
      ((Node.parse (.ofLenient s.lenient) i.query).map
        treeText).mapError .read

/-- What is printed, given the text in the file of the schema if it can be
read. -/
def run (content : Option Text) : Except Failure Text :=
  match Schema.ofFile i.schema content with
  | .error e => .error (.schema i.schema e)
  | .ok s => i.print (i.override s)

end Invocation
end FilterQuery
