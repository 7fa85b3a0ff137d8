/-
From tokens to expression nodes. Reading goes from slot to slot: the slot
says what may come next, and each token that is not blank must fill it.

    expression ::= (term (bind term)*)?
    term       ::= column nullCheck | column comparison value | group

A group fills the slot of a term; its contents are read as a query of
their own, from the offset just past its opening parenthesis. Every group
that the tokenizer makes starts with a parenthesis, so its contents are
shorter than the text it stands in, and reading comes to an end.
-/
import FilterQuery.Node
import FilterQuery.Token.Lexer

namespace FilterQuery
namespace Grammar

/-- How a token reads by itself. -/
inductive Reading where
  | group
  | operator (op : Operator)
  | word

/-- A quoted token is a word whatever it holds, so that a name or a value
may look like an operator. -/
def Reading.ofToken (t : Token) : Reading :=
  match t.kind with
  | .group => .group
  | .quoted => .word
  | .text | .delimiter =>
      match Operator.parse? t.text with
      | some op => .operator op
      | none => .word

/-- What may come next. -/
inductive Slot where
  /-- A term, or nothing at all: the query may be empty. -/
  | start
  /-- The term after a bind operator. -/
  | term
  /-- The comparison after a column. -/
  | comparison
  /-- The value after a comparison that takes one. -/
  | value
  /-- A bind operator, or the end. -/
  | bind
  deriving DecidableEq, Repr

/-- What a slot wants of a token. -/
def Slot.expected : Slot → Expected
  | start | term => .columnOrGroup
  | comparison => .comparison
  | value => .value
  | bind => .bind

/-- What is missing where a query ends at a slot. -/
def Slot.missing? : Slot → Option Expected
  | start | bind => none
  | term => some .termAfterBind
  | comparison => some .comparison
  | value => some .value

variable (contents : Token → Except QueryError (List Node))

/-- Fills a slot with a token: the node, and the slot that follows.
`contents` reads the inside of a group. -/
def Slot.fill (slot : Slot) (t : Token) : Except QueryError (Node × Slot) :=
  match slot, Reading.ofToken t with
  | start, .group | term, .group => do
      let children ← contents t
      return (.group children, bind)
  | start, .word | term, .word => .ok (.column t.text, comparison)
  | comparison, .operator op =>
      if op.isNullCheck then .ok (.operator op, bind)
      else if op.isComparison then .ok (.operator op, value)
      else .error (.unexpectedToken t.text slot.expected t.offset)
  | value, .word => .ok (.value t.text, bind)
  | bind, .operator op =>
      if op.isBind then .ok (.operator op, term)
      else .error (.unexpectedToken t.text slot.expected t.offset)
  | _, _ => .error (.unexpectedToken t.text slot.expected t.offset)

/-- Reads tokens, none of them blank, from a slot on. -/
def fillFrom : Slot → List Token → Except QueryError (List Node)
  | slot, [] =>
      match slot.missing? with
      | none => .ok []
      | some expected => .error (.incomplete expected)
  | slot, t :: ts => do
      let (node, next) ← slot.fill contents t
      let rest ← fillFrom next ts
      return node :: rest

/-- Reads a list of tokens; blank ones do not count. -/
def read (tokens : List Token) : Except QueryError (List Node) :=
  fillFrom contents .start (tokens.filter (!·.isBlank))

end Grammar

namespace Node

/-- The nodes of a text whose first character is at offset `base` of the
whole query. The guard holds for every group among the tokens of the text
and only serves to show that the recursion ends. -/
def parseAt (mode : Mode) (base : Nat) (text : Text) :
    Except QueryError (List Node) := do
  let tokens ← Token.tokenizeAt mode base text
  Grammar.read
    (fun t =>
      if t.interior.length < text.length then
        parseAt mode (t.offset + 1) t.interior
      else .ok [])
    tokens
termination_by text.length

/-- The nodes of a whole query. -/
def parse (mode : Mode) (query : Text) : Except QueryError (List Node) :=
  parseAt mode 0 query

/-- The nodes of a list of tokens, however it was come by. -/
def ofTokens (mode : Mode) (tokens : List Token) :
    Except QueryError (List Node) :=
  Grammar.read (fun t => parseAt mode (t.offset + 1) t.interior) tokens

end Node
end FilterQuery
