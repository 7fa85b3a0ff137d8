/-
Which lists of nodes are queries, and the symbols that such a list is
written with. `Node.WellFormed` is the grammar in its plain form: nothing,
or terms joined by bind operators. `Grammar.Fits` says the same from left
to right, one node at a time with the slot that it fills; that is the form
in which reading tokens meets it, and `fits_start_iff` ties the two.

`Node.flatten` writes nodes as symbols. A group becomes its parentheses
around its children, so a flattened list is balanced, and a token stream
spells at most one well-formed list.
-/
import FilterQuery.Grammar
import FilterQuery.Proofs.Nesting

namespace FilterQuery

-- ============================================================ the grammar

namespace Node

/-- Terms joined by bind operators, at least one of them. A term is a
column with a null check, a column with another comparison and a value, or
a group whose contents are again nothing or terms. -/
inductive Terms : List Node → Prop where
  | nullCheck {name : Text} {op : Operator} (h : op.isNullCheck = true) :
      Terms [.column name, .operator op]
  | comparison {name raw : Text} {op : Operator}
      (h : op.isComparison = true) (hn : op.isNullCheck = false) :
      Terms [.column name, .operator op, .value raw]
  | emptyGroup : Terms [.group []]
  | group {children : List Node} (h : Terms children) :
      Terms [.group children]
  | join {ns ms : List Node} {op : Operator} (hns : Terms ns)
      (hop : op.isBind = true) (hms : Terms ms) :
      Terms (ns ++ .operator op :: ms)

/-- A query: nothing, or terms joined by bind operators. -/
def WellFormed (ns : List Node) : Prop := ns = [] ∨ Terms ns

end Node

namespace Grammar

/-- Whether a term may start at a slot. -/
def Slot.startsTerm : Slot → Bool
  | .start | .term => true
  | .comparison | .value | .bind => false

/-- The nodes that can stand from a slot to the end. -/
inductive Fits : Slot → List Node → Prop where
  | done {slot : Slot} (h : slot.missing? = none) : Fits slot []
  | column {slot : Slot} {name : Text} {ns : List Node}
      (h : slot.startsTerm = true) (hns : Fits .comparison ns) :
      Fits slot (.column name :: ns)
  | group {slot : Slot} {children ns : List Node}
      (h : slot.startsTerm = true) (hc : Fits .start children)
      (hns : Fits .bind ns) : Fits slot (.group children :: ns)
  | nullCheck {op : Operator} {ns : List Node} (h : op.isNullCheck = true)
      (hns : Fits .bind ns) : Fits .comparison (.operator op :: ns)
  | comparison {op : Operator} {ns : List Node}
      (h : op.isComparison = true) (hn : op.isNullCheck = false)
      (hns : Fits .value ns) : Fits .comparison (.operator op :: ns)
  | value {raw : Text} {ns : List Node} (hns : Fits .bind ns) :
      Fits .value (.value raw :: ns)
  | bind {op : Operator} {ns : List Node} (h : op.isBind = true)
      (hns : Fits .term ns) : Fits .bind (.operator op :: ns)

open Node in
/-- What the nodes from a slot on make of the term that is being read. -/
theorem Fits.terms {slot : Slot} {ns : List Node} (h : Fits slot ns) :
    match slot with
    | .start => WellFormed ns
    | .term => Terms ns
    | .comparison => ∀ name, Terms (.column name :: ns)
    | .value => ∀ name op, op.isComparison = true →
        op.isNullCheck = false → Terms (.column name :: .operator op :: ns)
    | .bind => ∀ ts, Terms ts → Terms (ts ++ ns) := by
  -- The nodes of a term that is not complete are carried along.
  induction h with
  | @done slot h =>
      cases slot with
      | start => exact Or.inl rfl
      | bind => exact fun ts hts => by simpa using hts
      | term => cases h
      | comparison => cases h
      | value => cases h
  | @column slot name ns h hns ih =>
      cases slot with
      | start => exact Or.inr (ih name)
      | term => exact ih name
      | comparison => cases h
      | value => cases h
      | bind => cases h
  | @group slot children ns h hc hns ihc ih =>
      have hgroup : Terms [.group children] := by
        rcases ihc with rfl | hchildren
        · exact .emptyGroup
        · exact .group hchildren
      cases slot with
      | start => exact Or.inr (ih _ hgroup)
      | term => exact ih _ hgroup
      | comparison => cases h
      | value => cases h
      | bind => cases h
  | nullCheck h hns ih => exact fun name => ih _ (.nullCheck h)
  | comparison h hn hns ih => exact fun name => ih name _ h hn
  | value hns ih => exact fun name op h hn => ih _ (.comparison h hn)
  | bind h hns ih => exact fun ts hts => .join hts h ih

/-- Terms followed by what fits after a term. -/
theorem Fits.of_terms {ns : List Node} (h : Node.Terms ns) {slot : Slot}
    (hslot : slot.startsTerm = true) {ms : List Node}
    (hms : Fits .bind ms) : Fits slot (ns ++ ms) := by
  induction h generalizing slot ms with
  | nullCheck h => exact .column hslot (.nullCheck h hms)
  | comparison h hn => exact .column hslot (.comparison h hn (.value hms))
  | emptyGroup => exact .group hslot (.done rfl) hms
  | group h ih =>
      refine .group hslot ?_ hms
      simpa using @ih .start rfl [] (.done rfl)
  | @join ns ms' op hns hop hms' ihns ihms =>
      rw [List.append_assoc]
      exact ihns hslot (.bind hop (ihms rfl hms))

/-- Both forms of the grammar admit the same lists. -/
theorem fits_start_iff {ns : List Node} :
    Fits .start ns ↔ Node.WellFormed ns := by
  constructor
  · intro h
    exact h.terms
  · intro h
    rcases h with rfl | h
    · exact .done rfl
    · simpa using Fits.of_terms h rfl (.done rfl)

end Grammar

-- ============================================================== flattening

/-- One sign of a written query. -/
inductive Symbol where
  | opening
  | closing
  | operator (op : Operator)
  /-- A name or a value, as written. -/
  | word (text : Text)
  deriving DecidableEq, Repr

/-- The parenthesis that a symbol is, if it is one. -/
def Symbol.paren? : Symbol → Option Paren
  | opening => some .opening
  | closing => some .closing
  | operator _ | word _ => none

namespace Node

mutual

/-- The symbols of a node. -/
def symbols : Node → List Symbol
  | .column name => [.word name]
  | .operator op => [.operator op]
  | .value raw => [.word raw]
  | .group children => .opening :: (flatten children ++ [.closing])

/-- The symbols of a list of nodes. -/
def flatten : List Node → List Symbol
  | [] => []
  | n :: ns => n.symbols ++ flatten ns

end

open Nesting in
mutual

theorem level_symbols (n : Node) (d : Nat) :
    level Symbol.paren? d n.symbols = some d := by
  cases n with
  | column name => rfl
  | operator op => rfl
  | value raw => rfl
  | group children =>
      have ho : Symbol.paren? .opening = some .opening := rfl
      unfold symbols
      rw [level_cons_opening ho, level_append, level_flatten children]
      rfl

/-- Nodes are written without changing the depth. -/
theorem level_flatten (ns : List Node) (d : Nat) :
    level Symbol.paren? d (flatten ns) = some d := by
  cases ns with
  | nil =>
      unfold flatten
      rfl
  | cons n ns =>
      unfold flatten
      rw [level_append, level_symbols n]
      exact level_flatten ns d

end

end Node
end FilterQuery
