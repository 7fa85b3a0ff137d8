/-
The operators of the query language. Two of them bind terms together, the
others compare a column with a value, and two of those are null checks,
which take no value. Which comparisons make sense depends on the kind of
column at the left; each kind admits the operators listed for it below.
-/
import FilterQuery.Text

namespace FilterQuery

/-- An operator of the query language. -/
inductive Operator where
  | and
  | or
  | isNull
  | isNotNull
  | like
  | eq
  | ne
  | gt
  | ge
  | lt
  | le
  deriving DecidableEq, Repr

namespace Operator

/-- The one spelling in which an operator is printed. -/
def spelling : Operator → Text
  | and => "AND".toList
  | or => "OR".toList
  | isNull => "ISNULL".toList
  | isNotNull => "ISNOTNULL".toList
  | like => "LIKE".toList
  | eq => "=".toList
  | ne => "!=".toList
  | gt => ">".toList
  | ge => ">=".toList
  | lt => "<".toList
  | le => "<=".toList

/-- Every accepted spelling, key words in lower case. -/
def spellings : List (Text × Operator) :=
  [("=".toList, eq), ("!=".toList, ne), (">=".toList, ge), (">".toList, gt),
   ("<=".toList, le), ("<".toList, lt), ("&&".toList, and),
   ("||".toList, or), ("and".toList, and), ("or".toList, or),
   ("like".toList, like), ("isnull".toList, isNull),
   ("isnotnull".toList, isNotNull)]

/-- The operator that a text spells, white space around it and the case of
ASCII letters aside. -/
def parse? (t : Text) : Option Operator := spellings.lookup t.trim.lower

-- ============================================================= classes

/-- Joins two terms. -/
def isBind : Operator → Bool
  | and | or => true
  | _ => false

/-- May follow a column: every operator that does not join terms. -/
def isComparison (op : Operator) : Bool := !op.isBind

/-- Tests for a missing value, and so takes none. -/
def isNullCheck : Operator → Bool
  | isNull | isNotNull => true
  | _ => false

/-- Compares by order. -/
def isOrdering : Operator → Bool
  | gt | ge | lt | le => true
  | _ => false

/-- Compares for equality. -/
def isEquality : Operator → Bool
  | eq | ne => true
  | _ => false

/-- Admitted for truth values: equality and null checks. -/
def suitsBoolean (op : Operator) : Bool := op.isEquality || op.isNullCheck

/-- Admitted for numbers: equality, order and null checks. -/
def suitsNumber (op : Operator) : Bool :=
  op.isEquality || op.isOrdering || op.isNullCheck

/-- Admitted for dates and times: the same operators as for numbers. -/
def suitsTemporal (op : Operator) : Bool := op.suitsNumber

/-- Admitted for text: equality, patterns and null checks. -/
def suitsText (op : Operator) : Bool :=
  op.isEquality || op == like || op.isNullCheck

-- ============================================================ spelling

/-- The printed spelling is read back as the operator it prints. -/
theorem parse?_spelling (op : Operator) : parse? op.spelling = some op := by
  cases op <;> decide

/-- A null check is a comparison. -/
theorem isComparison_of_isNullCheck {op : Operator}
    (h : op.isNullCheck = true) : op.isComparison = true := by
  revert h
  cases op <;> decide

end Operator
end FilterQuery
