/-
What the compiler knows about the columns of a table: for each field an
id, the type of its values, and whether the wildcard reaches it. A
resolver is all the compiler may ask: the field of an id, and the fields
that the wildcard stands for, in the order in which they are to appear.
-/
import FilterQuery.Text

namespace FilterQuery

/-- The kinds of value that a column holds. -/
inductive DataType where
  | boolean
  | char
  | date
  | decimal
  | integer
  | text
  | time
  | timestamp
  | uuid
  | varchar
  deriving DecidableEq, Repr

namespace DataType

/-- The name of a type in schemas and messages. -/
def name : DataType → Text
  | boolean => "boolean".toList
  | char => "char".toList
  | date => "date".toList
  | decimal => "decimal".toList
  | integer => "integer".toList
  | text => "text".toList
  | time => "time".toList
  | timestamp => "timestamp".toList
  | uuid => "uuid".toList
  | varchar => "varchar".toList

/-- Every accepted name, in lower case. -/
def names : List (Text × DataType) :=
  [("boolean".toList, boolean), ("bool".toList, boolean),
   ("char".toList, char), ("date".toList, date),
   ("decimal".toList, decimal), ("numeric".toList, decimal),
   ("integer".toList, integer), ("int".toList, integer),
   ("text".toList, text), ("time".toList, time),
   ("timestamp".toList, timestamp), ("datetime".toList, timestamp),
   ("uuid".toList, uuid), ("varchar".toList, varchar),
   ("string".toList, varchar)]

/-- The type that a text names, white space around it and the case of
ASCII letters aside. -/
def parse? (t : Text) : Option DataType := names.lookup t.trim.lower

/-- Whole and decimal numbers. -/
def isNumeric : DataType → Bool
  | integer | decimal => true
  | _ => false

/-- Dates, times and both together. -/
def isTemporal : DataType → Bool
  | date | time | timestamp => true
  | _ => false

/-- The name of a type is read back as that type. -/
theorem parse?_name (ty : DataType) : parse? ty.name = some ty := by
  cases ty <;> decide

end DataType

/-- A column that queries may mention. -/
structure Field where
  /-- The id, as queries write it and as the emitted SQL quotes it. -/
  id : Text
  type : DataType
  /-- Whether the wildcard stands for this field too. -/
  searchable : Bool := false
  deriving DecidableEq, Repr

/-- What the compiler may ask about the fields of a table. -/
structure Resolver where
  /-- The field of an id, if there is one. -/
  find? : Text → Option Field
  /-- The fields that the wildcard stands for. -/
  searchable : List Field

namespace Resolver

/-- Look-up in a list: of the fields with the id the first counts, and the
wildcard keeps the order of the list. -/
def ofFields (fields : List Field) : Resolver where
  find? id := fields.find? (·.id == id)
  searchable := fields.filter (·.searchable)

end Resolver
end FilterQuery
