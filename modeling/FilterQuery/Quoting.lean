/-
How names and string literals are written in SQL. The compiler knows no
database: it is handed a quoter, which is any two functions on text. The
dialects are the two quoters that ship with the library.

Both dialects enclose a text in marks and write a mark inside it twice.
In MySQL a backslash in a string literal escapes what follows, so there
it is doubled as well.
-/
import FilterQuery.Text

namespace FilterQuery

/-- How identifiers and string literals are written. -/
structure Quoter where
  identifier : Text → Text
  value : Text → Text

namespace Text

/-- The text with every `mark` written twice. -/
def doubling (mark : Char) (t : Text) : Text :=
  t.flatMap fun c => if c = mark then [mark, mark] else [c]

/-- The text between two marks, with every mark inside written twice. -/
def enclosed (mark : Char) (t : Text) : Text :=
  mark :: doubling mark t ++ [mark]

end Text

/-- The quoting rules of a family of databases. -/
inductive Dialect where
  /-- Standard SQL, as in PostgreSQL and SQLite. -/
  | ansi
  /-- MySQL and MariaDB. -/
  | mysql
  deriving DecidableEq, Repr

namespace Dialect

/-- The name of a dialect. -/
def name : Dialect → Text
  | ansi => "ansi".toList
  | mysql => "mysql".toList

/-- Every accepted name. -/
def names : List (Text × Dialect) :=
  [("ansi".toList, ansi), ("postgres".toList, ansi),
   ("postgresql".toList, ansi), ("sqlite".toList, ansi),
   ("mysql".toList, mysql), ("mariadb".toList, mysql)]

/-- The dialect of exactly that name. -/
def ofName? (t : Text) : Option Dialect := names.lookup t

/-- The dialect that a text names, the case of ASCII letters aside. -/
def parse? (t : Text) : Option Dialect := ofName? t.lower

/-- The wording of the complaint about a text that names no dialect. -/
def unknownMessage (t : Text) : Text :=
  "unknown dialect '".toList ++ t.lower ++ "'".toList

/-- The mark around identifiers. -/
def identifierMark : Dialect → Char
  | ansi => '"'
  | mysql => '\x60'

/-- The quoter of a dialect. -/
def quoter (d : Dialect) : Quoter where
  identifier := Text.enclosed d.identifierMark
  value t :=
    match d with
    | ansi => Text.enclosed '\'' t
    | mysql => Text.enclosed '\'' (Text.doubling '\\' t)

end Dialect
end FilterQuery
