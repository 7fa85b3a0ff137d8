/-
JSON values and their printed form: two spaces of indentation for each
level, a line for each element, and nothing but a pair of brackets for an
empty collection. In strings, the two characters that would end or escape
the string and the control characters below the space are escaped; all
others stand for themselves.
-/
import FilterQuery.Text

namespace FilterQuery
namespace Json

/-- A JSON value. Numbers are kept as they are spelled, and members in the
order in which they are written. -/
inductive Value where
  | null
  | bool (b : Bool)
  | number (spelling : Text)
  | string (t : Text)
  | array (items : List Value)
  | object (members : List (Text × Value))
  deriving Repr, Inhabited

/-- A character inside a string. -/
def escapeChar (c : Char) : Text :=
  match c with
  | '"' => ['\\', '"']
  | '\\' => ['\\', '\\']
  | '\x08' => ['\\', 'b']
  | '\x0c' => ['\\', 'f']
  | '\n' => ['\\', 'n']
  | '\r' => ['\\', 'r']
  | '\t' => ['\\', 't']
  | c =>
      if c.toNat < 0x20 then
        ['\\', 'u', '0', '0', Nat.digitChar (c.toNat / 16),
          Nat.digitChar (c.toNat % 16)]
      else [c]

/-- A text as a string literal. -/
def quote (t : Text) : Text := '"' :: t.flatMap escapeChar ++ ['"']

/-- The start of a line at a depth. -/
def newLine (depth : Nat) : Text := '\n' :: List.replicate (2 * depth) ' '

namespace Value

mutual

/-- The value in print, its first line standing at `depth`. -/
def pretty (depth : Nat) : Value → Text
  | null => "null".toList
  | bool b => (if b then "true" else "false").toList
  | number spelling => spelling
  | string t => quote t
  | array [] => ['[', ']']
  | array (v :: vs) =>
      '[' :: newLine (depth + 1) ++ pretty (depth + 1) v
        ++ prettyItems (depth + 1) vs ++ newLine depth ++ [']']
  | object [] => ['\x7b', '\x7d']
  | object ((k, v) :: ms) =>
      '\x7b' :: newLine (depth + 1) ++ quote k ++ [':', ' ']
        ++ pretty (depth + 1) v ++ prettyMembers (depth + 1) ms
        ++ newLine depth ++ ['\x7d']

/-- The elements after the first of an array. -/
def prettyItems (depth : Nat) : List Value → Text
  | [] => []
  | v :: vs =>
      ',' :: newLine depth ++ pretty depth v ++ prettyItems depth vs

/-- The members after the first of an object. -/
def prettyMembers (depth : Nat) : List (Text × Value) → Text
  | [] => []
  | (k, v) :: ms =>
      ',' :: newLine depth ++ quote k ++ [':', ' '] ++ pretty depth v
        ++ prettyMembers depth ms

end

end Value
end Json
end FilterQuery
