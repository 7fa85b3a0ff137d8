/-
Values as literals of truth values and numbers. These are not quoted when
they are emitted, so nothing but a literal may pass: whatever does not
read as a number becomes zero, and whatever does not read as true becomes
false.

    numeral  ::= sign? (digit+ ("." digit*)? | "." digit+) exponent?
    exponent ::= ("e" | "E") sign? digit+
-/
import FilterQuery.Text

namespace FilterQuery
namespace Literal

/-- The text without a sign at its start, if there is one. -/
def dropSign : Text → Text
  | '+' :: t => t
  | '-' :: t => t
  | t => t

/-- Nothing at all, or an exponent. -/
def isExponent : Text → Bool
  | [] => true
  | c :: t => (c == 'e' || c == 'E') && (dropSign t).isDigits

/-- A numeral without its sign. -/
def isUnsigned (t : Text) : Bool :=
  let whole := t.takeWhile Char.isDigit
  match t.dropWhile Char.isDigit with
  | '.' :: u =>
      !(whole.isEmpty && (u.takeWhile Char.isDigit).isEmpty)
        && isExponent (u.dropWhile Char.isDigit)
  | rest => !whole.isEmpty && isExponent rest

/-- A numeral, and nothing else. -/
def isNumeral (t : Text) : Bool := isUnsigned (dropSign t)

/-- The value as a number: the numeral that it is, white space around it
aside, and otherwise zero. -/
def number (value : Text) : Text :=
  if isNumeral value.trim then value.trim else ['0']

/-- The value as a truth value: `1` and `true` in any case are true, white
space around them aside, and all else is false. -/
def boolean (value : Text) : Text :=
  let t := value.trim
  if t == ['1'] || t.lower == "true".toList then "TRUE".toList
  else "FALSE".toList

end Literal
end FilterQuery
