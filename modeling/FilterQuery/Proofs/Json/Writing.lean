/-
The texts of a JSON value, as the format has them and not as any reader
finds them. A value has many: white space may stand around each of its
parts, and a character of a string may stand for itself, be escaped by a
letter, or be escaped by its code, which takes two units beyond the basic
plane.

`Written` is one relation for all that a text can be a form of: a value, a
value with white space around it, the items of an array, the members of an
object. A derivation is a tree of the text, one constructor for each rule
of the format, and an induction over it meets every rule once.
-/
import FilterQuery.Json.Tree

namespace FilterQuery
namespace Json

/-- White space that may stand between the parts of a value. -/
def IsSpace (t : Text) : Prop := ∀ c ∈ t, c ∈ [' ', '\t', '\n', '\r']

-- ================================================================ strings

/-- The letters that a backslash may precede, with what they stand for. -/
def shortEscapes : List (Char × Char) :=
  [('"', '"'), ('\\', '\\'), ('/', '/'), ('b', '\x08'), ('f', '\x0c'),
   ('n', '\n'), ('r', '\r'), ('t', '\t')]

/-- Four hexadecimal digits, and the unit that they spell. -/
inductive IsUnit : Nat → Text → Prop where
  | digits {a b c d : Char} {w x y z : Nat} (ha : hexDigit? a = some w)
      (hb : hexDigit? b = some x) (hc : hexDigit? c = some y)
      (hd : hexDigit? d = some z) :
      IsUnit (16 * (16 * (16 * w + x) + y) + z) [a, b, c, d]

/-- The units that are halves of a character: those of first halves come
before those of second halves. -/
def IsHalf (n : Nat) : Prop := 0xD800 ≤ n ∧ n ≤ 0xDFFF

/-- What may stand for itself in a string. -/
def IsUnescaped (c : Char) : Prop := 0x20 ≤ c.toNat ∧ c ≠ '"' ∧ c ≠ '\\'

/-- What may stand between the marks of a string, whatever it means. -/
inductive IsBody : Text → Prop where
  | nil : IsBody []
  | char {c : Char} {u : Text} (h : IsUnescaped c) (hu : IsBody u) :
      IsBody (c :: u)
  | short {e c : Char} {u : Text} (h : (e, c) ∈ shortEscapes)
      (hu : IsBody u) : IsBody ('\\' :: e :: u)
  | unit {n : Nat} {ds u : Text} (h : IsUnit n ds) (hu : IsBody u) :
      IsBody ('\\' :: 'u' :: (ds ++ u))

/-- A text, and what may stand between the marks of a string of that text.
Halves of characters count in pairs only. -/
inductive IsBodyOf : Text → Text → Prop where
  | nil : IsBodyOf [] []
  | char {c : Char} {t u : Text} (h : IsUnescaped c) (hu : IsBodyOf t u) :
      IsBodyOf (c :: t) (c :: u)
  | short {e c : Char} {t u : Text} (h : (e, c) ∈ shortEscapes)
      (hu : IsBodyOf t u) : IsBodyOf (c :: t) ('\\' :: e :: u)
  | unit {n : Nat} {ds t u : Text} (h : IsUnit n ds) (hn : ¬IsHalf n)
      (hu : IsBodyOf t u) :
      IsBodyOf (.ofNat n :: t) ('\\' :: 'u' :: (ds ++ u))
  | pair {m n : Nat} {ds es t u : Text} (hm : IsUnit m ds)
      (hn : IsUnit n es) (hfirst : 0xD800 ≤ m ∧ m < 0xDC00)
      (hsecond : 0xDC00 ≤ n ∧ n ≤ 0xDFFF) (hu : IsBodyOf t u) :
      IsBodyOf
        (.ofNat (0x10000 + (m - 0xD800) * 0x400 + (n - 0xDC00)) :: t)
        ('\\' :: 'u' :: (ds ++ '\\' :: 'u' :: (es ++ u)))

/-- A string, marks included; without a text where half a character is
left over in it. -/
inductive IsString : Option Text → Text → Prop where
  | text {t u : Text} (h : IsBodyOf t u) :
      IsString (some t) ('"' :: (u ++ ['"']))
  | unpaired {u : Text} (h : IsBody u) (hno : ∀ t, ¬IsBodyOf t u) :
      IsString none ('"' :: (u ++ ['"']))

-- ================================================================ numbers

/-- The part of a number before its point: no leading zero. -/
inductive IsWhole : Text → Prop where
  | zero : IsWhole ['0']
  | digits {c : Char} {ds : Text} (hc : c.isDigit = true) (hne : c ≠ '0')
      (hds : ∀ d ∈ ds, d.isDigit = true) : IsWhole (c :: ds)

/-- The point of a number and at least one digit, or nothing. -/
inductive IsFraction : Text → Prop where
  | none : IsFraction []
  | digits {ds : Text} (hne : ds ≠ []) (hds : ∀ d ∈ ds, d.isDigit = true) :
      IsFraction ('.' :: ds)

/-- The exponent of a number, possibly signed, or nothing. -/
inductive IsPower : Text → Prop where
  | none : IsPower []
  | digits {e : Char} {sign ds : Text} (he : e ∈ ['e', 'E'])
      (hs : sign ∈ [[], ['+'], ['-']]) (hne : ds ≠ [])
      (hds : ∀ d ∈ ds, d.isDigit = true) : IsPower (e :: (sign ++ ds))

/-- A number in all its parts. -/
inductive IsNumeral : Text → Prop where
  | parts {sign whole fraction power : Text} (hs : sign ∈ [[], ['-']])
      (hw : IsWhole whole) (hf : IsFraction fraction)
      (hp : IsPower power) :
      IsNumeral (sign ++ (whole ++ (fraction ++ power)))

-- ================================================================= values

/-- What a text can be a form of. -/
inductive Form where
  | value (v : Tree)
  /-- A value with white space around it. -/
  | padded (v : Tree)
  /-- The items of an array, at least one. -/
  | items (vs : List Tree)
  /-- A key, its colon and its value. -/
  | member (key : Option Text) (v : Tree)
  /-- The members of an object, at least one. -/
  | members (ms : List (Option Text × Tree))

/-- The texts of a form. -/
inductive Written : Form → Text → Prop where
  | null : Written (.value .null) "null".toList
  | true : Written (.value (.bool Bool.true)) "true".toList
  | false : Written (.value (.bool Bool.false)) "false".toList
  | number {t : Text} (h : IsNumeral t) : Written (.value (.number t)) t
  | string {t : Option Text} {u : Text} (h : IsString t u) :
      Written (.value (.string t)) u
  | emptyArray {s : Text} (hs : IsSpace s) :
      Written (.value (.array [])) ('[' :: (s ++ [']']))
  | array {vs : List Tree} {t : Text} (h : Written (.items vs) t) :
      Written (.value (.array vs)) ('[' :: (t ++ [']']))
  | emptyObject {s : Text} (hs : IsSpace s) :
      Written (.value (.object [])) ('\x7b' :: (s ++ ['\x7d']))
  | object {ms : List (Option Text × Tree)} {t : Text}
      (h : Written (.members ms) t) :
      Written (.value (.object ms)) ('\x7b' :: (t ++ ['\x7d']))
  | padded {v : Tree} {s t u : Text} (hs : IsSpace s)
      (h : Written (.value v) t) (hu : IsSpace u) :
      Written (.padded v) (s ++ (t ++ u))
  | item {v : Tree} {t : Text} (h : Written (.padded v) t) :
      Written (.items [v]) t
  | items {v : Tree} {vs : List Tree} {t u : Text}
      (h : Written (.padded v) t) (hs : Written (.items vs) u) :
      Written (.items (v :: vs)) (t ++ ',' :: u)
  | member {k : Option Text} {v : Tree} {s t u w : Text} (hs : IsSpace s)
      (hk : IsString k t) (hu : IsSpace u) (h : Written (.padded v) w) :
      Written (.member k v) (s ++ (t ++ (u ++ ':' :: w)))
  | lastMember {k : Option Text} {v : Tree} {t : Text}
      (h : Written (.member k v) t) : Written (.members [(k, v)]) t
  | members {k : Option Text} {v : Tree} {ms : List (Option Text × Tree)}
      {t u : Text} (h : Written (.member k v) t)
      (hs : Written (.members ms) u) :
      Written (.members ((k, v) :: ms)) (t ++ ',' :: u)

end Json
end FilterQuery
