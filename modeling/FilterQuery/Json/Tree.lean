/-
JSON texts as trees, faults included. A text that breaks off or goes wrong
is read as the tree of all that stands before the fault, with a `broken`
leaf where the fault is. Whoever walks the tree in the order of the text
and fails at the broken leaf meets the faults of the text and its own in
the order in which they are written.

Reading runs over the tokens once. Its state is the collection being read
and, innermost first, the holes in the collections around it.
-/
import FilterQuery.Json.Token

namespace FilterQuery
namespace Json

/-- A JSON text as far as it can be read. A string, or the key of a
member, has no text if half a character is left over in it. -/
inductive Tree where
  | null
  | bool (b : Bool)
  | number (spelling : Text)
  | string (text : Option Text)
  | array (items : List Tree)
  | object (members : List (Option Text × Tree))
  /-- Here the text can not be read any further. -/
  | broken
  deriving Repr, Inhabited

/-- Some digits, without a leading zero unless it is the only digit. -/
def isWholeNumber : Text → Bool
  | [] => false
  | ['0'] => true
  | c :: t => c != '0' && c.isDigit && t.all Char.isDigit

/-- Nothing, or an exponent with at least one digit. -/
def isExponent : Text → Bool
  | [] => true
  | e :: '+' :: t | e :: '-' :: t => (e == 'e' || e == 'E') && Text.isDigits t
  | e :: t => (e == 'e' || e == 'E') && Text.isDigits t

/-- A number as the format spells it. -/
def isNumber (t : Text) : Bool :=
  let unsigned := t.dropLeading '-'
  isWholeNumber (unsigned.takeWhile Char.isDigit) &&
    match unsigned.dropWhile Char.isDigit with
    | '.' :: u =>
        Text.isDigits (u.takeWhile Char.isDigit)
          && isExponent (u.dropWhile Char.isDigit)
    | u => isExponent u

namespace Tree

/-- What a bare word or a number stands for. -/
def ofWord? (w : Text) : Option Tree :=
  if w = "null".toList then some null
  else if w = "true".toList then some (bool true)
  else if w = "false".toList then some (bool false)
  else if isNumber w then some (number w)
  else none

/-- The place of a value in the collection around it, with what stands
before it there. -/
inductive Hole where
  | item (before : List Tree)
  | member (before : List (Option Text × Tree)) (key : Option Text)

/-- What is wanted next. -/
inductive State where
  /-- A value for the innermost hole. -/
  | value (holes : List Hole)
  /-- The first item of an array, or its end. -/
  | firstItem (holes : List Hole)
  /-- A comma or the end of an array. -/
  | afterItem (items : List Tree) (holes : List Hole)
  /-- The first key of an object, or its end. -/
  | firstKey (holes : List Hole)
  /-- A key, after a comma. -/
  | key (members : List (Option Text × Tree)) (holes : List Hole)
  /-- The colon after a key. -/
  | colon (members : List (Option Text × Tree)) (key : Option Text)
      (holes : List Hole)
  /-- A comma or the end of an object. -/
  | afterMember (members : List (Option Text × Tree)) (holes : List Hole)
  /-- Nothing: the text is complete. -/
  | done (root : Tree)

/-- Puts a value into the innermost hole. -/
def fill (v : Tree) : List Hole → State
  | [] => .done v
  | .item before :: holes => .afterItem (before ++ [v]) holes
  | .member before key :: holes => .afterMember (before ++ [(key, v)]) holes

/-- Reads the start of a value into the innermost hole. -/
def begin (holes : List Hole) : Token → Option State
  | .openBracket => some (.firstItem holes)
  | .openBrace => some (.firstKey holes)
  | .string t => some (fill (.string t) holes)
  | .word w => (fill · holes) <$> ofWord? w
  | _ => none

/-- Reads one token, if it fits. -/
def step : State → Token → Option State
  | .value holes, t => begin holes t
  | .firstItem holes, .closeBracket => some (fill (.array []) holes)
  | .firstItem holes, t => begin (.item [] :: holes) t
  | .afterItem items holes, .comma => some (.value (.item items :: holes))
  | .afterItem items holes, .closeBracket => some (fill (.array items) holes)
  | .firstKey holes, .closeBrace => some (fill (.object []) holes)
  | .firstKey holes, .string k => some (.colon [] k holes)
  | .key members holes, .string k => some (.colon members k holes)
  | .colon members k holes, .colon =>
      some (.value (.member members k :: holes))
  | .afterMember members holes, .comma => some (.key members holes)
  | .afterMember members holes, .closeBrace =>
      some (fill (.object members) holes)
  | _, _ => none

/-- The tree around a value after which nothing can be read. -/
def cutOff (v : Tree) : List Hole → Tree
  | [] => v
  | .item before :: holes => cutOff (.array (before ++ [v])) holes
  | .member before key :: holes =>
      cutOff (.object (before ++ [(key, v)])) holes

/-- What has been read where the text can not be read any further. -/
def State.brokenOff : State → Tree
  | .value holes => cutOff .broken holes
  | .firstItem holes => cutOff (.array [.broken]) holes
  | .afterItem items holes => cutOff (.array (items ++ [.broken])) holes
  | .firstKey holes => cutOff (.object [(none, .broken)]) holes
  | .key members holes =>
      cutOff (.object (members ++ [(none, .broken)])) holes
  | .colon members k holes =>
      cutOff (.object (members ++ [(k, .broken)])) holes
  | .afterMember members holes =>
      cutOff (.object (members ++ [(none, .broken)])) holes
  | .done root => root

mutual

/-- No broken leaf anywhere. -/
def isWhole : Tree → Bool
  | array items => allWhole items
  | object members => allMembersWhole members
  | broken => false
  | _ => true

/-- No broken leaf in any item. -/
def allWhole : List Tree → Bool
  | [] => true
  | v :: vs => isWhole v && allWhole vs

/-- No broken leaf in the value of any member. -/
def allMembersWhole : List (Option Text × Tree) → Bool
  | [] => true
  | (_, v) :: ms => isWhole v && allMembersWhole ms

end

end Tree

/-- A text as read: its tree, and whether the text ends with it. -/
structure Document where
  root : Tree
  complete : Bool

namespace Document

/-- Reads tokens from a state on. -/
def ofTokens : Tree.State → List Token → Document
  | .done root, [] => ⟨root, true⟩
  | s, [] => ⟨s.brokenOff, false⟩
  | s, t :: ts =>
      match Tree.step s t with
      | some s => ofTokens s ts
      | none => ⟨s.brokenOff, false⟩

/-- Reads a text. -/
def ofText (t : Text) : Document :=
  ofTokens (.value []) (Token.ofText t)

end Document
end Json
end FilterQuery
