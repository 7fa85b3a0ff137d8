/-
Schemas in JSON and in YAML, and the files that hold them.

In JSON values are of the kind that they are written as: `1` is no string,
`"1"` no number, and `null` is only a qualifier that is absent. A record is
an object, or an array of its parts in their order. In an array the parts
at the end may be left out down to those required; with too few or too many
parts it is at fault at its end. A dialect may also be an object whose only
key names it and has the value `null`.

In YAML every scalar is a text where one is wanted, as it is written. Truth
values and numbers have to be plain scalars, or literal ones with the tag
for their kind. An empty place is an empty record or an empty list, and as
a qualifier it is one that is absent, as are `~` and `null`. A dialect may
be given by a tag of its name on a scalar that is empty or null.

The format of a file is told by the extension of its name, whatever the
case of its letters, and it is told before the file is looked at: a name
without a known extension is refused even if there is no file.
-/
import FilterQuery.Json.Tree
import FilterQuery.Schema.Decoding
import FilterQuery.Yaml.Node

namespace FilterQuery
namespace Schema

-- ================================================================= JSON

section
open Json (Tree)

/-- The parts of a record written as an array, by the keys they belong to. -/
def byPosition (keys : List Text) (needed : Nat) (items : List Tree) :
    List (Option Text × Tree) :=
  (keys.map some).zip items ++
    if needed ≤ items.length ∧ items.length ≤ keys.length then []
    else [(none, .broken)]

/-- A number without sign, point or exponent that fits into 64 bits. -/
def naturalOf? (spelling : Text) : Option Nat :=
  if spelling.isDigits then
    let n := Nat.ofDigitChars 10 spelling 0
    if n < naturalBound then some n else none
  else none

/-- How JSON values are read. -/
def jsonReading : Reading Tree where
  record keys needed
    | .object members => some members
    | .array items => some (byPosition keys needed items)
    | _ => none
  list
    | .array items => some items
    | _ => none
  text
    | .string t => t
    | _ => none
  optionalText
    | .null => some none
    | .string t => t.map some
    | _ => none
  bool
    | .bool b => some b
    | _ => none
  natural
    | .number spelling => naturalOf? spelling
    | _ => none
  choice
    | .string t => t.map (·, true)
    | .object [(some name, .null)] => some (name, true)
    | .object ((some name, _) :: _) => some (name, false)
    | _ => none
  isWhole := Tree.isWhole

/-- The schema that a JSON text holds. -/
def ofJson (t : Text) : Except Error Schema :=
  let document := Json.Document.ofText t
  ofDocument jsonReading .json document.complete document.root

end

-- ================================================================= YAML

section
open Yaml (Style)

/-- The tag that YAML itself defines under a name. -/
def coreTag (name : Text) : Text := "tag:yaml.org,2002:".toList ++ name

/-- The plain scalars that stand for nothing. -/
def isNull (t : Text) : Bool :=
  ["null".toList, "Null".toList, "NULL".toList, ['~']].contains t

/-- Whether a scalar may be read as something else than text. -/
def isResolvable (kind : Text) (tag : Option Text) : Style → Bool
  | .plain => true
  | .literal => tag == some (coreTag kind)
  | _ => false

/-- A truth value, in one of three spellings each. -/
def boolOf? (t : Text) : Option Bool :=
  if ["true".toList, "True".toList, "TRUE".toList].contains t then some true
  else if ["false".toList, "False".toList, "FALSE".toList].contains t then
    some false
  else none

/-- The number that digits of a base spell, if it fits into 64 bits. -/
def digitsOf? (base : Nat) (t : Text) : Option Nat := do
  if t.isEmpty then none
  let n ← t.foldlM (fun n c => do
    let d ← hexDigit? c
    if d < base then some (base * n + d) else none) 0
  if n < naturalBound then some n else none

/-- A number without a minus: decimal without leading zeros, or in a base
that its start tells. -/
def yamlNaturalOf? (t : Text) : Option Nat :=
  match t.dropLeading '+' with
  | '0' :: 'x' :: u => digitsOf? 16 u
  | '0' :: 'o' :: u => digitsOf? 8 u
  | '0' :: 'b' :: u => digitsOf? 2 u
  | '0' :: _ :: _ => none
  | u => digitsOf? 10 u

/-- The name that a tag gives to what it stands on, if it is a local one. -/
def localName? : Option Text → Option Text
  | some ['!'] => some ['!']
  | some ('!' :: name) => some name
  | _ => none

/-- How the nodes of a document are read. -/
def yamlReading (root : Yaml.Node) : Reading Yaml.Node where
  record _ _ v :=
    match v.target root with
    | .mapping _ entries =>
        some (entries.map fun (k, v) =>
          match k.target root with
          | .scalar _ _ t => (some t, v)
          | _ => (none, v))
    | .scalar _ .plain [] => some []
    | _ => none
  list v :=
    match v.target root with
    | .sequence _ items => some items
    | .scalar _ .plain [] => some []
    | _ => none
  text v :=
    match v.target root with
    | .scalar _ _ t => some t
    | _ => none
  optionalText v :=
    match v.target root with
    | .scalar { tag := none, .. } .plain t =>
        if t.isEmpty || isNull t then some none else some (some t)
    | .scalar { tag := some tag, .. } .plain t =>
        if tag = coreTag "null".toList then
          if isNull t then some none else none
        else some (some t)
    | .scalar _ _ t => some (some t)
    | _ => none
  bool v :=
    match v.target root with
    | .scalar p style t =>
        if isResolvable "bool".toList p.tag style then boolOf? t else none
    | _ => none
  natural v :=
    match v.target root with
    | .scalar p style t =>
        if isResolvable "int".toList p.tag style then yamlNaturalOf? t
        else none
    | _ => none
  choice v :=
    match v.target root with
    | .scalar p style t =>
        match localName? p.tag with
        | some name =>
            some (name, style == .plain && (t.isEmpty || isNull t))
        | none => some (t, true)
    | .sequence p _ | .mapping p _ => (localName? p.tag).map (·, false)
    | _ => none
  isWhole := Yaml.Node.isWhole

/-- The schema that a YAML text holds. -/
def ofYaml (t : Text) : Except Error Schema :=
  let document := Yaml.Document.ofText t
  ofDocument (yamlReading document.root) .yaml document.complete document.root

end

-- ================================================================ files

/-- The parts of a path between its slashes. -/
def pathParts : Text → List Text
  | [] => [[]]
  | c :: t =>
      if c = '/' then [] :: pathParts t
      else
        match pathParts t with
        | [] => [[c]]
        | part :: parts => (c :: part) :: parts

/-- Whether a part of a path leads nowhere else. -/
def isHere (part : Text) : Bool := part.isEmpty || part == ['.']

/-- The last part of a path that leads elsewhere: the name of a file,
unless the path leads upwards there. -/
def fileName? (path : Text) : Option Text :=
  match ((pathParts path).filter (!isHere ·)).getLast? with
  | some ['.', '.'] => none
  | name => name

/-- What follows the last point of a name; a point at its start does not
count. -/
def extension? (name : Text) : Option Text :=
  let after := name.reverse.takeWhile (· != '.')
  if after.length + 1 < name.length then some after.reverse else none

/-- The format that the name of a file tells. -/
def formatOf? (path : Text) : Option Format := do
  let name ← fileName? path
  let extension ← extension? name
  [("yaml".toList, .yaml), ("yml".toList, .yaml),
    ("json".toList, .json)].lookup extension.lower

/-- The schema in a file, given the text that the file holds if it can be
read. -/
def ofFile (path : Text) (content : Option Text) : Except Error Schema :=
  match formatOf? path, content with
  | none, _ => .error (.unsupportedFormat path)
  | some _, none => .error .unreadable
  | some .json, some t => ofJson t
  | some .yaml, some t => ofYaml t

end Schema
end FilterQuery
