/-
YAML texts as trees of nodes, faults included. As with JSON, a text that
goes wrong is read as the tree of all that stands before the fault, with a
`broken` leaf where the fault is.

Reading runs over the tokens once. Its state is what is wanted next and,
innermost first, the places in the collections around it. A place may be
left empty: a token that ends the place fills it with the empty scalar and
is looked at again from the place around.
-/
import FilterQuery.Yaml.Scanner

namespace FilterQuery
namespace Yaml

/-- What may stand before a node. -/
structure Properties where
  /-- The number under which aliases refer to the node. -/
  anchor : Option Nat := none
  tag : Option Text := none
  deriving DecidableEq, Repr

/-- A YAML text as far as it can be read. -/
inductive Node where
  | scalar (p : Properties) (style : Style) (text : Text)
  | sequence (p : Properties) (items : List Node)
  | mapping (p : Properties) (entries : List (Node × Node))
  /-- The node of an anchor once more. -/
  | reference (id : Nat)
  /-- Here the text can not be read any further. -/
  | broken
  deriving Repr, Inhabited

namespace Node

/-- The scalar in an empty place. -/
def empty (p : Properties) : Node := .scalar p .plain []

/-- A place in a collection, with the properties of the collection and
what stands before the place. -/
inductive Place where
  /-- The root of a document; `marked` if a marker precedes it. -/
  | root (marked : Bool)
  | blockItem (p : Properties) (before : List Node)
  /-- An item of a sequence as far left as the key whose value it is. -/
  | flushItem (p : Properties) (before : List Node)
  | blockKey (p : Properties) (before : List (Node × Node))
  | blockValue (p : Properties) (before : List (Node × Node)) (key : Node)
  | flowItem (p : Properties) (before : List Node)
  /-- The key of a pair that is an item of a flow sequence. -/
  | pairKey (p : Properties) (before : List Node)
  | pairValue (p : Properties) (before : List Node) (key : Node)
  | flowKey (p : Properties) (before : List (Node × Node))
  /-- A key that nothing marks as one, and so without a value. -/
  | loneKey (p : Properties) (before : List (Node × Node))
  | flowValue (p : Properties) (before : List (Node × Node)) (key : Node)

/-- What is wanted next. -/
inductive Wanted where
  /-- The start of a document, after these directives. -/
  | document (versioned : Bool) (handles : List Text)
  /-- A node, unless the next token ends the place. -/
  | place
  /-- A node with the properties read so far. -/
  | node (p : Properties)
  | blockItem (p : Properties) (items : List Node)
  | flushItem (p : Properties) (items : List Node)
  | blockKey (p : Properties) (entries : List (Node × Node))
  | blockValue (p : Properties) (entries : List (Node × Node)) (key : Node)
  /-- An item of a flow sequence or its end. -/
  | flowItem (p : Properties) (items : List Node)
  /-- A comma of a flow sequence or its end. -/
  | flowItemEnd (p : Properties) (items : List Node)
  | pairValue (p : Properties) (items : List Node) (key : Node)
  /-- What follows a pair: a pair does not end before it can be seen. -/
  | pairEnd (p : Properties) (items : List Node) (key value : Node)
  /-- An entry of a flow mapping or its end. -/
  | flowKey (p : Properties) (entries : List (Node × Node))
  /-- A comma of a flow mapping or its end. -/
  | flowKeyEnd (p : Properties) (entries : List (Node × Node))
  | flowValue (p : Properties) (entries : List (Node × Node)) (key : Node)
  /-- A comma of a flow mapping or its end, after a key without a value. -/
  | loneKeyEnd (p : Properties) (entries : List (Node × Node)) (key : Node)
  /-- Nothing but the end of the text. -/
  | done (root : Node)
  /-- Nothing: the end of the text has been read. -/
  | ended (root : Node)

namespace Place

/-- What is wanted when a node has filled the place. -/
def fill (n : Node) : Place → Wanted
  | root _ => .done n
  | blockItem p before => .blockItem p (before ++ [n])
  | flushItem p before => .flushItem p (before ++ [n])
  | blockKey p before => .blockValue p before n
  | blockValue p before key => .blockKey p (before ++ [(key, n)])
  | flowItem p before => .flowItemEnd p (before ++ [n])
  | pairKey p before => .pairValue p before n
  | pairValue p before key => .pairEnd p before key n
  | flowKey p before => .flowValue p before n
  | loneKey p before => .loneKeyEnd p before n
  | flowValue p before key => .flowKeyEnd p (before ++ [(key, n)])

/-- The collection around the place if nothing can be read after `n`. -/
def cutOff (n : Node) : Place → Node
  | root _ => n
  | blockItem p before | flushItem p before | flowItem p before =>
      .sequence p (before ++ [n])
  | blockKey p before | flowKey p before | loneKey p before =>
      .mapping p (before ++ [(n, .broken)])
  | blockValue p before key | flowValue p before key =>
      .mapping p (before ++ [(key, n)])
  | pairKey p before =>
      .sequence p (before ++ [.mapping {} [(n, .broken)]])
  | pairValue p before key =>
      .sequence p (before ++ [.mapping {} [(key, n)]])

/-- In a block, where indentation shows what belongs together. -/
def isBlock : Place → Bool
  | root _ | blockItem .. | flushItem .. | blockKey .. | blockValue .. => true
  | _ => false

/-- A sequence may start here without being indented. -/
def admitsFlush : Place → Bool
  | blockKey .. | blockValue .. => true
  | _ => false

/-- Whether the place is left empty when this token comes next. -/
def isEndedBy : Place → Token → Bool
  | root marked, .versionDirective .. | root marked, .tagDirective _
  | root marked, .documentStart | root marked, .documentEnd
  | root marked, .streamEnd => marked
  | blockItem .., .blockEntry | blockItem .., .blockEnd => true
  | flushItem .., .blockEntry | flushItem .., .key
  | flushItem .., .value | flushItem .., .blockEnd => true
  | blockKey .., .key | blockKey .., .value | blockKey .., .blockEnd => true
  | blockValue .., .key | blockValue .., .value
  | blockValue .., .blockEnd => true
  | pairKey .., .value | pairKey .., .flowEntry
  | pairKey .., .flowSequenceEnd => true
  | pairValue .., .flowEntry | pairValue .., .flowSequenceEnd => true
  | flowKey .., .value | flowKey .., .flowEntry
  | flowKey .., .flowMappingEnd => true
  | flowValue .., .flowEntry | flowValue .., .flowMappingEnd => true
  | _, _ => false

/-- Whether the token that ends the place is taken with it. -/
def takesEnd : Place → Bool
  | pairKey .. => true
  | _ => false

end Place

/-- How far a document has been read. -/
structure State where
  wanted : Wanted
  /-- The places around, innermost first. -/
  places : List Place

/-- Fills the innermost place. -/
def fill (n : Node) : List Place → State
  | [] => ⟨.done n, []⟩
  | place :: places => ⟨place.fill n, places⟩

/-- Reads the first token of a node, other than its properties, into the
innermost place. -/
def begin (p : Properties) (places : List Place) (t : Token) :
    Option State :=
  let inBlock := places.head?.all Place.isBlock
  match t with
  | .scalar style text => some (fill (.scalar p style text) places)
  | .flowSequenceStart => some ⟨.flowItem p [], places⟩
  | .flowMappingStart => some ⟨.flowKey p [], places⟩
  | .blockSequenceStart =>
      if inBlock then some ⟨.blockItem p [], places⟩ else none
  | .blockMappingStart =>
      if inBlock then some ⟨.blockKey p [], places⟩ else none
  | .blockEntry =>
      if places.head?.any Place.admitsFlush then
        some ⟨.place, .flushItem p [] :: places⟩
      else none
  | _ => none

/-- Reads the first token of a node into the innermost place. -/
def beginAny (places : List Place) : Token → Option State
  | .anchor id => some ⟨.node { anchor := some id }, places⟩
  | .tag (some name) => some ⟨.node { tag := some name }, places⟩
  | .reference (some id) => some (fill (.reference id) places)
  | t => begin {} places t

/-- Reads a token of a block mapping where a key may start. -/
def nextKey (p : Properties) (entries : List (Node × Node))
    (places : List Place) : Token → Option State
  | .key => some ⟨.place, .blockKey p entries :: places⟩
  | .blockEnd => some (fill (.mapping p entries) places)
  | _ => none

/-- Reads a token of a flow sequence between two items. -/
def nextItem (p : Properties) (items : List Node) (places : List Place) :
    Token → Option State
  | .flowEntry => some ⟨.flowItem p items, places⟩
  | .flowSequenceEnd => some (fill (.sequence p items) places)
  | _ => none

/-- Reads a token of a flow mapping between two entries. -/
def nextEntry (p : Properties) (entries : List (Node × Node))
    (places : List Place) : Token → Option State
  | .flowEntry => some ⟨.flowKey p entries, places⟩
  | .flowMappingEnd => some (fill (.mapping p entries) places)
  | _ => none

/-- The state after a token, or the state in which it does not fit. -/
abbrev Step := Except State State

/-- Where a token that fits leads; otherwise the state stays. -/
def orElse (s : State) : Option State → Step
  | some s => .ok s
  | none => .error s

/-- Reads a token that does not depend on the places around. -/
def step (t : Token) : Wanted → List Place → Step
  | .document versioned handles, places =>
      let s : State := ⟨.document versioned handles, places⟩
      match t with
      | .versionDirective major minor =>
          if !versioned ∧ major = 1 ∧ (minor = 1 ∨ minor = 2) then
            .ok ⟨.document true handles, places⟩
          else .error s
      | .tagDirective handle =>
          if handles.contains handle then .error s
          else .ok ⟨.document versioned (handle :: handles), places⟩
      | .documentStart => .ok ⟨.place, .root true :: places⟩
      | t =>
          if versioned ∨ !handles.isEmpty then .error s
          else if t = .streamEnd then .ok ⟨.ended (empty {}), places⟩
          else
            orElse ⟨.place, .root false :: places⟩
              (beginAny (.root false :: places) t)
  | .place, place :: places =>
      if place.isEndedBy t then
        if place.takesEnd then .ok ⟨place.fill (empty {}), places⟩
        else step t (place.fill (empty {})) places
      else orElse ⟨.place, place :: places⟩ (beginAny (place :: places) t)
  | .node p, place :: places =>
      match p, t with
      | { tag := none, .. }, .tag (some name) =>
          .ok ⟨.node { p with tag := some name }, place :: places⟩
      | { anchor := none, .. }, .anchor id =>
          .ok ⟨.node { p with anchor := some id }, place :: places⟩
      | _, .tag none => .error ⟨.node p, place :: places⟩
      | _, t =>
          match begin p (place :: places) t with
          | some s => .ok s
          | none => step t (place.fill (empty p)) places
  | .flushItem p items, place :: places =>
      if t = .blockEntry then
        .ok ⟨.place, .flushItem p items :: place :: places⟩
      else step t (place.fill (.sequence p items)) places
  | .blockItem p items, places =>
      orElse ⟨.blockItem p items, places⟩ <|
        match t with
        | .blockEntry => some ⟨.place, .blockItem p items :: places⟩
        | .blockEnd => some (fill (.sequence p items) places)
        | _ => none
  | .blockKey p entries, places =>
      orElse ⟨.blockKey p entries, places⟩ (nextKey p entries places t)
  | .blockValue p entries key, places =>
      if t = .value then .ok ⟨.place, .blockValue p entries key :: places⟩
      else
        let entries := entries ++ [(key, empty {})]
        orElse ⟨.blockKey p entries, places⟩ (nextKey p entries places t)
  | .flowItem p items, places =>
      orElse ⟨.flowItem p items, places⟩ <|
        match t with
        | .flowSequenceEnd => some (fill (.sequence p items) places)
        | .key => some ⟨.place, .pairKey p items :: places⟩
        | t => beginAny (.flowItem p items :: places) t
  | .flowItemEnd p items, places =>
      orElse ⟨.flowItemEnd p items, places⟩ (nextItem p items places t)
  | .pairValue p items key, places =>
      if t = .value then .ok ⟨.place, .pairValue p items key :: places⟩
      else
        let items := items ++ [.mapping {} [(key, empty {})]]
        orElse ⟨.flowItemEnd p items, places⟩ (nextItem p items places t)
  | .pairEnd p items key value, places =>
      let items := items ++ [.mapping {} [(key, value)]]
      orElse ⟨.flowItemEnd p items, places⟩ (nextItem p items places t)
  | .flowKey p entries, places =>
      orElse ⟨.flowKey p entries, places⟩ <|
        match t with
        | .flowMappingEnd => some (fill (.mapping p entries) places)
        | .key => some ⟨.place, .flowKey p entries :: places⟩
        | t => beginAny (.loneKey p entries :: places) t
  | .flowKeyEnd p entries, places =>
      orElse ⟨.flowKeyEnd p entries, places⟩ (nextEntry p entries places t)
  | .flowValue p entries key, places =>
      if t = .value then .ok ⟨.place, .flowValue p entries key :: places⟩
      else
        let entries := entries ++ [(key, empty {})]
        orElse ⟨.flowKeyEnd p entries, places⟩ (nextEntry p entries places t)
  | .loneKeyEnd p entries key, places =>
      let entries := entries ++ [(key, empty {})]
      orElse ⟨.flowKeyEnd p entries, places⟩ (nextEntry p entries places t)
  | .done root, places =>
      match t with
      | .documentEnd => .ok ⟨.done root, places⟩
      | .streamEnd => .ok ⟨.ended root, places⟩
      | _ => .error ⟨.done root, places⟩
  | wanted, [] => .error ⟨wanted, []⟩
  | .ended root, places => .error ⟨.ended root, places⟩
termination_by structural _ places => places

namespace State

/-- Before anything has been read. -/
def start : State := ⟨.document false [], []⟩

/-- What is being read, if nothing can be read any more. -/
def innermost : Wanted → Node
  | .document .. | .place | .node _ => .broken
  | .blockItem p items | .flushItem p items | .flowItem p items
  | .flowItemEnd p items => .sequence p (items ++ [.broken])
  | .blockKey p entries | .flowKey p entries | .flowKeyEnd p entries =>
      .mapping p (entries ++ [(.broken, .broken)])
  | .blockValue p entries key | .flowValue p entries key
  | .loneKeyEnd p entries key => .mapping p (entries ++ [(key, .broken)])
  | .pairValue p items key =>
      .sequence p (items ++ [.mapping {} [(key, .broken)]])
  | .pairEnd p items key value =>
      let entries := [(key, value), (.broken, .broken)]
      .sequence p (items ++ [.mapping {} entries])
  | .done root | .ended root => root

/-- What has been read where the text can not be read any further. -/
def brokenOff (s : State) : Node :=
  s.places.foldl Place.cutOff (innermost s.wanted)

end State

-- ============================================================= anchors

mutual

/-- The last node with the anchor, in the order of the text. -/
def anchored? (id : Nat) : Node → Option Node
  | .scalar p style text =>
      if p.anchor = some id then some (.scalar p style text) else none
  | .sequence p items =>
      (anchoredIn? id items).or
        (if p.anchor = some id then some (.sequence p items) else none)
  | .mapping p entries =>
      (anchoredInEntries? id entries).or
        (if p.anchor = some id then some (.mapping p entries) else none)
  | .reference _ => none
  | .broken => none

/-- The last node with the anchor in any of the items. -/
def anchoredIn? (id : Nat) : List Node → Option Node
  | [] => none
  | n :: ns => (anchoredIn? id ns).or (anchored? id n)

/-- The last node with the anchor in any of the entries. -/
def anchoredInEntries? (id : Nat) : List (Node × Node) → Option Node
  | [] => none
  | (k, v) :: es =>
      (anchoredInEntries? id es).or ((anchored? id v).or (anchored? id k))

end

/-- The node itself, or the one in the document that it stands for. -/
def target (n root : Node) : Node :=
  match n with
  | .reference id => (anchored? id root).getD .broken
  | n => n

mutual

/-- No broken leaf anywhere. -/
def isWhole : Node → Bool
  | .sequence _ items => allWhole items
  | .mapping _ entries => allEntriesWhole entries
  | .broken => false
  | _ => true

/-- No broken leaf in any item. -/
def allWhole : List Node → Bool
  | [] => true
  | n :: ns => isWhole n && allWhole ns

/-- No broken leaf in any entry. -/
def allEntriesWhole : List (Node × Node) → Bool
  | [] => true
  | (k, v) :: es => isWhole k && isWhole v && allEntriesWhole es

end

end Node

/-- A text as read: its first document, and whether there is no more. -/
structure Document where
  root : Node
  complete : Bool

namespace Document

/-- Reads tokens from a state on. -/
def ofTokens : Node.State → List Token → Document
  | ⟨.ended root, _⟩, [] => ⟨root, true⟩
  | s, [] => ⟨s.brokenOff, false⟩
  | s, .broken :: _ => ⟨s.brokenOff, false⟩
  | s, t :: ts =>
      match Node.step t s.wanted s.places with
      | .ok s => ofTokens s ts
      | .error s => ⟨s.brokenOff, false⟩

/-- Reads a text. -/
def ofText (t : Text) : Document := ofTokens .start (tokens t)

end Document
end Yaml
end FilterQuery
