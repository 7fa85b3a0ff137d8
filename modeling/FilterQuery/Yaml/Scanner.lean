/-
From a YAML text to its tokens. Besides the signs that are written there
are tokens for the start and the end of block collections, which only
indentation shows, and one before each key, which only the colon after it
shows.

Neither of the two can be seen where it starts. The end of a block
collection shows only when something is indented less: the scanner keeps
the columns of the open block collections. And a key shows only by the
colon after it: the scanner keeps, for each level of flow collections, the
last place that may have been the start of a key, and when the colon comes
it inserts the tokens that belong there.

A key without `?` stays on one line and takes at most 1024 bytes.
Where only a key can stand, nothing else is allowed.

Tokens are delivered as soon as nothing can be inserted before them. When
the text goes wrong, the tokens delivered by then are what has been read.
-/
import FilterQuery.Yaml.Scalar

namespace FilterQuery
namespace Yaml

-- ====================================================== kinds of token

/-- How a scalar is written. -/
inductive Style where
  | plain
  | singleQuoted
  | doubleQuoted
  | literal
  | folded
  deriving DecidableEq, Repr

/-- A token of a YAML text. -/
inductive Token where
  | versionDirective (major minor : Nat)
  | tagDirective (handle : Text)
  | documentStart
  | documentEnd
  | blockSequenceStart
  | blockMappingStart
  /-- The end of a block collection of either kind. -/
  | blockEnd
  | flowSequenceStart
  | flowSequenceEnd
  | flowMappingStart
  | flowMappingEnd
  /-- The dash of an item. -/
  | blockEntry
  /-- The comma between items. -/
  | flowEntry
  | key
  | value
  /-- Names the node that follows, by a number. -/
  | anchor (id : Nat)
  /-- Stands for the node of an anchor, if there is one. -/
  | reference (id : Option Nat)
  /-- Types the node that follows, if the handle of the tag is known. -/
  | tag (name : Option Text)
  | scalar (style : Style) (text : Text)
  | streamEnd
  /-- The text can not be read any further. -/
  | broken
  deriving DecidableEq, Repr

-- ============================================================= scanners

/-- A place that may turn out to be the start of a key. -/
structure Candidate where
  /-- The number of tokens before it. -/
  number : Nat
  mark : Mark
  /-- Nothing but a key can stand there. -/
  required : Bool

/-- How far a text has been scanned. -/
structure Scanner where
  cursor : Cursor
  tokens : List Token := []
  /-- The column of the innermost block collection, if one is open. -/
  level : Option Nat := none
  /-- The columns of the block collections around it. -/
  outer : List (Option Nat) := []
  /-- A key may start here. -/
  keyAllowed : Bool := true
  /-- The candidate of the innermost flow collection, or of the block. -/
  candidate : Option Candidate := none
  /-- Those of the collections around it, for each flow collection one. -/
  waiting : List (Option Candidate) := []
  /-- The anchors by name, with their numbers. -/
  anchors : List (Text × Nat) := []
  /-- The handles of tags, with what they stand for if it is a text. -/
  handles : List (Text × Option Text) :=
    [(['!'], some ['!']),
      (['!', '!'], some "tag:yaml.org,2002:".toList)]

namespace Scanner

variable (s : Scanner)

/-- Inside a flow collection, where indentation does not count. -/
def inFlow : Bool := !s.waiting.isEmpty

/-- The column of the next character. -/
def column : Nat := s.cursor.mark.column

/-- Adds a token. -/
def emit (t : Token) : Scanner := { s with tokens := s.tokens ++ [t] }

/-- Moves over so many characters. -/
def skip (n : Nat) : Scanner := { s with cursor := s.cursor.skip n }

-- ========================================================= indentation

/-- Ends the block collections whose column lies beyond `column`. -/
def unrollTo (column : Option Nat) : Option Nat → List (Option Nat) →
    List Token → Option Nat × List (Option Nat) × List Token
  | level, [], tokens => (level, [], tokens)
  | level, up :: outer, tokens =>
      if level.any fun n => column.all (· < n) then
        unrollTo column up outer (tokens ++ [.blockEnd])
      else (level, up :: outer, tokens)

/-- Ends the block collections that `column` is too far left for; with no
column, all of them. -/
def unroll (column : Option Nat) : Scanner :=
  if s.inFlow then s
  else
    let (level, outer, tokens) := unrollTo column s.level s.outer s.tokens
    { s with level, outer, tokens }

/-- Starts a block collection at a column that lies beyond the innermost
one; its token goes before those from `number` on. -/
def roll (column number : Nat) (t : Token) : Scanner :=
  if !s.inFlow ∧ s.level.all (· < column) then
    { s with
      level := some column
      outer := s.level :: s.outer
      tokens := s.tokens.take number ++ t :: s.tokens.drop number }
  else s

-- ================================================================ keys

/-- A candidate that can be no key any more goes; it may not be required. -/
def expire (position : Mark) : Option Candidate → Option (Option Candidate)
  | none => some none
  | some k =>
      -- A key stands on one line, and is not longer than this.
      if k.mark.line < position.line ∨ k.mark.index + 1024 < position.index then
        if k.required then none else some none
      else some (some k)

/-- The candidates that can still be keys, if all goes well. -/
def expireAll : Option Scanner := do
  let candidate ← expire s.cursor.mark s.candidate
  let waiting ← s.waiting.mapM (expire s.cursor.mark)
  return { s with candidate, waiting }

/-- The innermost candidate is no key. -/
def dropCandidate : Option Scanner :=
  if s.candidate.any (·.required) then none
  else some { s with candidate := none }

/-- What comes next may be a key, if one is allowed here. -/
def saveCandidate : Option Scanner :=
  if s.keyAllowed then do
    let required := !s.inFlow && s.level == some s.column
    let s ← s.dropCandidate
    return { s with
      candidate := some ⟨s.tokens.length, s.cursor.mark, required⟩ }
  else some s

/-- The number of tokens before which nothing can be inserted any more. -/
def settled : Nat :=
  (s.candidate :: s.waiting).foldl
    (fun n k => (k.map (min n ·.number)).getD n) s.tokens.length

-- ======================================================== white space

/-- Moves over white space and comments: what is left, and whether a key
may start there. A tab counts as white space where it indents nothing. -/
def blankSpan (inFlow : Bool) :
    Bool → Bool → Mark → Text → Bool × Cursor
  | _, allowed, m, [] => (allowed, ⟨[], m⟩)
  | inComment, allowed, m, c :: t =>
      if isBreak c then
        blankSpan inFlow false (allowed || !inFlow) (m.after c) t
      else if inComment || c == '#' then
        blankSpan inFlow true allowed (m.after c) t
      else if c == ' ' || (c == '\t' && (inFlow || !allowed))
          || (c == byteOrderMark && m.column == 0) then
        blankSpan inFlow false allowed (m.after c) t
      else (allowed, ⟨c :: t, m⟩)

/-- Moves to the next token. -/
def toToken : Scanner :=
  let (keyAllowed, cursor) :=
    blankSpan s.inFlow false s.keyAllowed s.cursor.mark s.cursor.rest
  { s with keyAllowed, cursor }

-- ==================================================== tags and anchors

/-- Reads octets written as `%` and two digits: those of one character in
UTF-8, of which `left` more have to follow. -/
def readOctets : Nat → Nat → Text → Option (Nat × Text)
  | 0, code, t => some (code, t)
  | left + 1, code, '%' :: a :: b :: t => do
      let n := 16 * (← hexDigit? a) + (← hexDigit? b)
      if 0x80 ≤ n ∧ n < 0xC0 then readOctets left (64 * code + (n - 0x80)) t
      else none
  | _, _, _ => none

/-- Reads one character written in octets: how many octets there are, and
the character unless it is not written in its shortest form. -/
def readEscaped (a b : Char) (t : Text) : Option (Option Char × Text) := do
  let n := 16 * (← hexDigit? a) + (← hexDigit? b)
  if n < 0x80 then some (some (.ofNat n), t)
  else if n < 0xC0 then none
  else if n < 0xE0 then do
    let (code, u) ← readOctets 1 (n - 0xC0) t
    some (if code < 0x80 then none else some (.ofNat code), u)
  else if n < 0xF0 then do
    let (code, u) ← readOctets 2 (n - 0xE0) t
    some (if code < 0x800 then none else charOfCode? code, u)
  else if n < 0xF8 then do
    let (code, u) ← readOctets 3 (n - 0xF0) t
    some (if code < 0x10000 then none else charOfCode? code, u)
  else none

/-- The characters of a tag; those of flow collections only in a tag that
is written out between angles. -/
def isTagChar (verbatim : Bool) (c : Char) : Bool :=
  isNameChar c
    || [';', '/', '?', ':', '@', '&', '=', '+', '$', '.', '!', '~', '*',
        '\'', '(', ')'].contains c
    || (verbatim && [',', '[', ']'].contains c)

/-- Reads the characters of a tag, and what is left. What is escaped need
not be a character. -/
def readTagChars (verbatim : Bool) (fuel : Nat) (t : Text) :
    Option (List (Option Char) × Text) :=
  match fuel, t with
  | fuel + 1, '%' :: a :: b :: t => do
      let (c, t) ← readEscaped a b t
      let (cs, rest) ← readTagChars verbatim fuel t
      return (c :: cs, rest)
  | fuel + 1, c :: t =>
      if c = '%' then none
      else if isTagChar verbatim c then do
        let (cs, rest) ← readTagChars verbatim fuel t
        return (some c :: cs, rest)
      else some ([], c :: t)
  | _, t => some ([], t)

/-- Reads the text of a tag, and what is left. The text ends before the
first NUL, and all that stands in it has to be a character. -/
def readTagText (verbatim : Bool) (t : Text) :
    Option (Option Text × Text) := do
  let (cs, rest) ← readTagChars verbatim t.length t
  return ((cs.takeWhile (· != some '\x00')).mapM id, rest)

/-- Reads a handle: an exclamation mark, and possibly a name and another
one. -/
def readHandle : Text → Option (Text × Text)
  | '!' :: t =>
      let name := t.takeWhile isNameChar
      match t.dropWhile isNameChar with
      | '!' :: u => some ('!' :: name ++ ['!'], u)
      | u => some ('!' :: name, u)
  | _ => none

/-- What a handle and the text after it stand for, if the handle is known. -/
def tagName (handle : Text) (text : Option Text) : Option Text :=
  match s.handles.lookup handle with
  | none => none
  | some start => some ((start.bind fun u => text.map (u ++ ·)).getD [])

/-- Reads a tag: what it stands for, and what is left. A tag that can not
be decoded stands for the empty text, which names nothing. -/
def readTag : Text → Option (Option Text × Text)
  | '!' :: '<' :: t => do
      let (text, rest) ← readTagText true t
      if rest.length = t.length then none
      match rest with
      | '>' :: rest => return (some (text.getD []), rest)
      | _ => none
  | t => do
      let (handle, rest) ← readHandle t
      if 1 < handle.length ∧ handle.getLast? = some '!' then
        let (text, left) ← readTagText false rest
        if left.length = rest.length then none
        return (s.tagName handle text, left)
      else
        let (text, left) ← readTagText false rest
        let text := text.map (handle.drop 1 ++ ·)
        if text = some [] then return (some ['!'], left)
        return (s.tagName ['!'] text, left)

/-- Whether a tag may end here. -/
def endsTag (rest : Text) : Bool :=
  isSeparated rest || (s.inFlow && rest.head? == some ',')

/-- Whether the name of an anchor may end here. -/
def endsName (rest : Text) : Bool :=
  isSeparated rest
    || rest.head?.any ['?', ':', ',', ']', '\x7d', '%', '@', '\x60'].contains

-- ========================================================== directives

/-- Reads a number of at most nine digits. -/
def readNumber (c : Cursor) : Option (Nat × Cursor) :=
  let (digits, c) := c.span Char.isDigit
  if digits.isEmpty ∨ 9 < digits.length then none
  else some (Nat.ofDigitChars 10 digits 0, c)

/-- Reads a directive from behind its percent sign on. -/
def directive : Option Scanner := do
  let (name, c) := s.cursor.span isNameChar
  if !isSeparated c.rest then none
  if name = "YAML".toList then
    let (major, c) ← readNumber c.skipBlanks
    if c.rest.head? ≠ some '.' then none
    let (minor, c) ← readNumber (c.skip 1)
    let cursor ← c.skipLine?
    return ({ s with cursor }).emit (.versionDirective major minor)
  else if name = "TAG".toList then
    let c := c.skipBlanks
    let (handle, rest) ← readHandle c.rest
    if handle.length ≠ 1 ∧ handle.getLast? ≠ some '!' then none
    if !rest.head?.any isBlank then none
    let c := (c.skip (c.rest.length - rest.length)).skipBlanks
    let (text, rest) ← readTagText true c.rest
    if rest.length = c.rest.length ∨ !isSeparated rest then none
    let cursor ← (c.skip (c.rest.length - rest.length)).skipLine?
    return ({ s with
      cursor := cursor
      handles := (handle, text) :: s.handles }).emit
        (.tagDirective handle)
  else none

-- ============================================================== tokens

/-- Ends the text: no collection stays open in a block. No key can follow
on the same line, so what has to be a key is missing. -/
def finish : Option Scanner := do
  let s ← (s.unroll none).dropCandidate
  if s.waiting.any (·.any (·.required)) then none
  return ({ s with keyAllowed := false }).emit .streamEnd

/-- Reads a document marker. -/
def documentMarker (t : Token) : Option Scanner := do
  let s ← (s.unroll none).dropCandidate
  return (({ s with keyAllowed := false }).emit t).skip 3

/-- Reads the start of a flow collection. -/
def flowStart (t : Token) : Option Scanner := do
  let s ← s.saveCandidate
  return (({ s with
    keyAllowed := true
    candidate := none
    waiting := s.candidate :: s.waiting }).emit t).skip 1

/-- Reads the end of a flow collection. -/
def flowEnd (t : Token) : Option Scanner := do
  let s ← s.dropCandidate
  let s := { s with keyAllowed := false }
  let s := match s.waiting with
    | [] => s
    | candidate :: waiting => { s with candidate, waiting }
  return (s.emit t).skip 1

/-- Reads the comma of a flow collection. -/
def flowComma : Option Scanner := do
  let s ← s.dropCandidate
  return (({ s with keyAllowed := true }).emit .flowEntry).skip 1

/-- Reads the dash of a block sequence. -/
def dash : Option Scanner := do
  if !s.inFlow ∧ !s.keyAllowed then none
  let s ← (s.roll s.column s.tokens.length .blockSequenceStart).dropCandidate
  return (({ s with keyAllowed := true }).emit .blockEntry).skip 1

/-- Reads the question mark of a key. -/
def questionMark : Option Scanner := do
  if !s.inFlow ∧ !s.keyAllowed then none
  let s ← (s.roll s.column s.tokens.length .blockMappingStart).dropCandidate
  return (({ s with keyAllowed := !s.inFlow }).emit .key).skip 1

/-- Reads the colon of a value. What the candidate started was a key. -/
def colon : Option Scanner :=
  match s.candidate with
  | some k =>
      let s := { s with
        tokens := s.tokens.take k.number
          ++ Token.key :: s.tokens.drop k.number
        candidate := none
        keyAllowed := false }
      let s := s.roll k.mark.column k.number .blockMappingStart
      some ((s.emit .value).skip 1)
  | none => do
      if !s.inFlow ∧ !s.keyAllowed then none
      let s := s.roll s.column s.tokens.length .blockMappingStart
      return (({ s with keyAllowed := !s.inFlow }).emit .value).skip 1

/-- Reads the name of an anchor or an alias, from behind its sign on. -/
def readName : Option (Text × Scanner) :=
  let (name, cursor) := s.cursor.span isNameChar
  if name.isEmpty ∨ !endsName cursor.rest then none
  else some (name, { s with cursor })

/-- Reads an anchor. Its number is that of the names known before it. -/
def anchor : Option Scanner := do
  let s ← s.saveCandidate
  let (name, s) ← (({ s with keyAllowed := false }).skip 1).readName
  let id := s.anchors.length
  let others := s.anchors.filter (·.1 != name)
  return ({ s with anchors := (name, id) :: others }).emit (.anchor id)

/-- Reads an alias. -/
def reference : Option Scanner := do
  let s ← s.saveCandidate
  let (name, s) ← (({ s with keyAllowed := false }).skip 1).readName
  return s.emit (.reference (s.anchors.lookup name))

/-- Reads a tag. -/
def tag : Option Scanner := do
  let s ← s.saveCandidate
  let (name, rest) ← s.readTag s.cursor.rest
  if !s.endsTag rest then none
  let s := s.skip (s.cursor.rest.length - rest.length)
  return ({ s with keyAllowed := false }).emit (.tag name)

/-- Reads a block scalar. -/
def blockScalar (fold : Bool) : Option Scanner := do
  let s ← s.dropCandidate
  let (text, cursor) ← readBlock fold s.level (s.cursor.skip 1)
  let style := if fold then .folded else .literal
  return ({ s with cursor, keyAllowed := true }).emit (.scalar style text)

/-- Reads a quoted scalar. -/
def quotedScalar (single : Bool) : Option Scanner := do
  let s ← s.saveCandidate
  let c := s.cursor.skip 1
  let (text, cursor) ← readQuoted single .text {} c.mark c.rest
  let style := if single then .singleQuoted else .doubleQuoted
  return ({ s with cursor, keyAllowed := false }).emit (.scalar style text)

/-- Reads a plain scalar. After a line break a key may follow. -/
def plainScalar : Option Scanner := do
  let s ← s.saveCandidate
  let indent := (s.level.map (· + 1)).getD 0
  let (f, cursor) ←
    readPlain s.inFlow indent {} s.cursor.mark s.cursor.rest
  return ({ s with cursor, keyAllowed := f.broken }).emit
    (.scalar .plain f.text)

/-- A plain scalar may start with this character; `rest` follows it. -/
def startsPlain (c : Char) (rest : Text) : Bool :=
  if c == '-' then !rest.head?.any isBlank
  else if c == '?' || c == ':' then !s.inFlow && !isSeparated rest
  else
    !(isBlank c || isBreak c || isFlowIndicator c
      || ['#', '&', '*', '!', '|', '>', '\'', '"', '%', '@', '\x60'].contains c)

/-- Reads the token that starts with this character, in whatever column it
stands; `t` follows it. -/
def sign (c : Char) (t : Text) : Option Scanner :=
  match c with
  | '[' => s.flowStart .flowSequenceStart
  | '\x7b' => s.flowStart .flowMappingStart
  | ']' => s.flowEnd .flowSequenceEnd
  | '\x7d' => s.flowEnd .flowMappingEnd
  | ',' => s.flowComma
  | '*' => s.reference
  | '&' => s.anchor
  | '!' => s.tag
  | '\'' => s.quotedScalar true
  | '"' => s.quotedScalar false
  | c =>
      if c = '-' ∧ isSeparated t then s.dash
      else if c = '?' ∧ (s.inFlow ∨ isSeparated t) then s.questionMark
      else if c = ':' ∧ (s.inFlow ∨ isSeparated t) then s.colon
      else if c = '|' ∧ !s.inFlow then s.blockScalar false
      else if c = '>' ∧ !s.inFlow then s.blockScalar true
      else if s.startsPlain c t then s.plainScalar
      else none

/-- Reads the token that starts with this character, which is a directive
or a document marker only at the start of a line. -/
def dispatch (c : Char) (t : Text) : Option Scanner :=
  if s.column = 0 ∧ c = '%' then do
    let s ← (s.unroll none).dropCandidate
    (({ s with keyAllowed := false }).skip 1).directive
  else if s.column = 0 ∧ isTripled '-' (c :: t) then
    s.documentMarker .documentStart
  else if s.column = 0 ∧ isTripled '.' (c :: t) then
    s.documentMarker .documentEnd
  else s.sign c t

/-- Reads the next token, with those that come to light before it. -/
def next : Option Scanner := do
  let s ← s.toToken.expireAll
  let s := s.unroll (some s.column)
  match s.cursor.rest with
  | [] => s.finish
  | c :: t => s.dispatch c t

/-- The tokens that are delivered if nothing more can be read after the
first `settled` ones. -/
def breakOff (settled : Nat) : List Token :=
  s.tokens.take settled ++ [.broken]

/-- Scans to the end, or to a fault. Every step but the last moves on in
the text, so as many steps as there are characters, and one, are enough;
`settled` tokens are delivered before the next one is looked at. -/
def run : Nat → Nat → Scanner → List Token
  | 0, settled, s => s.breakOff settled
  | fuel + 1, settled, s =>
      -- A candidate that expires counts before the next token is looked at.
      match s.expireAll with
      | none => s.breakOff settled
      | some s =>
          if s.tokens.getLast? = some .streamEnd then s.tokens
          else
            match s.next with
            | none => s.breakOff s.settled
            | some after => run fuel s.settled after

end Scanner

/-- The tokens of a text. -/
def tokens (t : Text) : List Token :=
  if t.all isAllowed then
    let t := unifyBreaks t
    Scanner.run (t.length + 2) 0 { cursor := ⟨t, {}⟩ }
  else [.broken]

end Yaml
end FilterQuery
