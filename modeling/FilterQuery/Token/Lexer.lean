/-
From a query to its tokens, in three passes, each a structural recursion.

1. `pieces` cuts at delimiters. A delimiter of two characters is taken
   whole, so that `!=` is never read as `!` and `=`.
2. `joinQuotes` lets a lone quote mark absorb all pieces up to the next
   lone mark of the same character.
3. `joinGroups` lets an opening parenthesis absorb all tokens up to the
   closing one that balances it. Quoted stretches are whole by then, so
   the parentheses in them do not count.

Pass 2 is complete before pass 3 starts: a query with an open quote is
refused for that, whatever its parentheses.
-/
import FilterQuery.Token

namespace FilterQuery
namespace Token

-- ============================================================= pieces

/-- The two-character delimiters, by their characters. -/
def isDoubleDelimiter (c d : Char) : Bool :=
  match c, d with
  | '\r', '\n' | '!', '=' | '>', '=' | '<', '=' | '&', '&' | '|', '|' => true
  | _, _ => false

/-- The characters that are delimiters by themselves. -/
def isDelimiter (c : Char) : Bool :=
  isQuoteMark c
    || [' ', '\t', '\n', '\r', '(', ')', '=', '<', '>', '!', ',', ';', '+',
        '*', '/'].contains c

/-- Puts a character that is no delimiter before the pieces that follow
it: into the first of them where that is text, else as text of its own. -/
def consText (c : Char) (offset : Nat) : List Token → List Token
  | ⟨.text, t, _⟩ :: ts => ⟨.text, c :: t, offset⟩ :: ts
  | ts => ⟨.text, [c], offset⟩ :: ts

/-- A text cut at its delimiters; `base` is the offset of its start. -/
def pieces (base : Nat) : Text → List Token
  | [] => []
  | [c] =>
      if isDelimiter c then [⟨.delimiter, [c], base⟩]
      else consText c base []
  | c :: d :: t =>
      if isDoubleDelimiter c d then
        ⟨.delimiter, [c, d], base⟩
          :: pieces (base + (c.utf8Size + d.utf8Size)) t
      else if isDelimiter c then
        ⟨.delimiter, [c], base⟩ :: pieces (base + c.utf8Size) (d :: t)
      else consText c base (pieces (base + c.utf8Size) (d :: t))

-- ============================================================= quotes

/-- Joins quoted stretches. `opened` is the quoted stretch being read,
with its mark, where the pass is inside one. -/
def joinQuotes (mode : Mode) :
    Option (Char × Token) → List Token → Except QueryError (List Token)
  | none, [] => .ok []
  | some (quote, opened), [] =>
      match mode with
      | .strict => .error (.unterminatedQuote quote opened.offset)
      | .lenient => .ok [opened]
  | none, t :: ts =>
      match t.quoteMark? with
      | some quote =>
          joinQuotes mode (some (quote, { t with kind := .quoted })) ts
      | none => do
          let rest ← joinQuotes mode none ts
          return t :: rest
  | some (quote, opened), t :: ts =>
      if t.quoteMark? = some quote then do
        let rest ← joinQuotes mode none ts
        return opened.absorb t :: rest
      else
        joinQuotes mode (some (quote, opened.absorb t)) ts

-- ============================================================= groups

/-- Joins groups. `opened` is the group being read, where the pass is
inside one, with the number of groups open within it. -/
def joinGroups (mode : Mode) :
    Option (Nat × Token) → List Token → Except QueryError (List Token)
  | none, [] => .ok []
  | some (_, opened), [] =>
      match mode with
      | .strict => .error (.unbalancedParenthesis opened.offset)
      | .lenient => .ok [opened]
  | none, t :: ts =>
      if t.isClosing && mode == .strict then
        .error (.unbalancedParenthesis t.offset)
      else if t.isOpening then
        -- From here on all tokens are absorbed, up to the one that closes.
        joinGroups mode (some (0, { t with kind := .group })) ts
      else do
        let rest ← joinGroups mode none ts
        return t :: rest
  | some (depth, opened), t :: ts =>
      if t.isOpening then
        joinGroups mode (some (depth + 1, opened.absorb t)) ts
      else if t.isClosing then
        match depth with
        | 0 => do
            let rest ← joinGroups mode none ts
            return opened.absorb t :: rest
        | depth + 1 => joinGroups mode (some (depth, opened.absorb t)) ts
      else
        joinGroups mode (some (depth, opened.absorb t)) ts

-- ============================================================= tokens

/-- The tokens of a text whose first character is at offset `base` of the
whole query. -/
def tokenizeAt (mode : Mode) (base : Nat) (t : Text) :
    Except QueryError (List Token) := do
  let quoted ← joinQuotes mode none (pieces base t)
  joinGroups mode none quoted

/-- The tokens of a whole query. -/
def tokenize (mode : Mode) (query : Text) : Except QueryError (List Token) :=
  tokenizeAt mode 0 query

end Token
end FilterQuery
