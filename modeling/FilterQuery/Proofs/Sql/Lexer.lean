/-
A lexer of SQL conditions, as a database has it: quoted identifiers and
string literals by the rules of the dialect, words, symbols, parentheses.
It is independent of the code that writes conditions and knows nothing of
fields or queries, so what it finds in a text is what the text says.

It is strict where that matters. A literal or an identifier that is not
ended is refused, and so is every character outside of them that a
condition has no use for, among them the ones that end a statement or
start a comment.

The lexer is a machine that reads one character at a time. `run_append`
composes runs; `lex_append` says when a text can be lexed piece by piece:
in front of a separator the lexer forgets what it has read.
-/
import FilterQuery.Quoting

namespace FilterQuery
namespace Sql

-- ================================================================ lexemes

/-- The two kinds of quoted text. -/
inductive Quotation where
  | identifier
  | literal
  deriving DecidableEq, Repr

/-- The smallest parts of a condition. -/
inductive Lexeme where
  /-- A quoted text, as it is meant: without marks and escapes. -/
  | quoted (q : Quotation) (text : Text)
  /-- Letters, digits and underscores. -/
  | word (text : Text)
  /-- A run of operator characters. -/
  | symbol (text : Text)
  | opening
  | closing
  deriving DecidableEq, Repr

/-- The mark that a dialect puts around a quoted text. -/
def Quotation.mark (d : Dialect) : Quotation → Char
  | identifier => d.identifierMark
  | literal => '\''

def isWordChar (c : Char) : Bool := c.isAlphanum || c == '_'

def isSymbolChar (c : Char) : Bool :=
  ['=', '<', '>', '!', '.', '+', '-'].contains c

-- ============================================================ the machine

/-- What the lexer is in the middle of. -/
inductive State where
  | between
  | word (text : Text)
  | symbol (text : Text)
  /-- Inside a quoted text. -/
  | quoted (q : Quotation) (text : Text)
  /-- Behind a backslash in a literal. -/
  | escaped (text : Text)
  /-- Behind a mark in a quoted text. That was the end, unless the mark
  comes once more. -/
  | closed (q : Quotation) (text : Text)
  deriving DecidableEq, Repr

/-- The lexeme that ends with the text, if one does. -/
def finish : State → Option (List Lexeme)
  | .between => some []
  | .word text => some [.word text]
  | .symbol text => some [.symbol text]
  | .closed q text => some [.quoted q text]
  | .quoted .. | .escaped _ => none

variable (d : Dialect)

/-- The first character of a lexeme. -/
def start (c : Char) : Option (List Lexeme × State) :=
  if c = Quotation.identifier.mark d then some ([], .quoted .identifier [])
  else if c = Quotation.literal.mark d then some ([], .quoted .literal [])
  else if c = '(' then some ([.opening], .between)
  else if c = ')' then some ([.closing], .between)
  else if c = ' ' then some ([], .between)
  else if isWordChar c then some ([], .word [c])
  else if isSymbolChar c then some ([], .symbol [c])
  else none

/-- Lexemes put out before others. -/
def prepend (ls : List Lexeme) (out : List Lexeme × State) :
    List Lexeme × State := (ls ++ out.1, out.2)

/-- The first character behind lexemes that are complete. -/
def startAfter (ls : List Lexeme) (c : Char) :
    Option (List Lexeme × State) :=
  (start d c).map (prepend ls)

/-- One more character: the lexemes that it completes, and the state after
it. Two hyphens in a row start a comment. -/
def step : State → Char → Option (List Lexeme × State)
  | .between, c => start d c
  | .word text, c =>
      if isWordChar c then some ([], .word (text ++ [c]))
      else startAfter d [.word text] c
  | .symbol text, c =>
      if isSymbolChar c then
        if c = '-' ∧ text.getLast? = some '-' then none
        else some ([], .symbol (text ++ [c]))
      else startAfter d [.symbol text] c
  | .quoted q text, c =>
      if c = q.mark d then some ([], .closed q text)
      else if d = .mysql ∧ q = .literal ∧ c = '\\' then
        some ([], .escaped text)
      else some ([], .quoted q (text ++ [c]))
  | .escaped text, c => some ([], .quoted .literal (text ++ [c]))
  | .closed q text, c =>
      if c = q.mark d then some ([], .quoted q (text ++ [c]))
      else startAfter d [.quoted q text] c

/-- The characters of a text: all lexemes completed, and the state at the
end. -/
def run : State → Text → Option (List Lexeme × State)
  | st, [] => some ([], st)
  | st, c :: t =>
      (step d st c).bind fun out => (run out.2 t).map (prepend out.1)

/-- The lexemes from a state to the end of a text. -/
def lexFrom : State → Text → Option (List Lexeme)
  | st, [] => finish st
  | st, c :: t =>
      (step d st c).bind fun out => (lexFrom out.2 t).map (out.1 ++ ·)

/-- The lexemes of a text; none, if it is no sequence of lexemes. -/
def lex (t : Text) : Option (List Lexeme) := lexFrom d .between t

variable {d}

-- ============================================================ composition

theorem run_append {st mid last : State} {s t : Text}
    {ls ms : List Lexeme} (hs : run d st s = some (ls, mid))
    (ht : run d mid t = some (ms, last)) :
    run d st (s ++ t) = some (ls ++ ms, last) := by
  induction s generalizing st ls with
  | nil =>
      obtain ⟨rfl, rfl⟩ := Prod.mk.inj (Option.some.inj hs)
      exact ht
  | cons c s ih =>
      obtain ⟨out, hstep, hrun⟩ := Option.bind_eq_some_iff.1 hs
      obtain ⟨rest, hrest, hls⟩ := Option.map_eq_some_iff.1 hrun
      obtain ⟨rfl, rfl⟩ := Prod.mk.inj hls
      rw [List.cons_append, run, hstep, Option.bind_some, ih hrest]
      simp [prepend]

/-- A text of which the start has been read. -/
theorem lexFrom_append {st last : State} {s : Text} {ls : List Lexeme}
    (h : run d st s = some (ls, last)) (t : Text) :
    lexFrom d st (s ++ t) = (lexFrom d last t).map (ls ++ ·) := by
  induction s generalizing st ls with
  | nil =>
      obtain ⟨rfl, rfl⟩ := Prod.mk.inj (Option.some.inj h)
      simp
  | cons c s ih =>
      obtain ⟨out, hstep, hrun⟩ := Option.bind_eq_some_iff.1 h
      obtain ⟨rest, hrest, hls⟩ := Option.map_eq_some_iff.1 hrun
      obtain ⟨rfl, rfl⟩ := Prod.mk.inj hls
      rw [List.cons_append, lexFrom, hstep, Option.bind_some, ih hrest,
        Option.map_map]
      congr 1
      funext ms
      simp

/-- The lexemes of a text are those that its run completes, and the one in
whose middle it ends. -/
theorem lexFrom_eq_some_iff {st : State} {t : Text} {ls : List Lexeme} :
    lexFrom d st t = some ls
      ↔ ∃ ms last ns, run d st t = some (ms, last)
          ∧ finish last = some ns ∧ ls = ms ++ ns := by
  constructor
  · intro h
    induction t generalizing st ls with
    | nil => exact ⟨[], st, ls, rfl, h, rfl⟩
    | cons c t ih =>
        obtain ⟨out, hstep, hlex⟩ := Option.bind_eq_some_iff.1 h
        obtain ⟨rest, hrest, rfl⟩ := Option.map_eq_some_iff.1 hlex
        obtain ⟨ms, last, ns, hrun, hfinish, rfl⟩ := ih hrest
        refine ⟨out.1 ++ ms, last, ns, ?_, hfinish, ?_⟩
        · rw [run, hstep, Option.bind_some, hrun]
          rfl
        · rw [List.append_assoc]
  · intro h
    obtain ⟨ms, last, ns, hrun, hfinish, rfl⟩ := h
    rw [← List.append_nil t, lexFrom_append hrun, lexFrom, hfinish]
    rfl

-- ============================================================= separators

/-- Nothing, or a text that starts with a space or a closing
parenthesis. -/
def Separates (t : Text) : Prop := ∀ c ∈ t.head?, c = ' ' ∨ c = ')'

/-- A space or a closing parenthesis is outside of whatever may end. -/
theorem step_separator {st : State} {ls : List Lexeme} {c : Char}
    (hst : finish st = some ls) (hc : c = ' ' ∨ c = ')') :
    step d st c = startAfter d ls c := by
  have hword : isWordChar c = false := by
    rcases hc with rfl | rfl <;> decide
  have hsymbol : isSymbolChar c = false := by
    rcases hc with rfl | rfl <;> decide
  have hmark : ∀ q : Quotation, c ≠ q.mark d := by
    intro q
    cases q <;> cases d <;> rcases hc with rfl | rfl <;> decide
  cases st with
  | between =>
      obtain rfl := Option.some.inj hst
      show start d c = (start d c).map (prepend [])
      cases start d c <;> rfl
  | word text =>
      obtain rfl := Option.some.inj hst
      simp [step, hword]
  | symbol text =>
      obtain rfl := Option.some.inj hst
      simp [step, hsymbol]
  | quoted q text => cases hst
  | escaped text => cases hst
  | closed q text =>
      obtain rfl := Option.some.inj hst
      simp [step, hmark]

/-- A character that starts a lexeme behind others starts it as it would at
the start of a text. -/
theorem lexFrom_of_startAfter {st : State} {ls : List Lexeme} {c : Char}
    (h : step d st c = startAfter d ls c) (t : Text) :
    lexFrom d st (c :: t) = (lex d (c :: t)).map (ls ++ ·) := by
  unfold lex
  rw [lexFrom, lexFrom, h, show step d .between c = start d c from rfl,
    startAfter]
  cases start d c with
  | none => rfl
  | some out =>
      simp only [Option.map_some, Option.bind_some, prepend, Option.map_map]
      congr 1
      funext ms
      simp

/-- In front of a separator the lexer has forgotten what it has read. -/
theorem lexFrom_of_separates {st : State} {ls : List Lexeme}
    (hst : finish st = some ls) {t : Text} (ht : Separates t) :
    lexFrom d st t = (lex d t).map (ls ++ ·) := by
  cases t with
  | nil =>
      show finish st = (some []).map (ls ++ ·)
      rw [hst]
      simp
  | cons c t =>
      exact lexFrom_of_startAfter (step_separator hst (ht c rfl)) t

/-- A text may be lexed piece by piece, if the second piece starts with a
separator. -/
theorem lex_append {s t : Text} {ls : List Lexeme} (hs : lex d s = some ls)
    (ht : Separates t) : lex d (s ++ t) = (lex d t).map (ls ++ ·) := by
  obtain ⟨ms, last, ns, hrun, hfinish, rfl⟩ := lexFrom_eq_some_iff.1 hs
  unfold lex
  rw [lexFrom_append hrun, lexFrom_of_separates hfinish ht, Option.map_map]
  congr 1
  funext us
  simp

theorem lex_append_eq_some {s t : Text} {ls ms : List Lexeme}
    (hs : lex d s = some ls) (ht : Separates t) (hms : lex d t = some ms) :
    lex d (s ++ t) = some (ls ++ ms) := by
  rw [lex_append hs ht, hms]
  rfl

-- ========================================================== simple pieces

/-- Behind a character that is over as soon as it is read, the rest of the
text is lexed as if it stood alone. -/
theorem lex_cons {c : Char} {ls : List Lexeme}
    (hc : start d c = some (ls, .between)) (t : Text) :
    lex d (c :: t) = (lex d t).map (ls ++ ·) := by
  unfold lex
  rw [lexFrom, step, hc, Option.bind_some]

/-- A text in parentheses. -/
theorem lex_enclosed {t : Text} {ls : List Lexeme}
    (h : lex d t = some ls) :
    lex d ('(' :: t ++ [')']) = some (.opening :: ls ++ [.closing]) := by
  have hopen : start d '(' = some ([.opening], .between) := by
    cases d <;> decide
  have hclose : start d ')' = some ([.closing], .between) := by
    cases d <;> decide
  have hclosing : lex d [')'] = some [.closing] := by
    rw [lex_cons hclose]
    rfl
  have hsep : Separates [')'] := by
    intro c hc
    exact Or.inr (Option.some.inj hc).symm
  rw [List.cons_append, lex_cons hopen, lex_append_eq_some h hsep hclosing]
  rfl

end Sql
end FilterQuery
