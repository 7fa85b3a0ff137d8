/-
What the condition of one column is, lexeme by lexeme. Nothing that a user
or a schema supplies decides its shape: the id of the field is one quoted
identifier, a text or a time is one literal, a number is a numeral, and a
truth value is one of two words. So a condition is always one unit, and
it is the one that its field and its operator ask for.
-/
import FilterQuery.Filter
import FilterQuery.Proofs.Sql.Literals
import FilterQuery.Proofs.Sql.Units

namespace FilterQuery

open Nesting

namespace Sql

variable {d : Dialect}

-- ============================================================ composition

/-- A space ends the lexeme before it. -/
private theorem separates_space (t : Text) : Separates (' ' :: t) :=
  fun _ hc => Or.inl (Option.some.inj hc).symm

/-- Two texts with a space between them. -/
theorem lex_append_space {s t : Text} {ls ms : List Lexeme}
    (hs : lex d s = some ls) (ht : lex d t = some ms) :
    lex d (s ++ ' ' :: t) = some (ls ++ ms) := by
  have hspace : start d ' ' = some ([], .between) := by cases d <;> decide
  apply lex_append_eq_some hs (separates_space t)
  rw [lex_cons hspace, ht]
  rfl

/-- Two texts with a word between them. -/
theorem lex_append_word {s t w : Text} {ls ms : List Lexeme}
    (hs : lex d s = some ls) (hw : lex d w = some [.word w])
    (ht : lex d t = some ms) :
    lex d (s ++ (' ' :: w ++ ' ' :: t)) = some (ls ++ .word w :: ms) :=
  lex_append_space hs (lex_append_space hw ht)

/-- Behind a lexeme that is complete the lexer starts anew. -/
private theorem run_after {st : State} {ls : List Lexeme} {c : Char}
    (h : step d st c = startAfter d ls c) (t : Text) :
    run d st (c :: t) = (run d .between (c :: t)).map (prepend ls) := by
  rw [run, run, h, startAfter, show step d .between c = start d c from rfl]
  cases start d c with
  | none => rfl
  | some out =>
      simp only [Option.map_some, Option.bind_some, Option.map_map]
      congr 1
      funext rest
      simp [prepend]

-- ================================================================ numerals

/-- A numeral is none of the words that join terms. -/
private theorem bindOf_of_numeral {w : Text}
    (h : ∀ c ∈ w, isNumeralLetter c = true) : bindOf w = none := by
  -- No letter of a numeral is the first of `AND` or of `OR`.
  have hupper : ∀ c, isNumeralLetter c = true →
      c.toUpper ≠ 'A' ∧ c.toUpper ≠ 'O' := by
    intro c hc
    simp only [isNumeralLetter, Bool.or_eq_true, beq_iff_eq] at hc
    rcases hc with (hdigit | rfl) | rfl
    · have hsame : c.toUpper = c := by
        unfold Char.toUpper
        rw [dif_neg]
        intro h
        obtain ⟨hlow, -⟩ := h
        simp only [Char.isDigit, Bool.and_eq_true,
          decide_eq_true_eq] at hdigit
        exact absurd (UInt32.le_trans hlow hdigit.2) (by decide)
      rw [hsame]
      constructor
      · intro heq
        subst heq
        cases hdigit
      · intro heq
        subst heq
        cases hdigit
    · decide
    · decide
  cases w with
  | nil => rfl
  | cons c w =>
      obtain ⟨hA, hO⟩ := hupper c (h c (List.mem_cons_self ..))
      simp [bindOf, Text.upper, hA, hO]

/-- A numeral changes no depth and joins nothing. -/
private theorem depthWhole_of_isNumeric {ls : List Lexeme}
    (h : ∀ l ∈ ls, l.IsNumeric) (k : Nat) : depthWhole k ls = some k := by
  induction ls with
  | nil => rfl
  | cons l ls ih =>
      have hls := ih fun m hm => h m (List.mem_cons_of_mem _ hm)
      apply depthWhole_cons_eq_some.2
      rcases h l (List.mem_cons_self ..) with ⟨w, rfl, hw⟩ | ⟨s, rfl⟩
      · refine ⟨?_, k, rfl, hls⟩
        cases k with
        | zero => exact bindOf_of_numeral hw
        | succ k => rfl
      · exact ⟨by cases k <;> rfl, k, rfl, hls⟩

-- ================================================================= filters

/-- A name that may qualify columns: letters, digits and underscores, no
digit first, and no bind word. -/
def isPlainName (name : Text) : Bool :=
  match name with
  | [] => false
  | c :: t =>
      (c.isAlpha || c == '_') && t.all isWordChar && (bindOf name).isNone

/-- A filter that writes in a dialect, with a plain qualifier if any. -/
structure Writes (f : Filter) (d : Dialect) : Prop where
  quoter : f.quoter = d.quoter
  qualifier : ∀ name ∈ f.qualifier, isPlainName name = true

variable {f : Filter} {field : Field}

/-- A plain name is one word, and none of those that join terms. -/
private theorem isPlainName_spec {name : Text} (h : isPlainName name = true) :
    name ≠ [] ∧ (∀ c ∈ name, isWordChar c = true)
      ∧ bindOf name = none := by
  cases name with
  | nil => cases h
  | cons c t =>
      simp only [isPlainName, Bool.and_eq_true, Bool.or_eq_true,
        beq_iff_eq, List.all_eq_true, Option.isNone_iff_eq_none] at h
      obtain ⟨⟨hc, ht⟩, hbind⟩ := h
      refine ⟨List.cons_ne_nil c t, fun e he => ?_, hbind⟩
      rcases List.mem_cons.1 he with rfl | he
      · rcases hc with hc | rfl
        · simp [isWordChar, Char.isAlphanum, hc]
        · decide
      · exact ht e he

-- ================================================================= columns

/-- A qualifier is a word with a point after it. -/
def qualifierLexemes (f : Filter) : List Lexeme :=
  match f.qualifier with
  | none => []
  | some name => [.word name, .symbol ['.']]

/-- A column: its qualifier, if there is one, and the id of the field. -/
def columnLexemes (f : Filter) (field : Field) : List Lexeme :=
  qualifierLexemes f ++ [.quoted .identifier field.id]

/-- A column is read up to the last mark of its id. -/
private theorem run_column (hf : Writes f d) (field : Field) :
    run d .between (f.column field)
      = some (qualifierLexemes f, .closed .identifier field.id) := by
  have hid := run_identifier (d := d) field.id
  unfold Filter.column qualifierLexemes
  rw [hf.quoter]
  cases hq : f.qualifier with
  | none => exact hid
  | some name =>
      obtain ⟨hne, hword, -⟩ := isPlainName_spec (hf.qualifier name hq)
      have hname := run_between_word (d := d) hne hword
      have hdot : run d (.word name) ['.']
          = some ([.word name], .symbol ['.']) := by
        cases d <;> rfl
      -- The mark that follows is no symbol.
      have hmark : step d (.symbol ['.']) d.identifierMark
          = startAfter d [.symbol ['.']] d.identifierMark := by
        cases d <;> rfl
      have hquoted : run d (.symbol ['.']) (d.quoter.identifier field.id)
          = some ([.symbol ['.']], .closed .identifier field.id) := by
        show run d (.symbol ['.']) (d.identifierMark :: _) = _
        rw [run_after hmark]
        show (run d .between (d.quoter.identifier field.id)).map _ = _
        rw [hid]
        rfl
      exact run_append hname (run_append hdot hquoted)

/-- So by itself it is its qualifier and one quoted identifier. -/
private theorem lex_column (hf : Writes f d) (field : Field) :
    lex d (f.column field) = some (columnLexemes f field) :=
  lex_of_run (run_column hf field) rfl

/-- A column changes no depth and joins nothing, whatever its id is. -/
private theorem depthWhole_column (hf : Writes f d) (field : Field) (k : Nat) :
    depthWhole k (columnLexemes f field) = some k := by
  unfold columnLexemes qualifierLexemes
  cases hq : f.qualifier with
  | none => cases k <;> rfl
  | some name =>
      obtain ⟨-, -, hbind⟩ := isPlainName_spec (hf.qualifier name hq)
      refine depthWhole_cons_eq_some.2 ⟨?_, k, rfl, by cases k <;> rfl⟩
      cases k with
      | zero => exact hbind
      | succ k => rfl

-- ============================================================== conditions

/-- Words, each one lexeme. -/
def words (ws : List String) : List Lexeme :=
  ws.map fun w => .word w.toList

/-- The lexemes of a test for a missing value. -/
def nullLexemes (f : Filter) (field : Field) (missing : Bool) :
    List Lexeme :=
  let column := columnLexemes f field
  let empty : List Lexeme := [.quoted .literal []]
  if field.type = .boolean ∨ field.type.isNumeric then
    if missing then column ++ words ["IS", "NULL"]
    else column ++ words ["IS", "NOT", "NULL"]
  else if field.type = .uuid then
    if missing then column ++ words ["is", "null"]
    else column ++ words ["is", "not", "null"]
  else if missing then
    .opening :: (column ++ words ["is", "null", "or"]
      ++ column ++ .symbol "=".toList :: empty) ++ [.closing]
  else
    .opening :: (column ++ words ["is", "not", "null", "and"]
      ++ column ++ .symbol "!=".toList :: empty) ++ [.closing]

/-- The lexemes of a value for a type: a truth word, a numeral, or one
literal that means the value. -/
def IsValue (d : Dialect) (ty : DataType) (value : Text)
    (ls : List Lexeme) : Prop :=
  if ty = .boolean then ls = [.word (Literal.boolean value)]
  else if ty.isNumeric then
    lex d (Literal.number value) = some ls ∧ ∀ l ∈ ls, l.IsNumeric
  else ls = [.quoted .literal value]

/-- The lexemes of a field compared by an operator, given those of the
value. -/
def comparisonLexemes (f : Filter) (field : Field) (op : Operator)
    (value : List Lexeme) : List Lexeme :=
  match op with
  | .isNull => nullLexemes f field true
  | .isNotNull => nullLexemes f field false
  | .like =>
      [.word "lower".toList, .opening] ++ columnLexemes f field
        ++ [.closing, .word "like".toList, .word "lower".toList, .opening]
        ++ value ++ [.closing]
  | _ => columnLexemes f field ++ .symbol op.spelling :: value

/-- A truth value is written as one of two words. -/
theorem boolean_cases (value : Text) :
    Literal.boolean value = "TRUE".toList
      ∨ Literal.boolean value = "FALSE".toList := by
  unfold Literal.boolean
  dsimp only
  split
  · exact Or.inl rfl
  · exact Or.inr rfl

/-- What is written for a value is lexed as a value of its type. -/
private theorem exists_isValue (hf : Writes f d) (ty : DataType)
    (value : Text) :
    ∃ vs, IsValue d ty value vs ∧ lex d (f.literal ty value) = some vs := by
  unfold IsValue Filter.literal
  by_cases hbool : ty = .boolean
  · simp only [if_pos hbool]
    refine ⟨_, rfl, ?_⟩
    rcases boolean_cases value with h | h
    · rw [h]
      cases d <;> rfl
    · rw [h]
      cases d <;> rfl
  · simp only [if_neg hbool]
    by_cases hnum : ty.isNumeric = true
    · simp only [if_pos hnum]
      obtain ⟨ls, hlex, hls⟩ := lex_number (d := d) value
      exact ⟨ls, ⟨hlex, hls⟩, hlex⟩
    · simp only [if_neg hnum, hf.quoter]
      exact ⟨_, rfl, lex_value value⟩

/-- A value changes no depth and joins nothing, whatever it is. -/
private theorem depthWhole_value {ty : DataType} {value : Text}
    {vs : List Lexeme} (h : IsValue d ty value vs) (k : Nat) :
    depthWhole k vs = some k := by
  unfold IsValue at h
  split at h
  · subst h
    rcases boolean_cases value with h | h <;> rw [h] <;> cases k <;> rfl
  · split at h
    · exact depthWhole_of_isNumeric h.2 k
    · subst h
      cases k <;> rfl

-- ============================================================ null tests

/-- A column that comes twice in parentheses, the second time compared with
the empty text: right before a symbol, with no space. -/
theorem lex_orEmpty (hf : Writes f d) (field : Field) {link ending : Text}
    {ls : List Lexeme} {s : Text}
    (hlink : run d (.closed .identifier field.id) link
      = some (.quoted .identifier field.id :: ls, .between))
    (hending : run d (.closed .identifier field.id) ending
      = some ([.quoted .identifier field.id, .symbol s,
          .quoted .literal [], .closing], .between)) :
    lex d ('(' :: f.column field ++ link ++ f.column field ++ ending)
      = some (Lexeme.opening :: (columnLexemes f field ++ ls
          ++ columnLexemes f field
          ++ Lexeme.symbol s :: [Lexeme.quoted .literal []])
        ++ [Lexeme.closing]) := by
  have hopening : run d .between ['('] = some ([.opening], .between) := by
    cases d <;> rfl
  have hrun := run_column hf field
  have hall := run_append (run_append (run_append (run_append hopening
    hrun) hlink) hrun) hending
  apply (lex_of_run hall rfl).trans
  simp [columnLexemes]

/-- A test for a missing value is lexed as its type has it. -/
private theorem lex_nullTest (hf : Writes f d) (field : Field)
    (missing : Bool) :
    lex d (f.nullTest field missing)
      = some (nullLexemes f field missing) := by
  have hcolumn := lex_column hf field
  unfold Filter.nullTest nullLexemes
  dsimp only
  -- A type that quotes its values counts the empty text as missing, but for
  -- the one that has no such text.
  by_cases hplain : field.type = .boolean ∨ field.type.isNumeric
  · simp only [if_pos hplain]
    cases missing with
    | true => exact lex_append_space hcolumn (by cases d <;> rfl)
    | false => exact lex_append_space hcolumn (by cases d <;> rfl)
  simp only [if_neg hplain]
  by_cases huuid : field.type = .uuid
  · simp only [if_pos huuid]
    cases missing with
    | true => exact lex_append_space hcolumn (by cases d <;> rfl)
    | false => exact lex_append_space hcolumn (by cases d <;> rfl)
  simp only [if_neg huuid]
  cases missing with
  | true =>
      apply lex_orEmpty hf field
      · cases d <;> rfl
      · cases d <;> rfl
  | false =>
      apply lex_orEmpty hf field
      · cases d <;> rfl
      · cases d <;> rfl

/-- A test for a missing value is one unit: where it has two parts it stands
in parentheses. -/
private theorem whole_null (hf : Writes f d) (field : Field) (missing : Bool) :
    Whole (nullLexemes f field missing) := by
  have hcolumn := depthWhole_column hf field
  have hlevel := level_of_depthWhole (hcolumn 0)
  unfold nullLexemes
  dsimp only
  split
  · split
    · exact (depthWhole_append (hcolumn 0)).trans rfl
    · exact (depthWhole_append (hcolumn 0)).trans rfl
  · split
    · split
      · exact (depthWhole_append (hcolumn 0)).trans rfl
      · exact (depthWhole_append (hcolumn 0)).trans rfl
    · split
      · apply whole_enclosed
        exact balanced_append (balanced_append
          (balanced_append hlevel rfl) hlevel) rfl
      · apply whole_enclosed
        exact balanced_append (balanced_append
          (balanced_append hlevel rfl) hlevel) rfl

-- =========================================================== comparisons

/-- The comparisons that are written as symbols. -/
theorem lex_symbolic (hf : Writes f d) (field : Field) {op : Operator}
    (hop : lex d op.spelling = some [.symbol op.spelling])
    {value : Text} {vs : List Lexeme}
    (hvs : lex d (f.literal field.type value) = some vs) :
    lex d (f.column field ++ ' ' :: op.spelling
        ++ ' ' :: f.literal field.type value)
      = some (columnLexemes f field ++ .symbol op.spelling :: vs) := by
  have hall := lex_append_space
    (lex_append_space (lex_column hf field) hop) hvs
  simpa using hall

/-- A pattern is compared in lower case, within two pairs of parentheses. -/
private theorem lex_like (hf : Writes f d) (field : Field) (value : Text) :
    lex d (f.comparison field .like value)
      = some (comparisonLexemes f field .like [.quoted .literal value]) := by
  have hlower : run d .between "lower(".toList
      = some ([.word "lower".toList, .opening], .between) := by
    cases d <;> rfl
  have hlike : run d (.closed .identifier field.id) ") like lower(".toList
      = some ([.quoted .identifier field.id, .closing,
          .word "like".toList, .word "lower".toList, .opening],
          .between) := by
    cases d <;> rfl
  have hend : run d (.closed .literal value) [')']
      = some ([.quoted .literal value, .closing], .between) := by
    cases d <;> rfl
  -- Each part goes on in the state that the one before it leaves.
  have hall := run_append (run_append (run_append (run_append hlower
    (run_column hf field)) hlike) (run_value value)) hend
  unfold Filter.comparison
  rw [hf.quoter]
  apply (lex_of_run hall rfl).trans
  simp [comparisonLexemes, columnLexemes]

/-- A comparison by a symbol is one unit. -/
private theorem whole_symbolic (hf : Writes f d) (field : Field) {s : Text}
    {ty : DataType} {value : Text} {vs : List Lexeme}
    (hvs : IsValue d ty value vs) :
    Whole (columnLexemes f field ++ .symbol s :: vs) := by
  unfold Whole
  rw [depthWhole_append (depthWhole_column hf field 0)]
  exact depthWhole_cons_eq_some.2 ⟨rfl, 0, rfl, depthWhole_value hvs 0⟩

/-- A comparison by a pattern is one unit. -/
private theorem whole_like (hf : Writes f d) (field : Field) (value : Text) :
    Whole (comparisonLexemes f field .like [.quoted .literal value]) := by
  have hcolumn := depthWhole_column hf field 1
  have hlower : depthWhole 0 [.word "lower".toList, .opening] = some 1 := by
    rfl
  unfold Whole comparisonLexemes
  dsimp only
  rw [List.append_assoc, List.append_assoc, List.append_assoc,
    depthWhole_append hlower, depthWhole_append hcolumn]
  rfl

/-- No type admits a bind operator. -/
theorem admits_of_isBind {op : Operator} (h : op.isBind = true)
    (ty : DataType) : ty.admits op = false := by
  cases op with
  | and => cases ty <;> rfl
  | or => cases ty <;> rfl
  | _ => cases h

/-- Patterns are for types whose values are quoted. -/
theorem quoted_of_admits_like {ty : DataType} (h : ty.admits .like = true) :
    ty ≠ .boolean ∧ ty.isNumeric = false := by
  revert h
  cases ty <;> decide

/-- The condition of a field is read as its column, its operator and its
value, and it is one unit. -/
theorem lex_fieldPredicate (hf : Writes f d) {op : Operator}
    {value sql : Text} (h : f.fieldPredicate field op value = .ok sql) :
    ∃ vs, IsValue d field.type value vs
      ∧ lex d sql = some (comparisonLexemes f field op vs)
      ∧ Whole (comparisonLexemes f field op vs) := by
  unfold Filter.fieldPredicate at h
  split at h
  case isFalse => cases h
  case isTrue hadmits =>
    obtain rfl := Except.ok.inj h
    obtain ⟨vs, hvs, hlex⟩ := exists_isValue hf field.type value
    refine ⟨vs, hvs, ?_⟩
    -- Six of the operators are written in one way.
    have hsymbol : lex d op.spelling = some [.symbol op.spelling] →
        lex d (f.column field ++ ' ' :: op.spelling
            ++ ' ' :: f.literal field.type value)
          = some (columnLexemes f field ++ .symbol op.spelling :: vs) :=
      fun hop => lex_symbolic hf field hop hlex
    cases op with
    | and =>
        rw [admits_of_isBind rfl] at hadmits
        cases hadmits
    | or =>
        rw [admits_of_isBind rfl] at hadmits
        cases hadmits
    | isNull => exact ⟨lex_nullTest hf field true, whole_null hf field true⟩
    | isNotNull =>
        exact ⟨lex_nullTest hf field false, whole_null hf field false⟩
    | like =>
        obtain ⟨hbool, hnum⟩ := quoted_of_admits_like hadmits
        simp only [IsValue, if_neg hbool, hnum, Bool.false_eq_true,
          if_false] at hvs
        subst hvs
        exact ⟨lex_like hf field value, whole_like hf field value⟩
    | eq | ne | gt | ge | lt | le =>
        exact ⟨hsymbol (by cases d <;> rfl), whole_symbolic hf field hvs⟩

end Sql
end FilterQuery
