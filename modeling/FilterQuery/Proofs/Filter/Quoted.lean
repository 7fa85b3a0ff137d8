/-
Names and values in quotes. Whatever stands between two equal marks, if it
is not that mark, reaches the rule of the column's type as it is: operators
and parentheses in it are not read, white space at its ends is not trimmed,
and it may be empty. The same holds of the id of a column, as far as an id
can be named at all.

So a query of one quoted name, an operator in any letter case and one
quoted value is compiled in both modes to what the type makes of exactly
that value, or refused because the type does not admit the operator
(`compileQuery_quoted`).
-/
import FilterQuery.Proofs.Filter.Faults
import FilterQuery.Proofs.Grammar.Rendering
import FilterQuery.Proofs.Sql.Conditions

namespace FilterQuery

-- ======================================================== taking marks off

namespace Text

/-- The text between two marks, as it is. -/
def between (mark : Char) (t : Text) : Text := mark :: (t ++ [mark])

/-- Marks are no white space, so they keep what is between them. -/
theorem trim_between {mark : Char} (h : isQuoteMark mark = true) (t : Text) :
    (between mark t).trim = between mark t := by
  have hmark := isWhiteSpace_of_isQuoteMark h
  unfold trim trimStart between
  rw [List.dropWhile_cons_of_neg (by simp [hmark])]
  exact trimEnd_concat hmark (mark :: t)

/-- A value loses its marks, and nothing else. -/
theorem unquote_between {mark : Char} (h : isQuoteMark mark = true)
    (t : Text) : (between mark t).unquote = t := by
  unfold unquote
  rw [trim_between h, between]
  simp only [h, if_true]
  exact dropTrailing_append_singleton ..

end Text

/-- An id in marks is a name of its field. -/
theorem Field.IsPlain.key_between {field : Field} (h : field.IsPlain)
    {mark : Char} (hmark : isQuoteMark mark = true) :
    Filter.key (Text.between mark field.id) = field.id := by
  have hmarks : (Text.between mark field.id).withoutQuoteMarks
      = field.id.withoutQuoteMarks := by
    simp [Text.withoutQuoteMarks, Text.between, hmark]
  unfold Filter.key
  rw [hmarks]
  exact h.key_eq

-- =============================================================== the query

open Grammar

/-- A name in marks, an operator with a space on either side of it, and a
value in marks. -/
def Text.quotedQuery (id : Text) (m₁ : Char) (operator : Text) (m₂ : Char)
    (value : Text) : Text :=
  Text.between m₁ id ++ ' ' :: (operator ++ ' ' :: Text.between m₂ value)

variable {m₁ m₂ : Char} {operator : Text} {op : Operator} {value : Text}

/-- Neither mode looks into quotes. -/
theorem Node.parse_quotedQuery {id : Text} (hid : m₁ ∉ id)
    (hm₁ : isQuoteMark m₁ = true) (hm₂ : isQuoteMark m₂ = true)
    (hoperator : (operator.lower, op) ∈ Operator.spellings)
    (hop : op.isComparison = true) (hn : op.isNullCheck = false)
    (hvalue : m₂ ∉ value) (mode : Mode) :
    Node.parse mode (Text.quotedQuery id m₁ operator m₂ value)
      = .ok [.column (Text.between m₁ id), .operator op,
          .value (Text.between m₂ value)] := by
  have hspells : Spells (Text.quotedQuery id m₁ operator m₂ value)
      [.word (Text.between m₁ id), .operator op,
        .word (Text.between m₂ value)] :=
    (Spells.word (.quoted hm₁ hid)).space
      ((spells_of_spelling hoperator hn).space
        (Spells.word (.quoted hm₂ hvalue)))
  have hfits : Fits .start [.column (Text.between m₁ id), .operator op,
      .value (Text.between m₂ value)] :=
    .column rfl (.comparison hop hn (.value (.done rfl)))
  exact Node.parse_of_strict
    (Node.parse_strict_iff_spells.2 ⟨hfits, hspells⟩) mode

namespace Filter

variable {f : Filter} {fields : List Field} {field : Field}

private theorem join_singleton (b : Option Operator) (sql : Text) :
    join [⟨b, sql⟩] = sql := by
  cases sql with
  | nil => rfl
  | cons c sql => simp [join, Fragment.condition]

/-- One leaf by itself is compiled to its predicate. -/
theorem compile_leaf (hop : op.isComparison = true)
    (hn : op.isNullCheck = false) (name raw : Text) :
    f.compile [.column name, .operator op, .value raw]
      = f.term name op (some raw) := by
  show f.compileFrom ⟨.term none, []⟩ _ = _
  rw [compileFrom_value none [] [] hop hn]
  cases f.term name op (some raw) with
  | error e => rfl
  | ok sql => exact congrArg Except.ok (join_singleton none sql)

/-- Neither the marks nor anything between them has a part in what becomes
of the value. -/
theorem compileQuery_quotedQuery (hf : f.fields = .ofFields fields)
    (hfirst : field.IsFirst fields) (hplain : field.IsPlain)
    (hm₁ : isQuoteMark m₁ = true) (hm₂ : isQuoteMark m₂ = true)
    (hoperator : (operator.lower, op) ∈ Operator.spellings)
    (hop : op.isComparison = true) (hn : op.isNullCheck = false)
    (hvalue : m₂ ∉ value) :
    f.compileQuery (Text.quotedQuery field.id m₁ operator m₂ value)
      = f.fieldPredicate field op value := by
  have hid := hplain.not_mem hm₁
  rw [compileQuery_of_parse (Node.parse_quotedQuery hid hm₁ hm₂ hoperator
      hop hn hvalue f.mode), compile_leaf hop hn,
    term_of_key hf hfirst hplain (hplain.key_between hm₁)]
  exact congrArg _ (Text.unquote_between hm₂ value)

-- ================================================================ the rules

/-- A value on the right is a literal of the column's type. -/
theorem comparison_eq_literal (hn : op.isNullCheck = false)
    (hlike : op ≠ .like) (field : Field) (value : Text) :
    f.comparison field op value
      = f.column field ++ ' ' :: op.spelling
        ++ ' ' :: f.literal field.type value := by
  cases op with
  | isNull => cases hn
  | isNotNull => cases hn
  | like => exact absurd rfl hlike
  | _ => rfl

/-- A value in quotes, compared with a field whose id is in quotes, reaches
the rule of the field's type unchanged, in either mode. Where the type does
not admit the operator, that is the error. -/
theorem compileQuery_quoted (hf : f.fields = .ofFields fields)
    (hfirst : field.IsFirst fields) (hplain : field.IsPlain)
    (hm₁ : isQuoteMark m₁ = true) (hm₂ : isQuoteMark m₂ = true)
    (hoperator : (operator.lower, op) ∈ Operator.spellings)
    (hop : op.isComparison = true) (hn : op.isNullCheck = false)
    (hvalue : m₂ ∉ value) :
    let result :=
      f.compileQuery (Text.quotedQuery field.id m₁ operator m₂ value)
    let column := f.column field
    (field.type.admits op = false →
        result = .error (.invalidOperator op field.id field.type))
      ∧ (field.type.admits op = true →
        (field.type = .boolean →
            result = .ok (column ++ ' ' :: op.spelling
              ++ ' ' :: Literal.boolean value))
          ∧ (field.type.isNumeric = true →
            result = .ok (column ++ ' ' :: op.spelling
              ++ ' ' :: Literal.number value))
          ∧ (field.type ≠ .boolean → field.type.isNumeric = false →
            (op ≠ .like →
                result = .ok (column ++ ' ' :: op.spelling
                  ++ ' ' :: f.quoter.value value))
              ∧ (op = .like →
                result = .ok ("lower(".toList ++ column
                  ++ ") like lower(".toList ++ f.quoter.value value
                  ++ [')'])))) := by
  intro result column
  have hresult : result = f.fieldPredicate field op value :=
    compileQuery_quotedQuery hf hfirst hplain hm₁ hm₂ hoperator hop hn hvalue
  rw [hresult]
  unfold fieldPredicate
  constructor
  · intro hadmits
    rw [if_neg (by simp [hadmits])]
  · intro hadmits
    rw [if_pos hadmits]
    refine ⟨fun hty => ?_, fun hty => ?_, fun hboolean hnumeric =>
      ⟨fun hlike => ?_, fun hlike => ?_⟩⟩
    · -- Types whose values are not quoted admit no patterns.
      have hlike : op ≠ .like := by
        rintro rfl
        exact (Sql.quoted_of_admits_like hadmits).1 hty
      rw [comparison_eq_literal hn hlike, literal, if_pos hty]
    · have hlike : op ≠ .like := by
        rintro rfl
        exact absurd hty (by simp [Sql.quoted_of_admits_like hadmits])
      have hboolean : field.type ≠ .boolean := by
        intro hboolean
        rw [hboolean] at hty
        cases hty
      rw [comparison_eq_literal hn hlike, literal, if_neg hboolean,
        if_pos hty]
    · rw [comparison_eq_literal hn hlike, literal, if_neg hboolean,
        if_neg (by simp [hnumeric])]
    · subst hlike
      rfl

/-- An operator, a parenthesis and another mark in the id, and a value with
white space at both ends, a mark, a line feed and a bind operator in it. -/
theorem compileQuery_quoted_hostile :
    let field : Field := ⟨"a AND (b".toList, .varchar, false⟩
    let value : Text := " x') OR\n(\" ".toList
    let query := Text.quotedQuery field.id '´' "LiKe".toList '\x60' value
    let f (mode : Mode) : Filter :=
      { fields := .ofFields [field], quoter := Dialect.ansi.quoter, mode }
    query = "´a AND (b´ LiKe \x60 x') OR\n(\" \x60".toList
      ∧ '\x60' ∉ value
      ∧ ∀ mode, (f mode).compileQuery query
        = .ok "lower(\"a AND (b\") like lower(' x'') OR\n(\" ')".toList := by
  intro field value query f
  have hplain : field.IsPlain := by decide
  have hfirst : field.IsFirst [field] := ⟨[], [], rfl, by simp⟩
  refine ⟨rfl, by decide, fun mode => ?_⟩
  obtain ⟨-, hadmitted⟩ := @compileQuery_quoted '´' '\x60' "LiKe".toList .like
    value (f mode) [field] field rfl hfirst hplain rfl rfl (by decide) rfl
    rfl (by decide)
  exact ((hadmitted rfl).2.2 (by decide) rfl).2 rfl

end Filter
end FilterQuery
