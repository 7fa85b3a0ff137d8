/-
A value whose quotes are never closed. In lenient mode it runs to the end of
the query, and what becomes of it differs from what becomes of the same
value in quotes in one point: white space is trimmed off a value before its
marks are taken off, and without a mark behind it the white space at its end
is bare. So the open value is read as the closed one without that white
space (`compileQuery_openedQuery`). Everything else reaches the column's
type as it is: white space at the start, parentheses, operators and other
marks.

Whether the two readings differ depends on the type of the column. Truth
values and numbers are trimmed anyway; all other types quote what they are
given.
-/
import FilterQuery.Proofs.Filter.Quoted

namespace FilterQuery

-- ====================================================== behind an open mark

namespace Text

/-- A value that only starts with a mark loses it, and the white space at
its end. -/
theorem unquote_open {mark : Char} (h : isQuoteMark mark = true) {t : Text}
    (ht : mark ∉ t) : unquote (mark :: t) = trimEnd t := by
  have hmark := isWhiteSpace_of_isQuoteMark h
  have htrim : trim (mark :: t) = mark :: trimEnd t := by
    unfold trim trimStart
    rw [List.dropWhile_cons_of_neg (by simp [hmark]), trimEnd_cons hmark]
  unfold unquote
  rw [htrim]
  simp only [h, if_true]
  exact dropTrailing_of_not_mem fun hmem => ht (mem_of_mem_trimEnd hmem)

/-- A name in marks, an operator with a space on either side of it, and a
value behind a mark that is not closed. -/
def openedQuery (id : Text) (m₁ : Char) (operator : Text) (m₂ : Char)
    (value : Text) : Text :=
  between m₁ id ++ ' ' :: (operator ++ ' ' :: m₂ :: value)

end Text

-- =============================================================== the query

open Grammar Nesting

/-- A literal that is opened behind a space is one more word. -/
theorem Spells.lexed_open {t : Text} {ss : List Symbol}
    (ht : Spells t ss) {quote : Char} {v : Text}
    (hq : isQuoteMark quote = true) (hv : quote ∉ v) :
    ∃ ts opened, Token.lexed 0 (t ++ ' ' :: quote :: v)
        = (ts, some (quote, opened))
      ∧ opened.text = quote :: v ∧ Token.symbols ts = ss := by
  obtain ⟨ts, hts, rfl⟩ := ht
  have hspace : Token.Solitary ' ' := Token.solitary_of_mem (by simp)
  refine ⟨_, _, Token.lexed_join hspace (by decide) hts
    (Token.lexed_open hq hv 0), rfl, ?_⟩
  have hspace : Token.symbols [⟨.delimiter, [' '], t.byteSize⟩] = [] := rfl
  rw [List.map_nil, Token.symbols_append, hspace, List.append_nil]

variable {m₁ m₂ : Char} {operator : Text} {op : Operator} {value : Text}

/-- The open value is the raw text of one node. -/
theorem Node.parse_openedQuery {id : Text} (hid : m₁ ∉ id)
    (hm₁ : isQuoteMark m₁ = true) (hm₂ : isQuoteMark m₂ = true)
    (hoperator : (operator.lower, op) ∈ Operator.spellings)
    (hop : op.isComparison = true) (hn : op.isNullCheck = false)
    (hvalue : m₂ ∉ value) :
    Node.parse .lenient (Text.openedQuery id m₁ operator m₂ value)
      = .ok [.column (Text.between m₁ id), .operator op,
          .value (m₂ :: value)] := by
  have hspells : Spells (Text.between m₁ id ++ ' ' :: operator)
      [.word (Text.between m₁ id), .operator op] :=
    (Spells.word (.quoted hm₁ hid)).space (spells_of_spelling hoperator hn)
  obtain ⟨ts, opened, hlexed, htext, hts⟩ := hspells.lexed_open hm₂ hvalue
  have hlevel : level Token.paren? 0 ts = some 0 := by
    rw [← Token.level_symbols, hts]
    rfl
  have hsplit : Text.openedQuery id m₁ operator m₂ value
      = (Text.between m₁ id ++ ' ' :: operator) ++ ' ' :: m₂ :: value := by
    simp [Text.openedQuery]
  rw [← hsplit] at hlexed
  refine (Node.parseAt_eq_ok_iff hlexed hlevel (Or.inl rfl) _).2 ⟨?_, ?_⟩
  · exact .column rfl (.comparison hop hn (.value (.done rfl)))
  · rw [Token.reading_eq hlexed hlevel, hts]
    simp [flatten, symbols, Token.Opened.symbols, Text.dropClosing, htext]

namespace Filter

variable {f : Filter} {fields : List Field} {field : Field}

/-- The predicate that a field and a value have depends on how the value is
written as a literal, and on nothing else of it. -/
theorem fieldPredicate_eq_iff (hn : op.isNullCheck = false)
    (hadmits : field.type.admits op = true) (value value' : Text) :
    f.fieldPredicate field op value = f.fieldPredicate field op value'
      ↔ f.literal field.type value = f.literal field.type value' := by
  unfold fieldPredicate
  rw [if_pos hadmits, if_pos hadmits, Except.ok.injEq]
  by_cases hlike : op = .like
  · obtain ⟨hboolean, hnumeric⟩ :=
      Sql.quoted_of_admits_like (hlike ▸ hadmits)
    have hliteral : ∀ v, f.literal field.type v = f.quoter.value v := by
      intro v
      rw [literal, if_neg hboolean, if_neg (by simp [hnumeric])]
    rw [hlike, hliteral, hliteral]
    unfold comparison
    rw [List.append_left_inj, List.append_right_inj]
  · rw [comparison_eq_literal hn hlike, comparison_eq_literal hn hlike,
      List.append_right_inj, List.cons.injEq]
    exact and_iff_right rfl

/-- Truth values and numbers are read without the white space around
them. -/
theorem literal_trimEnd_eq_iff (ty : DataType) (value : Text) :
    f.literal ty value.trimEnd = f.literal ty value
      ↔ ty = .boolean ∨ ty.isNumeric = true
        ∨ f.quoter.value value.trimEnd = f.quoter.value value := by
  unfold literal
  by_cases hboolean : ty = .boolean
  · rw [if_pos hboolean, if_pos hboolean, Literal.boolean,
      Text.trim_trimEnd, ← Literal.boolean]
    exact ⟨fun _ => Or.inl hboolean, fun _ => rfl⟩
  rw [if_neg hboolean, if_neg hboolean]
  by_cases hnumeric : ty.isNumeric = true
  · rw [if_pos hnumeric, if_pos hnumeric, Literal.number, Text.trim_trimEnd,
      ← Literal.number]
    exact ⟨fun _ => Or.inr (Or.inl hnumeric), fun _ => rfl⟩
  · rw [if_neg hnumeric, if_neg hnumeric]
    simp [hboolean, hnumeric]

/-- An open value reaches the rule of the column's type without the white
space at its end. -/
theorem compileQuery_openedQuery_eq (hmode : f.mode = .lenient)
    (hf : f.fields = .ofFields fields) (hfirst : field.IsFirst fields)
    (hplain : field.IsPlain) (hm₁ : isQuoteMark m₁ = true)
    (hm₂ : isQuoteMark m₂ = true)
    (hoperator : (operator.lower, op) ∈ Operator.spellings)
    (hop : op.isComparison = true) (hn : op.isNullCheck = false)
    (hvalue : m₂ ∉ value) :
    f.compileQuery (Text.openedQuery field.id m₁ operator m₂ value)
      = f.fieldPredicate field op value.trimEnd := by
  have hid := hplain.not_mem hm₁
  have hparse := Node.parse_openedQuery hid hm₁ hm₂ hoperator hop hn hvalue
  rw [← hmode] at hparse
  rw [compileQuery_of_parse hparse, compile_leaf hop hn,
    term_of_key hf hfirst hplain (hplain.key_between hm₁)]
  exact congrArg _ (Text.unquote_open hm₂ hvalue)

/-- A value that is left open is compiled as the value in quotes without
the white space at its end. To the value in quotes as it stands it is
compiled just where that makes no difference: where the type does not admit
the operator, reads truth values or numbers, or the value has no white space
at its end that the quoter would keep. -/
theorem compileQuery_openedQuery (hmode : f.mode = .lenient)
    (hf : f.fields = .ofFields fields) (hfirst : field.IsFirst fields)
    (hplain : field.IsPlain) (hm₁ : isQuoteMark m₁ = true)
    (hm₂ : isQuoteMark m₂ = true)
    (hoperator : (operator.lower, op) ∈ Operator.spellings)
    (hop : op.isComparison = true) (hn : op.isNullCheck = false)
    (hvalue : m₂ ∉ value) :
    let opened :=
      f.compileQuery (Text.openedQuery field.id m₁ operator m₂ value)
    let closed value :=
      f.compileQuery (Text.quotedQuery field.id m₁ operator m₂ value)
    opened = closed value.trimEnd
      ∧ (opened = closed value
          ↔ field.type.admits op = false ∨ field.type = .boolean
            ∨ field.type.isNumeric = true
            ∨ f.quoter.value value.trimEnd = f.quoter.value value)
      ∧ ∀ d : Dialect, f.quoter = d.quoter →
        (opened = closed value
          ↔ field.type.admits op = false ∨ field.type = .boolean
            ∨ field.type.isNumeric = true ∨ value.trimEnd = value) := by
  intro opened closed
  have hopened : opened = f.fieldPredicate field op value.trimEnd :=
    compileQuery_openedQuery_eq hmode hf hfirst hplain hm₁ hm₂ hoperator hop
      hn hvalue
  have hclosed : ∀ {v : Text}, m₂ ∉ v →
      closed v = f.fieldPredicate field op v :=
    compileQuery_quotedQuery hf hfirst hplain hm₁ hm₂ hoperator hop hn
  -- What is trimmed can be closed by the mark too.
  have htrimmed : m₂ ∉ value.trimEnd := fun hmem =>
    hvalue (Text.mem_of_mem_trimEnd hmem)
  have hsame : opened = closed value
      ↔ field.type.admits op = false ∨ field.type = .boolean
        ∨ field.type.isNumeric = true
        ∨ f.quoter.value value.trimEnd = f.quoter.value value := by
    rw [hopened, hclosed hvalue]
    cases hadmits : field.type.admits op with
    | false => simp [fieldPredicate, hadmits]
    | true =>
        rw [fieldPredicate_eq_iff hn hadmits, literal_trimEnd_eq_iff]
        simp
  refine ⟨hopened.trans (hclosed htrimmed).symm, hsame, fun d hd => ?_⟩
  rw [hsame, hd, Sql.value_injective.eq_iff]

/-- White space at both ends of an open value, and a parenthesis and another
mark in it: what is before them is kept, and a number is read as it would be
in quotes. -/
theorem compileQuery_openedQuery_blanks :
    let name : Field := ⟨"name".toList, .varchar, false⟩
    let age : Field := ⟨"age".toList, .integer, false⟩
    let f : Filter :=
      { fields := .ofFields [name, age], quoter := Dialect.ansi.quoter,
        mode := .lenient }
    Text.openedQuery name.id '´' "Like".toList '"' " x') \t".toList
        = "´name´ Like \" x') \t".toList
      ∧ f.compileQuery "´name´ Like \" x') \t".toList
        = .ok "lower(\"name\") like lower(' x'')')".toList
      ∧ f.compileQuery "´name´ Like \" x') \t".toList
        ≠ f.compileQuery "´name´ Like \" x') \t\"".toList
      ∧ f.compileQuery "\"age\" > '7 ".toList
        = f.compileQuery "\"age\" > '7 '".toList := by
  intro name age f
  have hname : name.IsFirst [name, age] := ⟨[], [age], rfl, by simp⟩
  have hage : age.IsFirst [name, age] := ⟨[name], [], rfl, by decide⟩
  have hplain : name.IsPlain ∧ age.IsPlain := by decide
  obtain ⟨hclosed, -, hsame⟩ := @compileQuery_openedQuery '´' '"'
    "Like".toList .like " x') \t".toList f [name, age] name rfl rfl hname
    hplain.1 rfl rfl (by decide) rfl rfl (by decide)
  obtain ⟨-, hnumber, -⟩ := @compileQuery_openedQuery '"' '\''
    ">".toList .gt "7 ".toList f [name, age] age rfl rfl hage hplain.2 rfl
    rfl (by decide) rfl rfl (by decide)
  have hquoted := @compileQuery_quotedQuery '´' '"' "Like".toList .like
    " x')".toList f [name, age] name rfl hname hplain.1 rfl rfl (by decide)
    rfl rfl (by decide)
  have hnumber := hnumber.2 (Or.inr (Or.inr (Or.inl rfl)))
  have hsame := (hsame .ansi rfl).1
  have hquery : Text.openedQuery name.id '´' "Like".toList '"'
      " x') \t".toList = "´name´ Like \" x') \t".toList := rfl
  have htrim : Text.trimEnd " x') \t".toList = " x')".toList := rfl
  have hpredicate : f.fieldPredicate name .like " x')".toList
      = .ok "lower(\"name\") like lower(' x'')')".toList := rfl
  rw [hquery] at hclosed hsame
  rw [htrim] at hclosed
  refine ⟨hquery, ?_, fun heq => ?_, hnumber⟩
  · exact (hclosed.trans hquoted).trans hpredicate
  · have hblank := hsame heq
    revert hblank
    decide

end Filter
end FilterQuery
