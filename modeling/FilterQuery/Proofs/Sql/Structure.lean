/-
No query can change the structure of its condition. Whatever the fields
are called and whatever a query holds, its condition is lexed to the end,
its parentheses balance, and cutting it at the bind words outside
parentheses gives back the terms of the query, in order, each with its own
bind operator (`compile_decomposes`). A group is one unit in parentheses,
and what is inside them decomposes in the same way; a comparison is the
column of its field, its operator and its value; and a term that asks for
nothing is the condition that is never met.

The cut is made on the text alone. So that the units it finds are the
terms, each condition must be whole: no unit may hold a bind word outside
parentheses, end a literal early or close a parenthesis that is not its
own. That is the invariant, and `unit_of_termText` is its one step.
-/
import FilterQuery.Proofs.Filter.Terms
import FilterQuery.Proofs.Sql.Conditions

namespace FilterQuery

open FilterQuery.Filter Nesting

namespace Sql

-- ============================================================= the reading

/-- The lexemes of the condition that is never met. -/
def noMatchLexemes : List Lexeme :=
  [.opening, .word ['1'], .symbol ['='], .word ['0'], .closing]

/-- The unit of a field that is compared with a value. -/
inductive FieldUnit (f : Filter) (d : Dialect) (op : Operator)
    (value : Text) (field : Field) : List Lexeme → Prop where
  | mk {vs : List Lexeme} (h : IsValue d field.type value vs) :
      FieldUnit f d op value field (comparisonLexemes f field op vs)

/-- The unit of a column reference that is compared with a value. The
wildcard is all searchable fields in parentheses, or the condition that is
never met where there are none. -/
inductive LeafUnit (f : Filter) (d : Dialect) (name : Text) (op : Operator)
    (value : Text) : List Lexeme → Prop where
  | field {field : Field} {u : List Lexeme} (hkey : key name ≠ ['*'])
      (hfield : f.fields.find? (key name) = some field)
      (hu : FieldUnit f d op value field u) : LeafUnit f d name op value u
  | wildcard {u : List Lexeme} {us : List (List Lexeme)}
      (hkey : key name = ['*'])
      (hus : List.Forall₂ (FieldUnit f d op value) f.fields.searchable
        (u :: us)) :
      LeafUnit f d name op value
        (.opening :: (u ++ us.flatMap (.word "OR".toList :: ·))
          ++ [.closing])
  | noMatch (hkey : key name = ['*']) (hnone : f.fields.searchable = []) :
      LeafUnit f d name op value noMatchLexemes

mutual

/-- Lexemes that, cut at the bind words outside parentheses, are the terms
of a list of nodes. -/
inductive Decomposes (f : Filter) (d : Dialect) :
    List Node → List Lexeme → Prop where
  | mk {t ns : List Node} {u ls : List Lexeme}
      {us : List (Operator × List Lexeme)} (hcut : cut 0 ls = (u, us))
      (hu : TermUnit f d t u) (hus : FurtherUnits f d ns us) :
      Decomposes f d (t ++ ns) ls

/-- The units behind the first one, each with the bind operator of its
term. -/
inductive FurtherUnits (f : Filter) (d : Dialect) :
    List Node → List (Operator × List Lexeme) → Prop where
  | nil : FurtherUnits f d [] []
  | cons {op : Operator} {t ns : List Node} {u : List Lexeme}
      {us : List (Operator × List Lexeme)} (hop : op.isBind = true)
      (hu : TermUnit f d t u) (hus : FurtherUnits f d ns us) :
      FurtherUnits f d (.operator op :: (t ++ ns)) ((op, u) :: us)

/-- The unit of one term. -/
inductive TermUnit (f : Filter) (d : Dialect) :
    List Node → List Lexeme → Prop where
  | nullCheck {name : Text} {op : Operator} {u : List Lexeme}
      (hop : op.isNullCheck = true) (hu : LeafUnit f d name op [] u) :
      TermUnit f d [.column name, .operator op] u
  | comparison {name raw : Text} {op : Operator} {u : List Lexeme}
      (hop : op.isComparison = true) (hn : op.isNullCheck = false)
      (hu : LeafUnit f d name op raw.unquote u) :
      TermUnit f d [.column name, .operator op, .value raw] u
  | group {children : List Node} {sql : Text} {ls : List Lexeme}
      (hsql : f.compile children = .ok sql) (hne : sql ≠ [])
      (hlex : lex d sql = some ls) (hls : Decomposes f d children ls) :
      TermUnit f d [.group children] (.opening :: ls ++ [.closing])
  | emptyGroup {children : List Node} (h : f.compile children = .ok []) :
      TermUnit f d [.group children] noMatchLexemes

end

variable {f : Filter} {d : Dialect}

-- ================================================================== leaves

/-- Lexemes joined by a word that binds are balanced if they all are. -/
theorem balanced_flatMap_word {w : Text} {us : List (List Lexeme)}
    (h : ∀ u ∈ us, Nesting.Balanced Lexeme.paren? u) :
    Nesting.Balanced Lexeme.paren? (us.flatMap (.word w :: ·)) := by
  induction us with
  | nil => rfl
  | cons u us ih =>
      rw [List.flatMap_cons]
      exact balanced_append (h u (List.mem_cons_self ..))
        (ih fun v hv => h v (List.mem_cons_of_mem _ hv))

private theorem lex_join {parts : List Text} {us : List (List Lexeme)}
    {part : Text} {u : List Lexeme} (hpart : lex d part = some u)
    (hparts : List.Forall₂ (fun t u => lex d t = some u) parts us) :
    lex d (Text.join " OR ".toList (part :: parts))
      = some (u ++ us.flatMap (.word "OR".toList :: ·)) := by
  have hor : lex d "OR".toList = some [.word "OR".toList] := by
    cases d <;> rfl
  unfold Text.join
  induction hparts generalizing part u with
  | nil => simpa using hpart
  | @cons t v ts vs ht hts ih =>
      have hrest := lex_append_word hpart hor (ih ht)
      simpa using hrest

/-- The predicates of several fields. -/
theorem lex_fieldPredicates (hf : Writes f d) {op : Operator}
    {value : Text} {fields : List Field} {parts : List Text}
    (h : fields.mapM (f.fieldPredicate · op value) = .ok parts) :
    ∃ us, List.Forall₂ (FieldUnit f d op value) fields us
      ∧ List.Forall₂ (fun t u => lex d t = some u) parts us
      ∧ ∀ u ∈ us, Whole u := by
  induction fields generalizing parts with
  | nil =>
      obtain rfl : [] = parts := Except.ok.inj h
      exact ⟨[], .nil, .nil, fun u hu => absurd hu List.not_mem_nil⟩
  | cons field fields ih =>
      obtain ⟨sql, rest, hsql, hrest, rfl⟩ := mapM_cons_eq_ok_iff.1 h
      obtain ⟨us, hunits, hlex, hwhole⟩ := ih hrest
      obtain ⟨vs, hvs, hpart, hpartWhole⟩ := lex_fieldPredicate hf hsql
      refine ⟨_, .cons (.mk hvs) hunits, .cons hpart hlex, ?_⟩
      exact List.forall_mem_cons.2 ⟨hpartWhole, hwhole⟩

private theorem lex_noMatch : lex d noMatch = some noMatchLexemes := by
  cases d <;> rfl

private theorem whole_noMatch : Whole noMatchLexemes := rfl

theorem condition_of_ne_nil {b : Option Operator} {sql : Text}
    (h : sql ≠ []) : Fragment.condition ⟨b, sql⟩ = sql := by
  cases sql with
  | nil => exact absurd rfl h
  | cons c sql => rfl

/-- A text that has lexemes is not empty. -/
theorem ne_nil_of_lex {t : Text} {l : Lexeme} {ls : List Lexeme}
    (h : lex d t = some (l :: ls)) : t ≠ [] := by
  intro heq
  subst heq
  cases h

private theorem comparisonLexemes_ne_nil (f : Filter) (field : Field)
    (op : Operator) (vs : List Lexeme) :
    comparisonLexemes f field op vs ≠ [] := by
  have hcolumn : columnLexemes f field ≠ [] := by
    simp [columnLexemes]
  have hnull : ∀ missing, nullLexemes f field missing ≠ [] := by
    intro missing
    unfold nullLexemes
    dsimp only
    split
    · split <;> simp [hcolumn]
    · split <;> split <;> simp [hcolumn]
  cases op <;> simp [comparisonLexemes, hnull]

/-- The condition of a column reference is its unit; an empty one stands
for the condition that is never met. -/
theorem lex_term (hf : Writes f d) {name : Text} {op : Operator}
    {value : Option Text} {sql : Text} (h : f.term name op value = .ok sql)
    (b : Option Operator) :
    ∃ u, lex d (Fragment.condition ⟨b, sql⟩) = some u ∧ Whole u
      ∧ LeafUnit f d name op ((value.map Text.unquote).getD []) u := by
  unfold Filter.term at h
  dsimp only at h
  -- The wildcard is a unit of its own, and any other name is that of a field.
  split at h
  case isTrue hkey =>
    obtain ⟨parts, hparts, hsql⟩ := bind_eq_ok_iff.1 h
    obtain ⟨us, hunits, hlex, hwhole⟩ := lex_fieldPredicates hf hparts
    cases hlex with
    | nil =>
        obtain rfl := Except.ok.inj hsql
        generalize hfields : f.fields.searchable = fields at hunits
        cases hunits
        exact ⟨_, lex_noMatch, whole_noMatch, .noMatch hkey hfields⟩
    | @cons t u ts us ht hts =>
        obtain rfl := Except.ok.inj hsql
        rw [condition_of_ne_nil (by simp)]
        refine ⟨_, lex_enclosed (lex_join ht hts), ?_,
          .wildcard hkey hunits⟩
        have hall : ∀ v ∈ u :: us, Nesting.Balanced Lexeme.paren? v :=
          fun v hv => level_of_depthWhole (hwhole v hv)
        obtain ⟨hu, hus⟩ := List.forall_mem_cons.1 hall
        exact whole_enclosed
          (balanced_append hu (balanced_flatMap_word hus))
  case isFalse hkey =>
    cases hfield : f.fields.find? (key name) with
    | none => simp [hfield] at h
    | some field =>
        rw [hfield] at h
        obtain ⟨vs, hvs, hlex, hwhole⟩ := lex_fieldPredicate hf h
        obtain ⟨l, ls, hls⟩ := List.exists_cons_of_ne_nil
          (comparisonLexemes_ne_nil f field op vs)
        have hne : sql ≠ [] := ne_nil_of_lex (hls ▸ hlex)
        rw [condition_of_ne_nil hne]
        exact ⟨_, hlex, hwhole, .field hkey hfield (.mk hvs)⟩

-- =================================================================== terms

/-- Nodes of which every condition that is not empty decomposes. -/
def Sound (f : Filter) (d : Dialect) (ns : List Node) : Prop :=
  ∀ sql, f.compile ns = .ok sql → sql ≠ [] →
    ∃ ls, lex d sql = some ls ∧ Nesting.Balanced Lexeme.paren? ls
      ∧ Decomposes f d ns ls

/-- The condition of a term is its unit, if the contents of groups are
sound. -/
theorem unit_of_termText (hf : Writes f d) {t : List Node} {sql : Text}
    (h : TermText f t sql)
    (hgroups : ∀ children, .group children ∈ t → Sound f d children)
    (b : Option Operator) :
    ∃ u, lex d (Fragment.condition ⟨b, sql⟩) = some u ∧ Whole u
      ∧ TermUnit f d t u := by
  cases h with
  | nullCheck hop h =>
      obtain ⟨u, hlex, hwhole, hu⟩ := lex_term hf h b
      exact ⟨u, hlex, hwhole, .nullCheck hop hu⟩
  | comparison hop hn h =>
      obtain ⟨u, hlex, hwhole, hu⟩ := lex_term hf h b
      exact ⟨u, hlex, hwhole, .comparison hop hn hu⟩
  | @group children inner h =>
      cases inner with
      | nil => exact ⟨_, lex_noMatch, whole_noMatch, .emptyGroup h⟩
      | cons c inner =>
          obtain ⟨ls, hlex, hbalanced, hls⟩ :=
            hgroups children (List.mem_singleton.2 rfl) _ h
              (List.cons_ne_nil c inner)
          exact ⟨_, lex_enclosed hlex, whole_enclosed hbalanced,
            .group h (List.cons_ne_nil c inner) hlex hls⟩

/-- All fragments written one after another. -/
def written (p : Fragment) (ps : List Fragment) : Text :=
  p.condition ++ ps.flatMap Fragment.continuation

theorem written_cons {b : Option Operator} {op : Operator} {sql sql' : Text}
    {ps : List Fragment} :
    written ⟨b, sql⟩ (⟨some op, sql'⟩ :: ps)
      = Fragment.condition ⟨b, sql⟩
        ++ (' ' :: op.spelling ++ ' ' :: written ⟨some op, sql'⟩ ps) := by
  unfold written
  rw [List.flatMap_cons]
  simp [Fragment.continuation, Fragment.condition]

private theorem lex_bind {op : Operator} (h : op.isBind = true) :
    lex d op.spelling = some [.word op.spelling]
      ∧ bindOf op.spelling = some op := by
  cases op with
  | and => exact ⟨by cases d <;> rfl, by decide⟩
  | or => exact ⟨by cases d <;> rfl, by decide⟩
  | _ => cases h

/-- Terms are written as their units, in order, with the bind operator of
each between them. -/
theorem decomposes_of_terms (hf : Writes f d) {b : Option Operator}
    {ns : List Node} {fs : List Fragment} (h : Terms f b ns fs)
    (hgroups : ∀ children, .group children ∈ ns → Sound f d children) :
    ∃ sql ps, fs = ⟨b, sql⟩ :: ps ∧ ∃ ls,
      lex d (written ⟨b, sql⟩ ps) = some ls
        ∧ Nesting.Balanced Lexeme.paren? ls ∧ Decomposes f d ns ls := by
  induction h with
  | @last b t sql ht =>
      obtain ⟨u, hlex, hwhole, hu⟩ := unit_of_termText hf ht hgroups b
      refine ⟨sql, [], rfl, u, ?_, level_of_depthWhole hwhole, ?_⟩
      · simpa [written] using hlex
      · simpa using Decomposes.mk (cut_whole hwhole) hu .nil
  | @more b t ns sql op fs ht hop hns ih =>
      obtain ⟨u, hlex, hwhole, hu⟩ := unit_of_termText hf ht
        (fun children hc => hgroups children (List.mem_append_left _ hc)) b
      obtain ⟨sql', ps, rfl, ls, hls, hbalanced, hrest⟩ := ih
        fun children hc => hgroups children
          (List.mem_append_right _ (List.mem_cons_of_mem _ hc))
      obtain ⟨hword, hbind⟩ := lex_bind (d := d) hop
      refine ⟨sql, _, rfl, u ++ .word op.spelling :: ls, ?_, ?_, ?_⟩
      · rw [written_cons]
        exact lex_append_word hlex hword hls
      · exact balanced_append (level_of_depthWhole hwhole) hbalanced
      · cases hrest with
        | mk hcut hu' hus =>
            have hall := cut_whole_append hwhole hbind ls
            rw [hcut] at hall
            exact .mk hall hu (.cons hop hu' hus)

theorem join_eq_written {p : Fragment} {ps : List Fragment}
    (h : join (p :: ps) ≠ []) : join (p :: ps) = written p ps := by
  by_cases hall : (p :: ps).all (·.sql.isEmpty) = true
  · exact absurd (if_pos hall) h
  · exact if_neg hall

/-- Induction on the size of the nodes: the contents of a group are
smaller. -/
theorem sound (hf : Writes f d) (ns : List Node) : Sound f d ns := by
  intro sql hsql hne
  rcases compile_eq_ok_iff.1 hsql with ⟨-, rfl⟩ | ⟨fs, hterms, rfl⟩
  · exact absurd rfl hne
  · have hgroups : ∀ children, .group children ∈ ns →
        Sound f d children := by
      intro children hc
      have hlt := List.sizeOf_lt_of_mem hc
      exact sound hf children
    obtain ⟨sql, ps, rfl, ls, hlex, hls⟩ :=
      decomposes_of_terms hf hterms hgroups
    rw [join_eq_written hne]
    exact ⟨ls, hlex, hls⟩
termination_by sizeOf ns
decreasing_by
  rw [Node.group.sizeOf_spec] at hlt
  omega

/-- Whatever is compiled is read as what was compiled: all of it is
lexemes of the dialect, its parentheses balance, and its units are the
terms of the query, each behind its own bind operator, down to the last
group. -/
theorem compile_decomposes (fields : Resolver) (d : Dialect)
    (qualifier : Option Text) (mode : Mode)
    (hqualifier : ∀ name ∈ qualifier, isPlainName name = true)
    {ns : List Node} {sql : Text}
    (h : Filter.compile ⟨fields, d.quoter, qualifier, mode⟩ ns = .ok sql)
    (hne : sql ≠ []) :
    ∃ ls, lex d sql = some ls ∧ Nesting.Balanced Lexeme.paren? ls
      ∧ Decomposes ⟨fields, d.quoter, qualifier, mode⟩ d ns ls :=
  sound ⟨rfl, hqualifier⟩ ns sql h hne

/-- A field whose id ends an identifier and a value that ends a literal,
neither of which gets out. -/
theorem compile_decomposes_hostile :
    let fields : Resolver := .ofFields [⟨"a\" OR \"b".toList, .text, true⟩]
    let nodes : List Node :=
      [.column ['*'], .operator .eq, .value "x') OR ('1'='1".toList]
    let sql : Text := "(t.\"a\"\" OR \"\"b\" = 'x'') OR (''1''=''1')".toList
    isPlainName ['t'] = true
      ∧ Filter.compile ⟨fields, Dialect.ansi.quoter, some ['t'], .strict⟩
          nodes = .ok sql
      ∧ ∃ ls, lex .ansi sql = some ls ∧ Nesting.Balanced Lexeme.paren? ls
        ∧ Decomposes ⟨fields, Dialect.ansi.quoter, some ['t'], .strict⟩
            .ansi nodes ls := by
  intro fields nodes sql
  have hname : isPlainName ['t'] = true := by decide
  have hcompile : Filter.compile
      ⟨fields, Dialect.ansi.quoter, some ['t'], .strict⟩ nodes
        = .ok sql := by rfl
  refine ⟨hname, hcompile, ?_⟩
  exact compile_decomposes fields .ansi (some ['t']) .strict
    (by simpa using hname) hcompile (by decide)

end Sql
end FilterQuery
