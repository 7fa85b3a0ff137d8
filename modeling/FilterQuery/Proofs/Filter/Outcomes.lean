/-
What compiling a query comes to. A strict query passes through three
layers, and the first that has something against it speaks for all of it:
the tokenizer about the whole text before any of it is read, the parser
about the whole text before any name is looked up, and the compiler about
the first leaf that fails. So a name that nobody knows is not heard of
while a parenthesis is missing behind it (`compileQuery_strict_cases`).

Lenient mode only ever changes what the tokenizer does, and only where it
would refuse the text. A query that strict mode cuts into tokens comes to
the same in both modes, and in lenient mode none is refused by the
tokenizer, nor by the one that works inside groups (`modes_agree`).
-/
import FilterQuery.Proofs.Filter.Columns
import FilterQuery.Proofs.Grammar.Outcomes

namespace FilterQuery
namespace Filter

open Grammar

variable {f g : Filter}

-- ================================================================ the modes

/-- Two filters that make the same of every term. -/
def SameTerms (f g : Filter) : Prop :=
  ∀ name op value, f.term name op value = g.term name op value

/-- What nodes are compiled into depends on the terms alone. -/
theorem compile_congr (h : SameTerms f g) (ns : List Node) :
    f.compile ns = g.compile ns :=
  compile_congr_of_columns fun name _ => h name

/-- How queries are read has no part in compiling their nodes. -/
theorem compile_mode (m : Mode) (ns : List Node) :
    { f with mode := m }.compile ns = f.compile ns := by
  have hterms : SameTerms { f with mode := m } f := fun _ _ _ => rfl
  exact compile_congr hterms ns

/-- Nodes that come from a query are refused for a name or a type. -/
theorem isSemantic_of_compile {ns : List Node} {e : QueryError}
    (hns : Fits .start ns) (h : f.compile ns = .error e) :
    e.isSemantic = true := by
  rw [← refusal_eq_some_iff, refusal_compile hns] at h
  obtain ⟨l, -, hl⟩ := List.exists_of_findSome?_eq_some h
  exact (Leaf.fault?_eq_some_iff.1 hl).isSemantic

/-- A query that is parsed is compiled as its nodes are. -/
theorem compileQuery_of_parse {query : Text} {ns : List Node}
    (h : Node.parse f.mode query = .ok ns) :
    f.compileQuery query = f.compile ns := by
  unfold compileQuery
  rw [h]
  rfl

/-- A query that is not parsed is refused for that. -/
theorem compileQuery_of_parse_error {query : Text} {e : QueryError}
    (h : Node.parse f.mode query = .error e) :
    f.compileQuery query = .error e := by
  unfold compileQuery
  rw [h]
  rfl

/-- A query that has tokens is not refused for a quote or a parenthesis. -/
theorem isLexical_of_compileQuery {query : Text} {ts : List Token}
    {e : QueryError} (hts : Token.tokenize f.mode query = .ok ts)
    (h : f.compileQuery query = .error e) : e.isLexical = false := by
  cases hns : Node.parse f.mode query with
  | error e' =>
      rw [compileQuery_of_parse_error hns] at h
      obtain rfl := Except.error.inj h
      exact QueryError.isLexical_of_isStructural
        (Node.isStructural_of_parseAt hts hns)
  | ok ns =>
      rw [compileQuery_of_parse hns] at h
      exact QueryError.isLexical_of_isSemantic
        (isSemantic_of_compile (Node.fits_of_parseAt hns) h)

/-- A query that strict mode cuts into tokens is cut, parsed and compiled
alike in lenient mode, be it into a result or an error. And in lenient mode
no text at all is refused for a quote or a parenthesis: not by the
tokenizer, which cuts every one, and so not by the parser where it reads
the contents of a group, nor by the compiler. -/
theorem modes_agree (query : Text) :
    (∀ ts, Token.tokenize .strict query = .ok ts →
        Token.tokenize .lenient query = .ok ts
          ∧ Node.parse .lenient query = Node.parse .strict query
          ∧ ∀ f : Filter, { f with mode := .lenient }.compileQuery query
              = { f with mode := .strict }.compileQuery query)
      ∧ (∀ base text, ∃ ts, Token.tokenizeAt .lenient base text = .ok ts)
      ∧ (∀ base text e, Node.parseAt .lenient base text = .error e →
          e.isLexical = false)
      ∧ (∀ ts e, Node.ofTokens .lenient ts = .error e →
          e.isLexical = false)
      ∧ ∀ (f : Filter) (e : QueryError),
          { f with mode := .lenient }.compileQuery query = .error e →
            e.isLexical = false := by
  refine ⟨fun ts hts => ?_, Token.exists_tokenizeAt_lenient,
    fun base text e he => ?_, fun ts e he => ?_, fun f e he => ?_⟩
  · have hparse : Node.parse .lenient query = Node.parse .strict query :=
      Node.parseAt_lenient hts
    refine ⟨Token.tokenizeAt_lenient hts, hparse, fun f => ?_⟩
    show Node.parse .lenient query >>= _ = Node.parse .strict query >>= _
    rw [hparse]
    refine congrArg _ (funext fun ns => ?_)
    exact (compile_mode .lenient ns).trans (compile_mode .strict ns).symm
  · obtain ⟨ts, hts⟩ := Token.exists_tokenizeAt_lenient base text
    exact QueryError.isLexical_of_isStructural
      (Node.isStructural_of_parseAt hts he)
  · exact QueryError.isLexical_of_isStructural
      (Node.isStructural_of_ofTokens he)
  · obtain ⟨ts, hts⟩ := Token.exists_tokenizeAt_lenient 0 query
    exact isLexical_of_compileQuery (f := { f with mode := .lenient }) hts he

/-- A parenthesis in quotes inside a group, and a group inside it that ends
too early. -/
theorem modes_agree_nested :
    let query : Text := "(a = ')' OR (b))".toList
    let f : Filter := ⟨.ofFields [], Dialect.ansi.quoter, none, .strict⟩
    Token.tokenize .strict query = .ok [⟨.group, query, 0⟩]
      ∧ Token.tokenize .lenient query = .ok [⟨.group, query, 0⟩]
      ∧ Node.parse .lenient query = Node.parse .strict query
      ∧ { f with mode := .lenient }.compileQuery query
        = f.compileQuery query := by
  intro query f
  have hts : Token.tokenize .strict query = .ok [⟨.group, query, 0⟩] := by rfl
  obtain ⟨hlenient, hparse, hcompile⟩ := (modes_agree query).1 _ hts
  exact ⟨hts, hlenient, hparse, hcompile f⟩

-- =============================================================== the layers

/-- What stands in the way of a strict query, in the order in which it is
found. A text that is not cut into tokens is refused for that, and no other
is refused for a quote or a parenthesis. A text that is cut and not parsed
is refused for that, whatever its names are. And a query that is parsed is
compiled if and only if all its leaves are admitted; otherwise the first of
them that is not is what it is refused for. -/
theorem compileQuery_strict_cases (fields : Resolver) (quoter : Quoter)
    (qualifier : Option Text) (query : Text) :
    let f : Filter := ⟨fields, quoter, qualifier, .strict⟩
    (∀ e, Token.tokenize .strict query = .error e →
        e.isLexical = true ∧ f.compileQuery query = .error e)
      ∧ (∀ ts, Token.tokenize .strict query = .ok ts →
        (∀ e, f.compileQuery query = .error e → e.isLexical = false)
          ∧ ∀ e, Node.parse .strict query = .error e →
              e.isStructural = true ∧ f.compileQuery query = .error e)
      ∧ (∀ ns, Node.parse .strict query = .ok ns →
        (∀ e, f.compileQuery query = .error e → e.isSemantic = true)
          ∧ ((∃ sql, f.compileQuery query = .ok sql)
            ↔ ∀ l ∈ Node.leaves ns, l.Admitted fields)
          ∧ (∀ e, f.compileQuery query = .error e
            ↔ ∃ before l after, Node.leaves ns = before ++ l :: after
                ∧ (∀ m ∈ before, m.Admitted fields) ∧ l.Fails fields e)
          ∧ ∀ l ∈ Node.leaves ns, ∀ e,
              f.predicate l.name l.op.spelling l.value = .error e
                ↔ l.Fails fields e) := by
  intro f
  refine ⟨fun e he => ?_, fun ts hts => ⟨?_, fun e he => ?_⟩,
    fun ns hns => ?_⟩
  · refine ⟨(Token.isLexical_of_tokenizeAt he).2, ?_⟩
    refine compileQuery_of_parse_error (f := f) ?_
    show Node.parseAt .strict 0 query = .error e
    rw [Node.parseAt_eq]
    exact congrArg (· >>= Node.ofTokens .strict) he
  · exact fun e he => isLexical_of_compileQuery hts he
  · exact ⟨Node.isStructural_of_parseAt hts he,
      compileQuery_of_parse_error he⟩
  · have hfits := Node.fits_of_parseAt hns
    -- What compiling refuses is the first leaf that has a fault.
    have hrefusal : refusal (f.compileQuery query)
        = (Node.leaves ns).findSome? (·.fault? fields) := by
      rw [compileQuery_of_parse (f := f) hns, refusal_compile hfits]
    refine ⟨fun e he => ?_, ?_, fun e => ?_, fun l hl e => ?_⟩
    · rw [compileQuery_of_parse (f := f) hns] at he
      exact isSemantic_of_compile hfits he
    · rw [← refusal_eq_none_iff, hrefusal, List.findSome?_eq_none_iff]
      simp only [Leaf.fault?_eq_none_iff]
    · rw [← refusal_eq_some_iff, hrefusal, List.findSome?_eq_some_iff]
      simp only [Leaf.fault?_eq_none_iff, Leaf.fault?_eq_some_iff,
        and_comm]
    · have hop := Node.isComparison_of_fits hfits l hl
      rw [predicate_spelling hop, ← refusal_eq_some_iff, refusal_term,
        Leaf.fault?_eq_some_iff]

/-- In each of these queries no field is called `b`, and none is refused
for it: an open quote, a missing term and a pattern on a number come first,
the number being found by the wildcard behind a text that admits it. -/
theorem compileQuery_strict_cases_unknown :
    let fields : Resolver := .ofFields
      [⟨"name".toList, .varchar, true⟩, ⟨"age".toList, .integer, true⟩]
    let f : Filter := ⟨fields, Dialect.ansi.quoter, none, .strict⟩
    f.compileQuery "b = (c = 'd)".toList
        = .error (.unterminatedQuote '\'' 9)
      ∧ f.compileQuery "b = c AND".toList
        = .error (.incomplete .termAfterBind)
      ∧ f.compileQuery "name = a AND (* LIKE c OR b = d)".toList
        = .error (.invalidOperator .like "age".toList .integer) := by
  intro fields f
  let nodes : List Node :=
    [.column "name".toList, .operator .eq, .value ['a'], .operator .and,
      .group [.column ['*'], .operator .like, .value ['c'], .operator .or,
        .column ['b'], .operator .eq, .value ['d']]]
  have hparse : Node.parse .strict "name = a AND (* LIKE c OR b = d)".toList
      = .ok nodes := by
    refine (@Node.parseAt_eq_ok_iff .strict 0 0 _ _ none rfl (by decide)
      (Or.inr ⟨rfl, rfl⟩) _).2 ⟨?_, by decide⟩
    refine .column rfl (.comparison rfl rfl (.value (.bind rfl ?_)))
    refine .group rfl ?_ (.done rfl)
    refine .column rfl (.comparison rfl rfl (.value (.bind rfl ?_)))
    exact .column rfl (.comparison rfl rfl (.value (.done rfl)))
  have hcases := compileQuery_strict_cases fields Dialect.ansi.quoter none
  refine ⟨((hcases _).1 _ rfl).2, ?_, ?_⟩
  · refine (((hcases "b = c AND".toList).2.1 _ rfl).2 _ ?_).2
    rw [Node.parse, Node.parseAt_eq]
    rfl
  · refine (((hcases _).2.2 nodes hparse).2.2.1 _).2
      ⟨[⟨"name".toList, .eq, some ['a']⟩], ⟨['*'], .like, some ['c']⟩, _,
        rfl, ?_, Leaf.fault?_eq_some_iff.1 rfl⟩
    intro m hm
    obtain rfl := List.mem_singleton.1 hm
    exact Leaf.fault?_eq_none_iff.1 rfl

end Filter
end FilterQuery
