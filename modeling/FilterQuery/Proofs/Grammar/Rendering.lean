/-
Trees in print, and back. A word is what a query can write as a name or a
value, told by its own characters: text that holds no delimiter and is no
operator, one of the delimiters that are nothing else, or a quoted stretch.

Printing a tree writes its words and the one spelling of each operator
with a space between neighbours, and a group as its contents in
parentheses. Every part of the print spells its own symbols, and a space
or a parenthesis joins no two of them (`spells_render`), so a well-formed
tree of words is read back as it is. And every word of a tree that was read
is one (`isWord_of_parse`), since the tokens of a query are longest
matches; so every query has a print that means the same.
-/
import Mathlib.Data.List.Infix
import FilterQuery.Proofs.Filter.Outcomes
import FilterQuery.Proofs.Grammar.Concatenation

namespace FilterQuery

open Grammar
open Token (StartsDelimiter Opened)

-- ================================================================== words

/-- The delimiters that are neither operators nor marks nor parentheses. -/
def wordMarks : List Char := ['!', ',', ';', '+', '*', '/']

/-- What can be written as a name or a value. -/
inductive IsWord : Text → Prop where
  /-- Not blank, no delimiter starts anywhere in it, and no operator. -/
  | plain {t : Text} (hblank : t.isBlank = false)
      (hrun : ∀ u v, t = u ++ v → v ≠ [] → ¬StartsDelimiter v)
      (hop : Operator.parse? t = none) : IsWord t
  | mark {c : Char} (h : c ∈ wordMarks) : IsWord [c]
  /-- Anything without a quote mark, between two such marks. -/
  | quoted {quote : Char} {v : Text} (hq : isQuoteMark quote = true)
      (hv : quote ∉ v) : IsWord (quote :: (v ++ [quote]))

namespace Node

mutual

/-- A node in print. -/
def print : Node → Text
  | .column name => name
  | .operator op => op.spelling
  | .value raw => raw
  | .group children => '(' :: Text.join [' '] (prints children) ++ [')']

/-- Each node in print. -/
def prints : List Node → List Text
  | [] => []
  | n :: ns => n.print :: prints ns

end

/-- A list of nodes in print, with a space between neighbours. -/
def render (ns : List Node) : Text := Text.join [' '] (prints ns)

private theorem print_group (children : List Node) :
    (Node.group children).print = '(' :: render children ++ [')'] := by
  rw [print, render]

private theorem render_cons_cons (n m : Node) (ns : List Node) :
    render (n :: m :: ns) = n.print ++ ' ' :: render (m :: ns) := by
  simp [render, prints, Text.join]

end Node

-- ====================================================== a word is one token

namespace Token

/-- Text in which no delimiter starts is one piece. -/
theorem pieces_of_run {t : Text} (hne : t ≠ [])
    (hrun : ∀ u v, t = u ++ v → v ≠ [] → ¬StartsDelimiter v) (base : Nat) :
    pieces base t = [⟨.text, t, base⟩] := by
  have hstart := hrun [] t rfl hne
  fun_induction pieces base t with
  | case1 => exact absurd rfl hne
  | case2 base c hc =>
      exact absurd (startsDelimiter_cons.2 (Or.inl hc)) hstart
  | case3 base c hc => rfl
  | case4 base c d t hcd ih =>
      exact absurd (startsDelimiter_cons.2 (Or.inr ⟨d, t, rfl, hcd⟩)) hstart
  | case5 base c d t hcd hc ih =>
      exact absurd (startsDelimiter_cons.2 (Or.inl hc)) hstart
  | case6 base c d t hcd hc ih =>
      have htail : ∀ u v, d :: t = u ++ v → v ≠ [] → ¬StartsDelimiter v := by
        intro u v huv hv
        exact hrun (c :: u) v (congrArg (c :: ·) huv) hv
      rw [ih (by simp) htail (htail [] _ rfl (by simp))]
      rfl

/-- Pieces other than its mark lengthen the stretch that is being read. -/
theorem quoteRun_inside {quote : Char} {ps : List Token}
    (h : ∀ p ∈ ps, p.quoteMark? ≠ some quote) (opened : Token) :
    quoteRun (some (quote, opened)) ps
      = ([], some
          (quote, { opened with text := opened.text ++ content ps })) := by
  induction ps generalizing opened with
  | nil => simp [quoteRun]
  | cons p ps ih =>
      have hp := h p (List.mem_cons_self ..)
      have hps := fun q hq => h q (List.mem_cons_of_mem _ hq)
      rw [quoteRun_cons, quoteStep_inside hp, ih hps]
      simp [absorb]

/-- A mark opens a stretch that goes on where there is no such mark. -/
theorem lexed_open {quote : Char} {v : Text} (hq : isQuoteMark quote = true)
    (hv : quote ∉ v) (base : Nat) :
    lexed base (quote :: v)
      = ([], some (quote, ⟨.quoted, quote :: v, base⟩)) := by
  have hmark : quoteMark? ⟨.delimiter, [quote], base⟩ = some quote :=
    quoteMark?_eq_some.2 ⟨rfl, rfl, hq⟩
  have hinside : ∀ p ∈ pieces (base + quote.utf8Size) v,
      p.quoteMark? ≠ some quote := by
    intro p hp hp'
    obtain ⟨-, htext, -⟩ := quoteMark?_eq_some.1 hp'
    apply hv
    rw [← content_pieces (base + quote.utf8Size) v]
    exact List.mem_flatMap.2 ⟨p, hp, by simp [htext]⟩
  unfold lexed
  rw [pieces_cons_of_solitary (solitary_of_isQuoteMark hq), quoteRun_cons,
    quoteStep_mark hmark, quoteRun_inside hinside, content_pieces]
  rfl

end Token

namespace Spells

theorem word {t : Text} (h : IsWord t) : Spells t [.word t] := by
  cases h with
  | plain hblank hrun hop =>
      have hne : t ≠ [] := by
        rintro rfl
        cases hblank
      refine ⟨[⟨.text, t, 0⟩], ?_, ?_⟩
      · unfold Token.lexed
        rw [Token.pieces_of_run hne hrun]
        rfl
      · have hreading : Reading.ofToken ⟨.text, t, 0⟩ = .word := by
          simp [Reading.ofToken, hop]
        have hparen : Token.paren? ⟨.text, t, 0⟩ = none :=
          Token.paren?_eq_none_of_kind (by simp)
        have hne : Token.isBlank ⟨.text, t, 0⟩ = false := hblank
        rw [Token.symbols_cons hne, (ofToken_of_reading hparen).1 hreading]
        rfl
  | @mark c h =>
      simp only [wordMarks, List.mem_cons, List.not_mem_nil, or_false] at h
      refine ⟨[⟨.delimiter, [c], 0⟩], ?_⟩
      rcases h with rfl | rfl | rfl | rfl | rfl | rfl <;> decide
  | @quoted quote v hq hv =>
      obtain ⟨mark, hmark, hlexed⟩ :=
        Token.lexed_append_mark (Token.lexed_open hq hv 0)
      refine ⟨_, hlexed, ?_⟩
      rw [List.nil_append, Token.symbols_quoted rfl rfl hq]
      simp [Token.absorb, hmark]

/-- The spelling of an operator is that operator. -/
theorem operator (op : Operator) : Spells op.spelling [.operator op] := by
  refine ⟨(Token.lexed 0 op.spelling).1, ?_, ?_⟩
  · cases op <;> rfl
  · cases op <;> rfl

end Spells

-- ============================================================ from the tree

namespace Node

/-- The names and the values of the nodes, however deep, are words. -/
def OfWords (ns : List Node) : Prop :=
  ∀ w, Symbol.word w ∈ flatten ns → IsWord w

theorem OfWords.head {n : Node} {ns : List Node} (h : OfWords (n :: ns)) :
    ∀ w, Symbol.word w ∈ n.symbols → IsWord w := by
  intro w hw
  apply h w
  rw [flatten]
  exact List.mem_append_left _ hw

theorem OfWords.tail {n : Node} {ns : List Node} (h : OfWords (n :: ns)) :
    OfWords ns := by
  intro w hw
  apply h w
  rw [flatten]
  exact List.mem_append_right _ hw

mutual

theorem spells_print (n : Node)
    (h : ∀ w, Symbol.word w ∈ n.symbols → IsWord w) :
    Spells n.print n.symbols := by
  cases n with
  | column name =>
      exact .word (h name (by simp [symbols]))
  | operator op => exact .operator op
  | value raw =>
      exact .word (h raw (by simp [symbols]))
  | group children =>
      have hchildren : OfWords children := by
        intro w hw
        apply h w
        simp [symbols, hw]
      rw [print_group]
      exact (spells_render children hchildren).enclosed

/-- The print of nodes spells their symbols. -/
theorem spells_render (ns : List Node) (h : OfWords ns) :
    Spells (render ns) (flatten ns) := by
  cases ns with
  | nil => exact .nil
  | cons n ns =>
      have hn := spells_print n h.head
      have hns := spells_render ns h.tail
      cases ns with
      | nil => simpa [render, prints, Text.join, flatten] using hn
      | cons m ns =>
          rw [render_cons_cons]
          exact hn.space hns

end

end Node

-- =========================================================== from the query

namespace Token

/-- Outside quotes a word is no operator. -/
theorem parse?_of_reading {t : Token} (hkind : t.kind ≠ .quoted)
    (h : Reading.ofToken t = .word) : Operator.parse? t.text = none := by
  unfold Reading.ofToken at h
  split at h
  · cases h
  · contradiction
  · split at h
    · cases h
    · assumption
  · split at h
    · cases h
    · assumption

/-- A token that is read as a word is one. -/
theorem isWord_of_mem_lexed {base : Nat} {text : Text} {ts : List Token}
    {last : Opened} (h : lexed base text = (ts, last)) {t : Token}
    (ht : t ∈ ts) (hne : t.isBlank = false) {w : Text}
    (hw : Symbol.ofToken t = .word w) : IsWord w := by
  have hparen : t.paren? = none := by
    rw [← Symbol.paren?_ofToken, hw]
    rfl
  have hkind := kind_ne_group_of_lexed h t (List.mem_append_left _ ht)
  obtain ⟨before, after, rfl⟩ := List.append_of_mem ht
  have hword : t.text = w ∧ Reading.ofToken t = .word := by
    cases hr : Reading.ofToken t with
    | group => exact absurd (kind_of_reading hr) hkind
    | operator op =>
        rw [(ofToken_of_reading hparen).2 op hr] at hw
        cases hw
    | word =>
        rw [(ofToken_of_reading hparen).1 hr] at hw
        exact ⟨Symbol.word.inj hw, rfl⟩
  obtain ⟨rfl, hreading⟩ := hword
  rcases lexed_cons (lexed_suffix h)
    with ⟨hmark, hcut⟩ | ⟨quote, v, hq, hv, -, htext⟩
  · obtain ⟨kind, u, offset⟩ := t
    cases hcut with
    | run hrun =>
        have hop := parse?_of_reading (by simp) hreading
        refine .plain hne (fun x y hxy hy hstart => ?_) hop
        obtain ⟨d, hd, hprefix⟩ := hstart
        exact hrun.2.1 x y hxy hy
          ⟨d, hd, hprefix.trans (List.prefix_append ..)⟩
    | delimiter hlongest =>
        have hop := parse?_of_reading (by simp) hreading
        -- Few delimiters are words: the others are blank, operators,
        -- parentheses or marks.
        have hall : ∀ d ∈ delimiters, d.isBlank = false →
            Operator.parse? d = none →
            paren? ⟨.delimiter, d, 0⟩ = none →
            quoteMark? ⟨.delimiter, d, 0⟩ = none →
              d ∈ wordMarks.map ([·]) := by
          decide
        obtain ⟨c, hc, rfl⟩ :=
          List.mem_map.1 (hall u hlongest.1 hne hop hparen hmark)
        exact .mark hc
  · rw [htext]
    exact .quoted hq hv

end Token

namespace Node

/-- The names and values of a query that was read are words. -/
theorem isWord_of_parse {q : Text} {ns : List Node}
    (h : parse .strict q = .ok ns) : OfWords ns := by
  obtain ⟨-, ts, hts, hflat⟩ := parse_strict_iff_spells.1 h
  intro w hw
  rw [← hflat] at hw
  obtain ⟨t, ht, hword⟩ := List.mem_map.1 hw
  obtain ⟨ht, hne⟩ := List.mem_filter.1 ht
  exact Token.isWord_of_mem_lexed hts ht (by simpa using hne) hword

/-- What strict mode reads, either mode reads. -/
theorem parse_of_strict {q : Text} {ns : List Node}
    (h : parse .strict q = .ok ns) (mode : Mode) : parse mode q = .ok ns := by
  cases mode with
  | strict => exact h
  | lenient =>
      have htokens : ∃ ts, Token.tokenizeAt .strict 0 q = .ok ts := by
        cases hts : Token.tokenizeAt .strict 0 q with
        | ok ts => exact ⟨ts, rfl⟩
        | error e =>
            rw [parse, parseAt_eq, hts] at h
            cases h
      obtain ⟨ts, hts⟩ := htokens
      rw [← h]
      exact parseAt_lenient hts

/-- A well-formed tree whose names and values are words is read from its
print. Every query that is read at all is read as such a tree, and so its
print is read as the same tree and compiled to the same result. -/
theorem parse_render :
    (∀ ns, WellFormed ns → OfWords ns → parse .strict (render ns) = .ok ns)
      ∧ ∀ q ns, parse .strict q = .ok ns →
        OfWords ns ∧ parse .strict (render ns) = .ok ns
          ∧ ∀ f : Filter, f.compileQuery (render ns) = f.compileQuery q := by
  have hread : ∀ ns, WellFormed ns → OfWords ns →
      parse .strict (render ns) = .ok ns := by
    intro ns hns hwords
    exact parse_strict_iff_spells.2
      ⟨fits_start_iff.2 hns, spells_render ns hwords⟩
  refine ⟨hread, fun q ns h => ?_⟩
  have hwords := isWord_of_parse h
  have hrender :=
    hread ns (fits_start_iff.1 (parse_strict_iff_spells.1 h).1) hwords
  refine ⟨hwords, hrender, fun f => ?_⟩
  rw [Filter.compileQuery_of_parse (parse_of_strict hrender f.mode),
    Filter.compileQuery_of_parse (parse_of_strict h f.mode)]

/-- Quoted parentheses and marks, a lone `!` and a group that is empty. -/
theorem parse_render_marks :
    let ns : List Node :=
      [.group [.column "'(\"'".toList, .operator .ne, .value ['!'],
        .operator .or, .group []], .operator .and, .column "a&b".toList,
        .operator .isNull]
    render ns = "('(\"' != ! OR ()) AND a&b ISNULL".toList
      ∧ parse .strict (render ns) = .ok ns := by
  intro ns
  have hfits : Fits .start ns := by
    refine .group rfl ?_ (.bind rfl (.column rfl (.nullCheck rfl (.done rfl))))
    refine .column rfl (.comparison rfl rfl (.value (.bind rfl ?_)))
    exact .group rfl (.done rfl) (.done rfl)
  have hwords : OfWords ns := by
    intro w hw
    have hw : w ∈ ["'(\"'".toList, ['!'], "a&b".toList] := by
      simpa [ns, flatten, symbols] using hw
    rcases List.mem_cons.1 hw with rfl | hw
    · exact @IsWord.quoted '\'' "(\"".toList rfl (by decide)
    rcases List.mem_cons.1 hw with rfl | hw
    · exact .mark (by decide)
    · obtain rfl := List.mem_singleton.1 hw
      refine .plain rfl (fun u v huv hv => ?_) rfl
      have htails : ∀ v ∈ "a&b".toList.tails, v ≠ [] →
          ¬StartsDelimiter v := by
        decide
      exact htails v ((List.mem_tails _ _).2 ⟨u, huv.symm⟩) hv
  exact ⟨rfl, parse_render.1 ns (fits_start_iff.1 hfits) hwords⟩

end Node
end FilterQuery
