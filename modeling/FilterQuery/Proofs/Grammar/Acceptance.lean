/-
The parser accepts exactly its grammar. A query is cut at delimiters and
quoted stretches are joined; what is left of that without blank tokens is
the flattening of the nodes, symbol by symbol, and every well-formed list
whose flattening it is, is what the parser returns
(`parse_strict_eq_ok_iff`). So no token is lost, repeated or moved, and a
query has one tree at most.

The induction goes into the contents of groups, and it is the same for both
modes (`parseAt_eq_ok_iff`): a text that closes no more than it opens is
read as its symbols, then the literal that it leaves open, then a closing
parenthesis for every group that it leaves open. In strict mode the last
two are absent. In lenient mode they hold a loss: the contents of an open
group are read without a final closing parenthesis, once at every level,
although in an open literal that character belongs to the literal.
-/
import FilterQuery.Proofs.Grammar.Filling

namespace FilterQuery

open Grammar Nesting

/-- The text without its last `k` closing parentheses, or without those
that it ends in, where they are fewer. -/
def Text.dropClosing : Nat → Text → Text
  | 0, t => t
  | k + 1, t => dropClosing k (t.dropTrailing ')')

namespace Text

theorem dropClosing_of_getLast?_ne {t : Text}
    (h : t.getLast? ≠ some ')') (k : Nat) : t.dropClosing k = t := by
  induction k with
  | zero => rfl
  | succ k ih =>
      show dropClosing k (t.dropTrailing ')') = t
      rw [dropTrailing_of_getLast?_ne h, ih]

theorem dropClosing_succ_append (k : Nat) (t : Text) :
    (t ++ [')']).dropClosing (k + 1) = t.dropClosing k := by
  show dropClosing k ((t ++ [')']).dropTrailing ')') = dropClosing k t
  rw [dropTrailing_append_singleton]

end Text

namespace Token

/-- The word that an open literal is read as within `k` open groups. -/
def Opened.symbols (k : Nat) : Opened → List Symbol
  | none => []
  | some (_, opened) => [.word (opened.text.dropClosing k)]

/-- The symbols that a text is read as. -/
def reading (base : Nat) (t : Text) : List Symbol :=
  let (ts, last) := lexed base t
  let k := (level paren? 0 ts).getD 0
  symbols ts ++ last.symbols k ++ List.replicate k .closing

theorem reading_eq {base k : Nat} {t : Text} {ts : List Token}
    {last : Opened} (h : lexed base t = (ts, last))
    (hk : level paren? 0 ts = some k) :
    reading base t
      = symbols ts ++ last.symbols k ++ List.replicate k .closing := by
  simp [reading, h, hk]

private theorem level_reading {base k : Nat} {t : Text} {ts : List Token}
    {last : Opened} (h : lexed base t = (ts, last))
    (hk : level paren? 0 ts = some k) :
    level Symbol.paren? 0 (reading base t) = some 0 := by
  have hlast : level Symbol.paren? k (last.symbols k) = some k := by
    obtain _ | ⟨quote, opened⟩ := last <;> rfl
  have hparen : Symbol.paren? .closing = some .closing := rfl
  have hclosing := level_replicate_closing hparen 0 k
  rw [Nat.zero_add] at hclosing
  rw [reading_eq h hk, level_append, level_append, level_symbols, hk,
    Option.bind_some, hlast, Option.bind_some, hclosing]

-- ======================================================= the open literal

private theorem Opened.WellMarked.symbols_tokens {last : Opened}
    (h : last.WellMarked) :
    Token.symbols last.tokens = last.symbols 0 := by
  obtain _ | ⟨quote, opened⟩ := last
  · rfl
  · obtain ⟨hquote, v, hopened, -⟩ := h
    rw [hopened]
    exact symbols_quoted rfl rfl hquote

-- ================================================================= groups

/-- A closed group is read as the tokens between its parentheses. -/
theorem reading_closed {base : Nat} {t : Text} {as us bs : List Token}
    {o c : Token} {last : Opened}
    (h : lexed base t = (as ++ o :: (us ++ c :: bs), last))
    (ho : o.isOpening = true) (hus : level paren? 0 us = some 0)
    (hc : c.isClosing = true) :
    reading (o.offset + 1) (grouped o (us ++ [c])).interior
      = symbols us := by
  rw [interior_closed ho hc, reading_eq (lexed_closed h ho) hus]
  simp [Opened.symbols]

/-- The contents of an open group, after the loss of a final closing
parenthesis. If that was the last token, the contents leave one group more
open, and it is closed again by the end; if it was the last character of
the open literal, it is missing from the literal. -/
theorem reading_opened {base j : Nat} {t : Text} {as us : List Token}
    {o : Token} {last : Opened}
    (h : lexed base t = (as ++ o :: us, last)) (ho : o.isOpening = true)
    (hus : level paren? 0 us = some j) :
    ∃ ts' last' k',
      lexed (o.offset + 1) (grouped o (us ++ last.tokens)).interior
          = (ts', last')
        ∧ level paren? 0 ts' = some k'
        ∧ symbols ts' ++ last'.symbols k' ++ List.replicate k' .closing
          = symbols us ++ last.symbols (j + 1)
              ++ List.replicate j .closing := by
  have hwhole := lexed_opened h ho
  have hinside := content_append us last.tokens
  rw [interior_grouped ho, hinside]
  generalize content us ++ content last.tokens = inside at hwhole hinside
  -- A parenthesis at the end is left out of the interior of an open group,
  -- whether it closes a group in there or belongs to an open literal.
  by_cases hend : inside.getLast? = some ')'
  · obtain ⟨v, rfl⟩ := List.getLast?_eq_some_iff.1 hend
    rw [Text.dropTrailing_append_singleton]
    rw [lexed_append_closing] at hwhole
    rcases hv : lexed (o.offset + 1) v with ⟨ts', _ | ⟨quote, opened⟩⟩
    · rw [hv] at hwhole
      obtain ⟨rfl, rfl⟩ := Prod.mk.inj hwhole
      generalize hdef : (⟨.delimiter, [')'], _⟩ : Token) = c at hus
      have hc : c.isClosing = true := hdef ▸ rfl
      have hp := paren?_eq_closing.2 hc
      have hsymbols : symbols [c] = [.closing] := by
        rw [symbols_cons (isBlank_of_paren? hp), Symbol.ofToken_closing hc]
        rfl
      refine ⟨ts', none, j + 1, rfl, (level_concat_closing hp).1 hus, ?_⟩
      rw [symbols_append, hsymbols]
      simp [Opened.symbols, List.replicate_succ]
    · rw [hv] at hwhole
      obtain ⟨rfl, rfl⟩ := Prod.mk.inj hwhole
      exact ⟨ts', _, j, rfl, hus, by
        simp [Opened.symbols, absorb, Text.dropClosing_succ_append]⟩
  · rw [Text.dropTrailing_of_getLast?_ne hend]
    have hlast : last.symbols (j + 1) = last.symbols j := by
      obtain _ | ⟨quote, opened⟩ := last
      · rfl
      · have hopened : opened.text.getLast? ≠ some ')' := by
          intro hopened
          apply hend
          rw [← hinside]
          simp [Opened.tokens, hopened]
        simp only [Opened.symbols, Text.dropClosing_of_getLast?_ne hopened]
    exact ⟨us, last, j, hwhole, hus, by rw [hlast]⟩

-- =========================================================== joined tokens

section Joined

variable {mode : Mode} {base k : Nat} {text : Text} {ts gs : List Token}
  {last : Opened}

/-- The contents of every group close no more than they open, and those of
a closed group leave nothing open. -/
theorem lexed_interior (h : lexed base text = (ts, last))
    (hgs : Grouped mode (ts ++ last.tokens) gs) {g : Token} (hg : g ∈ gs)
    (hgroup : g.kind = .group) :
    ∃ ts' last' k', lexed (g.offset + 1) g.interior = (ts', last')
      ∧ level paren? 0 ts' = some k'
      ∧ (mode = .lenient ∨ last' = none ∧ k' = 0) := by
  obtain ⟨-, hlast⟩ := isUngrouped_of_mem_lexed h
  rcases hgs.mem_cases g hg with ⟨hmem, -⟩
    | ⟨as, o, us, c, bs, hsplit, rfl, ho, hus, hc⟩
    | ⟨hmode, as, o, us, j, hsplit, rfl, ho, hus⟩
  · exact absurd hgroup (kind_ne_group_of_lexed h g hmem)
  · obtain ⟨bs', rfl⟩ := hlast.split_group hc hsplit
    have hclosed := lexed_closed h ho
    rw [← interior_closed ho hc us] at hclosed
    exact ⟨us, none, 0, hclosed, hus, Or.inr ⟨rfl, rfl⟩⟩
  · obtain ⟨us', rfl, rfl⟩ := hlast.split (paren?_eq_opening.2 ho) hsplit
    rw [hlast.level_append] at hus
    obtain ⟨ts', last', k', hlexed, hk', -⟩ := reading_opened h ho hus
    exact ⟨ts', last', k', hlexed, hk', Or.inl hmode⟩

/-- Joined or not, the tokens of a text are read as the same symbols. -/
theorem spelled_reading (h : lexed base text = (ts, last))
    (hk : level paren? 0 ts = some k)
    (hgs : Grouped mode (ts ++ last.tokens) gs) :
    (gs.filter (!·.isBlank)).flatMap
        (spelled fun g => reading (g.offset + 1) g.interior)
      = reading base text := by
  obtain ⟨-, hlast⟩ := isUngrouped_of_mem_lexed h
  have hdepth : level paren? 0 (ts ++ last.tokens) = some k := by
    rw [hlast.level_append, hk]
  have hkind := kind_ne_group_of_lexed h
  have hclosed : ∀ as o us c bs,
      ts ++ last.tokens = as ++ o :: (us ++ c :: bs) →
      o.isOpening = true → level paren? 0 us = some 0 →
      c.isClosing = true →
      reading (o.offset + 1) (grouped o (us ++ [c])).interior
        = symbols us := by
    intro as o us c bs hsplit ho hus hc
    obtain ⟨bs', rfl⟩ := hlast.split_group hc hsplit
    exact reading_closed h ho hus hc
  rw [reading_eq h hk]
  -- All groups are closed, or the last one is left open.
  rcases @spelled_grouped _ _ _
      (fun g => reading (g.offset + 1) g.interior) hgs k hdepth hkind hclosed
    with ⟨rfl, hflat⟩ | ⟨-, as, o, us, j, hsplit, ho, hus, rfl, hflat⟩
  · rw [hflat, symbols_append, hlast.symbols_tokens]
    simp
  · rw [hflat]
    obtain ⟨us', rfl, rfl⟩ := hlast.split (paren?_eq_opening.2 ho) hsplit
    rw [hlast.level_append] at hus
    obtain ⟨ts', last', k', hlexed, hk', hread⟩ := reading_opened h ho hus
    have hopening : symbols (o :: us') = .opening :: symbols us' := by
      rw [symbols_cons (isBlank_of_paren? (paren?_eq_opening.2 ho)),
        Symbol.ofToken_opening ho]
    have hreplicate : List.replicate (j + 1) Symbol.closing
        = List.replicate j .closing ++ [.closing] :=
      List.replicate_succ'
    rw [show (grouped o (us' ++ last.tokens)).offset = o.offset from rfl,
      reading_eq hlexed hk', hread, symbols_append, hopening, hreplicate]
    simp

end Joined

end Token

-- ============================================================= the parser

namespace Node

open Token

/-- A text that closes no more than it opens, and in strict mode leaves
nothing open, is parsed into the well-formed list that its symbols are
written from. -/
theorem parseAt_eq_ok_iff {mode : Mode} {base k : Nat} {text : Text}
    {ts : List Token} {last : Opened} (h : lexed base text = (ts, last))
    (hk : level paren? 0 ts = some k)
    (hm : mode = .lenient ∨ last = none ∧ k = 0) (ns : List Node) :
    parseAt mode base text = .ok ns
      ↔ Fits .start ns ∧ flatten ns = reading base text := by
  induction base, text using contents_induction mode
    generalizing k ts last ns with
  | step base text ih =>
      have hdepth : level paren? 0 (ts ++ last.tokens) = some k := by
        rw [(isUngrouped_of_mem_lexed h).2.level_append, hk]
      obtain ⟨gs, hgs⟩ := exists_grouped hdepth
        (hm.symm.imp_left And.right)
      have htokens : tokenizeAt mode base text = .ok gs :=
        tokenizeAt_eq_ok_iff_grouped.2
          ⟨ts, last, h, hm.imp_right And.left, hgs⟩
      rw [parseAt_eq, htokens, ← spelled_reading h hk hgs]
      have hmem : ∀ g ∈ gs.filter (!·.isBlank), g ∈ gs :=
        fun g hg => (List.mem_filter.1 hg).1
      refine fillFrom_eq_ok_iff
        (fun g hg hne => hgs.paren?_eq_none hdepth g (hmem g hg) hne)
        (fun g hg hgroup => ?_) (fun g hg hgroup children => ?_) .start ns
      · obtain ⟨ts', last', k', hlexed, hk', -⟩ :=
          lexed_interior h hgs (hmem g hg) hgroup
        exact level_reading hlexed hk'
      · obtain ⟨ts', last', k', hlexed, hk', hmode⟩ :=
          lexed_interior h hgs (hmem g hg) hgroup
        exact ih gs htokens g (hmem g hg) hgroup hlexed hk' hmode children

/-- In strict mode a text is parsed only if it leaves nothing open. -/
theorem exists_lexed_of_parseAt {base : Nat} {text : Text} {ns : List Node}
    (h : parseAt .strict base text = .ok ns) :
    ∃ ts, lexed base text = (ts, none) ∧ level paren? 0 ts = some 0 := by
  rw [parseAt_eq] at h
  cases hgs : tokenizeAt .strict base text with
  | error e =>
      rw [hgs] at h
      cases h
  | ok gs =>
      obtain ⟨ts, hlexed, hgs⟩ := tokenizeAt_strict_eq_ok_iff.1 hgs
      exact ⟨ts, hlexed, hgs.balanced⟩

/-- A tree of a query: a well-formed list of nodes that is written, symbol
by symbol, with the tokens of the query that are not blank. -/
def IsTree (query : Text) (ns : List Node) : Prop :=
  ∃ ts, ungrouped .strict 0 query = .ok ts ∧ WellFormed ns
    ∧ List.Forall₂ Symbol.Matches (flatten ns) (ts.filter (!·.isBlank))

/-- The strict parser accepts exactly the queries that have a tree, with
that tree, and it is the only one. -/
theorem parse_strict_eq_ok_iff (query : Text) :
    (∀ ns, parse .strict query = .ok ns ↔ IsTree query ns)
      ∧ ∀ ns ms, IsTree query ns → IsTree query ms → ns = ms := by
  have hiff : ∀ ns, parse .strict query = .ok ns ↔ IsTree query ns := by
    intro ns
    have hsymbols : ∀ {ts}, lexed 0 query = (ts, none) →
        (List.Forall₂ Symbol.Matches (flatten ns) (ts.filter (!·.isBlank))
          ↔ flatten ns = Token.symbols ts) := by
      intro ts hts
      refine Symbol.forall₂_matches_iff fun t ht => ?_
      exact ((isUngrouped_of_mem_lexed hts).1 t
        (List.mem_filter.1 ht).1).kind_ne_group
    constructor
    · intro h
      obtain ⟨ts, hts, hlevel⟩ := exists_lexed_of_parseAt h
      obtain ⟨hfits, hflat⟩ :=
        (parseAt_eq_ok_iff hts hlevel (Or.inr ⟨rfl, rfl⟩) ns).1 h
      refine ⟨ts, ungrouped_strict_eq_ok.2 hts, fits_start_iff.1 hfits, ?_⟩
      rw [hsymbols hts, hflat, reading_eq hts hlevel]
      simp [Opened.symbols]
    · intro h
      obtain ⟨ts, hts, hns, hmatches⟩ := h
      have hts := ungrouped_strict_eq_ok.1 hts
      have hflat := (hsymbols hts).1 hmatches
      have hlevel : level paren? 0 ts = some 0 := by
        rw [← Token.level_symbols, ← hflat]
        exact level_flatten ns 0
      refine (parseAt_eq_ok_iff hts hlevel (Or.inr ⟨rfl, rfl⟩) ns).2
        ⟨fits_start_iff.2 hns, ?_⟩
      rw [hflat, reading_eq hts hlevel]
      simp [Opened.symbols]
  refine ⟨hiff, fun ns ms hns hms => ?_⟩
  have hns := (hiff ns).2 hns
  rw [(hiff ms).2 hms] at hns
  exact (Except.ok.inj hns).symm

end Node
end FilterQuery
