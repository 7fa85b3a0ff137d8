/-
Texts one after another. Where a text leaves no quoted stretch open, and
what comes next is white space or a parenthesis, the text after it is cut
into tokens as if it stood alone (`lexed_join`): the character belongs to no
longer delimiter, and no mark is there to absorb it.

Only the offsets differ, and no symbol depends on them (`lexed_add`,
`symbols_moved`). So the symbols of texts that are joined are their
symbols, joined (`Spells.space`, `Spells.enclosed`), and together with the
fact that the strict parser reads nothing but symbols
(`parse_strict_iff_spells`) this makes the language closed under bind
operators and parentheses.
-/
import FilterQuery.Proofs.Grammar.Acceptance

namespace FilterQuery

open Grammar Nesting

namespace Token

-- =============================================================== moved text

/-- The token as it stands behind `k` further bytes. -/
def moved (k : Nat) (t : Token) : Token := { t with offset := k + t.offset }

/-- The stretch being read, behind `k` further bytes. -/
def Opened.moved (k : Nat) : Opened → Opened :=
  Option.map fun (quote, opened) => (quote, opened.moved k)

private theorem consText_moved (k : Nat) (c : Char) (base : Nat)
    (ts : List Token) :
    consText c (k + base) (ts.map (moved k))
      = (consText c base ts).map (moved k) := by
  rcases consText_cases c base ts with ⟨u, offset, us, rfl, h⟩ | ⟨hne, h⟩
  · rw [h]
    rfl
  · rw [h]
    cases ts with
    | nil => rfl
    | cons t ts =>
        obtain ⟨kind, u, offset⟩ := t
        cases kind with
        | text => exact absurd rfl (hne _ _ rfl)
        | delimiter => rfl
        | quoted => rfl
        | group => rfl

/-- Pieces do not depend on where their text stands, but for their offsets. -/
theorem pieces_add (k base : Nat) (t : Text) :
    pieces (k + base) t = (pieces base t).map (moved k) := by
  fun_induction pieces base t with
  | case1 => rfl
  | case2 base c hc =>
      rw [pieces, if_pos hc]
      rfl
  | case3 base c hc =>
      rw [pieces, if_neg hc]
      rfl
  | case4 base c d t hcd ih =>
      rw [pieces, if_pos hcd, Nat.add_assoc, ih]
      rfl
  | case5 base c d t hcd hc ih =>
      rw [pieces, if_neg hcd, if_pos hc, Nat.add_assoc, ih]
      rfl
  | case6 base c d t hcd hc ih =>
      rw [pieces, if_neg hcd, if_neg hc, Nat.add_assoc, ih]
      exact consText_moved k c base _

private theorem quoteStep_moved (k : Nat) (st : Opened) (t : Token) :
    quoteStep (st.moved k) (t.moved k)
      = ((quoteStep st t).1.map (moved k), (quoteStep st t).2.moved k) := by
  have hmark : (t.moved k).quoteMark? = t.quoteMark? := rfl
  rcases quoteStep_cases st t with ⟨rfl, h, hstep⟩ | ⟨rfl, quote, h, hstep⟩
    | ⟨quote, opened, rfl, h, hstep⟩ | ⟨quote, opened, rfl, h, hstep⟩
  · rw [hstep]
    exact quoteStep_plain (hmark.trans h)
  · rw [hstep]
    exact quoteStep_mark (hmark.trans h)
  · rw [hstep]
    exact quoteStep_close (hmark.trans h) _
  · rw [hstep]
    exact quoteStep_inside (hmark ▸ h) _

/-- Nor does the quote pass. -/
private theorem quoteRun_moved (k : Nat) (st : Opened) (ps : List Token) :
    quoteRun (st.moved k) (ps.map (moved k))
      = ((quoteRun st ps).1.map (moved k), (quoteRun st ps).2.moved k) := by
  induction ps generalizing st with
  | nil => rfl
  | cons p ps ih =>
      rw [List.map_cons, quoteRun_cons, quoteRun_cons, quoteStep_moved, ih,
        List.map_append]

/-- A text is cut alike wherever it stands. -/
theorem lexed_add (k base : Nat) (t : Text) :
    lexed (k + base) t
      = ((lexed base t).1.map (moved k), (lexed base t).2.moved k) := by
  unfold lexed
  rw [pieces_add]
  exact quoteRun_moved k none _

/-- A character that cuts, other than a quote mark, is a token between those
of a text without an open literal and those of what is behind it. -/
theorem lexed_join {c : Char} (hc : Solitary c) (hq : isQuoteMark c = false)
    {t u : Text} {ts us : List Token} {last : Opened}
    (ht : lexed 0 t = (ts, none)) (hu : lexed 0 u = (us, last)) :
    lexed 0 (t ++ c :: u)
      = (ts ++ ⟨.delimiter, [c], t.byteSize⟩
            :: us.map (moved (t.byteSize + c.utf8Size)),
          last.moved (t.byteSize + c.utf8Size)) := by
  have hmark : quoteMark? ⟨.delimiter, [c], t.byteSize⟩ = none := by
    simp [quoteMark?, hq]
  have hmoved : ∀ k, lexed k u = (us.map (moved k), last.moved k) := by
    intro k
    have hadd := lexed_add k 0 u
    rwa [Nat.add_zero, hu] at hadd
  rw [lexed_append_cons hc, ht, Nat.zero_add, quoteRun_cons,
    quoteStep_plain hmark]
  show (ts ++ (_ :: (lexed _ u).1), (lexed _ u).2) = _
  rw [hmoved]

/-- No symbol depends on where its token stands. -/
theorem symbols_moved (k : Nat) (ts : List Token) :
    symbols (ts.map (moved k)) = symbols ts := by
  unfold symbols
  rw [List.filter_map, List.map_map]
  rfl

end Token

-- ============================================================= spelled texts

open Token (Solitary)

/-- The text leaves no quoted stretch open, and its tokens are the
symbols. -/
def Spells (t : Text) (ss : List Symbol) : Prop :=
  ∃ ts, Token.lexed 0 t = (ts, none) ∧ Token.symbols ts = ss

namespace Spells

variable {t u : Text} {ss ss' : List Symbol}

theorem nil : Spells [] [] := ⟨[], rfl, rfl⟩

/-- A character that cuts, other than a quote mark, is a token between the
symbols of what is before it and of what is after it. -/
theorem append_cons {c : Char} (hc : Solitary c)
    (hq : isQuoteMark c = false) (ht : Spells t ss) (hu : Spells u ss') :
    Spells (t ++ c :: u)
      (ss ++ (Token.symbols [⟨.delimiter, [c], t.byteSize⟩] ++ ss')) := by
  obtain ⟨ts, hts, rfl⟩ := ht
  obtain ⟨us, hus, rfl⟩ := hu
  refine ⟨_, Token.lexed_join hc hq hts hus, ?_⟩
  rw [Token.symbols_append, ← List.singleton_append, Token.symbols_append,
    Token.symbols_moved]

/-- A space between two texts is no symbol. -/
theorem space (ht : Spells t ss) (hu : Spells u ss') :
    Spells (t ++ ' ' :: u) (ss ++ ss') :=
  append_cons (Token.solitary_of_mem (by simp)) (by decide) ht hu

private theorem opening (hu : Spells u ss') :
    Spells ('(' :: u) (.opening :: ss') :=
  append_cons (Token.solitary_of_mem (by simp)) (by decide) nil hu

private theorem closing (ht : Spells t ss) (hu : Spells u ss') :
    Spells (t ++ ')' :: u) (ss ++ .closing :: ss') :=
  append_cons (Token.solitary_of_mem (by simp)) (by decide) ht hu

/-- A text in parentheses. -/
theorem enclosed (ht : Spells t ss) :
    Spells ('(' :: t ++ [')']) (.opening :: (ss ++ [.closing])) :=
  (ht.closing nil).opening

end Spells

-- ============================================================== operators

/-- A character is its own lower case, or the upper case of that. -/
theorem eq_or_eq_toUpper_of_toLower {c d : Char} (h : c.toLower = d) :
    c = d ∨ c = d.toUpper := by
  unfold Char.toLower at h
  split at h
  · rename_i hc
    obtain rfl := h
    have hlow : 65 ≤ c.toNat := UInt32.le_iff_toNat_le.1 hc.1
    have hhigh : c.toNat ≤ 90 := UInt32.le_iff_toNat_le.1 hc.2
    have hadd : (c.val + 32).toNat = c.toNat + 32 := by
      rw [UInt32.toNat_add]
      exact Nat.mod_eq_of_lt (by simp; omega)
    have hletter : 'a'.val ≤ c.val + 32 ∧ c.val + 32 ≤ 'z'.val := by
      constructor
      · refine UInt32.le_iff_toNat_le.2 ?_
        show 97 ≤ (c.val + 32).toNat
        omega
      · refine UInt32.le_iff_toNat_le.2 ?_
        show (c.val + 32).toNat ≤ 122
        omega
    refine Or.inr (Eq.trans (Char.ext ?_) (dif_pos hletter).symm)
    apply UInt32.toNat_inj.1
    show c.toNat = (c.val + 32 + ('A'.val - 'a'.val)).toNat
    rw [UInt32.toNat_add, hadd]
    simp
    omega
  · exact Or.inl h

namespace Text

/-- The text with none, some or all of its letters in upper case. -/
def caseVariants : Text → List Text
  | [] => [[]]
  | c :: t => (caseVariants t).flatMap fun u => [c :: u, c.toUpper :: u]

/-- A text is among the spellings of itself in lower case. -/
private theorem mem_caseVariants (t : Text) : t ∈ caseVariants t.lower := by
  induction t with
  | nil => exact List.mem_singleton.2 rfl
  | cons c t ih =>
      refine List.mem_flatMap.2 ⟨t, ih, ?_⟩
      rcases eq_or_eq_toUpper_of_toLower (c := c) rfl with hc | hc
      · exact List.mem_cons.2 (Or.inl (congrArg (· :: t) hc))
      · exact List.mem_cons_of_mem _
          (List.mem_singleton.2 (congrArg (· :: t) hc))

end Text

/-- An operator that is no null check is a symbol by itself, in whatever case
it is written. -/
theorem spells_of_spelling {b : Text} {op : Operator}
    (hb : (b.lower, op) ∈ Operator.spellings)
    (hop : op.isNullCheck = false) : Spells b [.operator op] := by
  have hall : ∀ p ∈ Operator.spellings.filter (!·.2.isNullCheck),
      ∀ t ∈ Text.caseVariants p.1,
        Token.lexed 0 t = ((Token.lexed 0 t).1, none)
          ∧ Token.symbols (Token.lexed 0 t).1 = [.operator p.2] := by
    decide
  have hmem : (b.lower, op)
      ∈ Operator.spellings.filter (!·.2.isNullCheck) :=
    List.mem_filter.2 ⟨hb, by simp [hop]⟩
  exact ⟨_, hall _ hmem b (Text.mem_caseVariants b)⟩

/-- In particular a bind operator is. -/
theorem spells_of_isBind {b : Text} {op : Operator}
    (hb : (b.lower, op) ∈ Operator.spellings) (hop : op.isBind = true) :
    Spells b [.operator op] := by
  refine spells_of_spelling hb ?_
  revert hop
  cases op <;> decide

-- ============================================================= the parser

namespace Node

theorem flatten_append (ns ms : List Node) :
    flatten (ns ++ ms) = flatten ns ++ flatten ms := by
  induction ns with
  | nil => rfl
  | cons n ns ih =>
      rw [List.cons_append, flatten, ih, flatten, List.append_assoc]

/-- The strict parser reads symbols, and nothing else of a text. -/
theorem parse_strict_iff_spells {t : Text} {ns : List Node} :
    parse .strict t = .ok ns ↔ Fits .start ns ∧ Spells t (flatten ns) := by
  have hread : ∀ {ts}, Token.lexed 0 t = (ts, none) →
      level Token.paren? 0 ts = some 0 →
        (parse .strict t = .ok ns
          ↔ Fits .start ns ∧ flatten ns = Token.symbols ts) := by
    intro ts hts hlevel
    unfold parse
    rw [parseAt_eq_ok_iff hts hlevel (Or.inr ⟨rfl, rfl⟩),
      Token.reading_eq hts hlevel]
    simp [Token.Opened.symbols]
  constructor
  · intro h
    obtain ⟨ts, hts, hlevel⟩ := exists_lexed_of_parseAt h
    obtain ⟨hfits, hflat⟩ := (hread hts hlevel).1 h
    exact ⟨hfits, ts, hts, hflat.symm⟩
  · intro h
    obtain ⟨hfits, ts, hts, hflat⟩ := h
    have hlevel : level Token.paren? 0 ts = some 0 := by
      rw [← Token.level_symbols, hflat]
      exact level_flatten ns 0
    exact (hread hts hlevel).2 ⟨hfits, hflat.symm⟩

variable {t u b : Text} {ns ms : List Node} {op : Operator}

/-- Two queries that are not empty, with a bind operator between them. -/
theorem parse_join (ht : parse .strict t = .ok ns)
    (hu : parse .strict u = .ok ms) (hns : ns ≠ []) (hms : ms ≠ [])
    (hb : Spells b [.operator op]) (hop : op.isBind = true) :
    parse .strict (t ++ ' ' :: b ++ ' ' :: u)
      = .ok (ns ++ .operator op :: ms) := by
  obtain ⟨hfits, ht⟩ := parse_strict_iff_spells.1 ht
  obtain ⟨hfits', hu⟩ := parse_strict_iff_spells.1 hu
  refine parse_strict_iff_spells.2 ⟨?_, ?_⟩
  · have hns := (fits_start_iff.1 hfits).resolve_left hns
    have hms := (fits_start_iff.1 hfits').resolve_left hms
    exact fits_start_iff.2 (Or.inr (.join hns hop hms))
  · rw [flatten_append, List.append_assoc]
    exact ht.space (hb.space hu)

/-- A query in parentheses. -/
theorem parse_enclosed (ht : parse .strict t = .ok ns) :
    parse .strict ('(' :: t ++ [')']) = .ok [.group ns] := by
  obtain ⟨hfits, ht⟩ := parse_strict_iff_spells.1 ht
  refine parse_strict_iff_spells.2 ⟨.group rfl hfits (.done rfl), ?_⟩
  have hflat : flatten [.group ns] = .opening :: (flatten ns ++ [.closing]) :=
    List.append_nil _
  rw [hflat]
  exact ht.enclosed

end Node
end FilterQuery
