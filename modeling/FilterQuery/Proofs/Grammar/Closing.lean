/-
Lenient reading as strict reading of a closed text. Let a query close no
more than it opens, and let it be closed by hand: its open literal by the
mark, then every open group by a parenthesis. If the closed query is one
of the language, then the open one is read in lenient mode as the same
tree, with the last word cut back to what the open query has of it.

That word is cut back too far in one situation, and
`parse_lenient_of_closed` says exactly in which. Where a literal is open
within an open group and the query ends in a closing parenthesis, that
character is part of the literal, but the group takes it for its own end
and drops it; so does each further group around it.
-/
import FilterQuery.Proofs.Grammar.Acceptance
import FilterQuery.Proofs.Token.Scan

namespace FilterQuery

open Grammar Nesting

namespace Text

private theorem length_dropClosing_le (k : Nat) (t : Text) :
    (t.dropClosing k).length ≤ t.length := by
  induction k generalizing t with
  | zero => exact Nat.le_refl _
  | succ k ih =>
      show ((t.dropTrailing ')').dropClosing k).length ≤ t.length
      exact Nat.le_trans (ih _) (length_dropTrailing_le ..)

private theorem dropClosing_eq_self_iff {k : Nat} {t : Text} :
    t.dropClosing k = t ↔ k = 0 ∨ t.getLast? ≠ some ')' := by
  constructor
  · intro h
    cases k with
    | zero => exact Or.inl rfl
    | succ k =>
        refine Or.inr fun hend => ?_
        obtain ⟨v, rfl⟩ := List.getLast?_eq_some_iff.1 hend
        rw [dropClosing_succ_append] at h
        have hlength := length_dropClosing_le k v
        rw [h, List.length_append, List.length_singleton] at hlength
        omega
  · intro h
    rcases h with rfl | h
    · rfl
    · exact dropClosing_of_getLast?_ne h k

end Text

namespace Node

-- ========================================================== the last word

variable (f : Text → Text)

mutual

/-- The node with the word that it ends in, if it ends in one, changed. -/
def editLast : Node → Node
  | .column name => .column (f name)
  | .operator op => .operator op
  | .value raw => .value (f raw)
  | .group children => .group (editLastIn children)

/-- The list with the word that it ends in, if it ends in one, changed. -/
def editLastIn : List Node → List Node
  | [] => []
  | [n] => [editLast n]
  | n :: m :: ns => n :: editLastIn (m :: ns)

end

variable {f}

/-- Behind a node the word at the end of a list is in the rest. -/
theorem flatten_cons_eq {n : Node} {ns : List Node} {ss : List Symbol}
    {w : Text} {k : Nat} (hns : ns ≠ [])
    (h : flatten (n :: ns)
      = ss ++ Symbol.word w :: List.replicate k .closing) :
    ∃ ss', ss = n.symbols ++ ss'
      ∧ flatten ns = ss' ++ Symbol.word w :: List.replicate k .closing := by
  unfold flatten at h
  rcases List.append_eq_append_iff.1 h with ⟨ss', hss, hrest⟩
    | ⟨us, hn, hrest⟩
  · exact ⟨ss', hss, hrest⟩
  · cases us with
    | nil => exact ⟨[], by simpa using hn.symm, by simpa using hrest.symm⟩
    | cons u us =>
        -- The rest would be nothing but closing parentheses, although it
        -- closes no more than it opens.
        obtain ⟨-, htail⟩ := List.cons.inj hrest
        exfalso
        have hlevel := level_flatten ns 0
        cases hflat : flatten ns with
        | nil => exact hns (flatten_eq_nil_iff.1 hflat)
        | cons s rest =>
            have hs : s = .closing := by
              apply List.eq_of_mem_replicate (n := k)
              rw [htail, hflat]
              simp
            have hp : Symbol.paren? s = some .closing := hs ▸ rfl
            rw [hflat, level_zero_cons_closing hp] at hlevel
            cases hlevel

/-- Within a group the word at the end is in the contents. -/
theorem flatten_group_eq {children : List Node} {ss : List Symbol}
    {w : Text} {k : Nat}
    (h : (Node.group children).symbols
      = ss ++ Symbol.word w :: List.replicate k .closing) :
    ∃ ss' k', ss = .opening :: ss' ∧ k = k' + 1
      ∧ flatten children
        = ss' ++ Symbol.word w :: List.replicate k' .closing := by
  unfold symbols at h
  rw [← List.cons_append] at h
  cases k with
  | zero =>
      obtain ⟨-, hlast⟩ := List.append_inj' h rfl
      cases hlast
  | succ k =>
      rw [List.replicate_succ', ← List.cons_append, ← List.append_assoc] at h
      obtain ⟨hfront, -⟩ := List.append_inj' h rfl
      cases ss with
      | nil => cases hfront
      | cons s ss =>
          obtain ⟨rfl, hflat⟩ := List.cons.inj hfront
          exact ⟨ss, k, rfl, rfl, hflat⟩

mutual

theorem symbols_editLast (n : Node) {ss : List Symbol} {w : Text} {k : Nat}
    (h : n.symbols = ss ++ Symbol.word w :: List.replicate k .closing) :
    (n.editLast f).symbols
      = ss ++ Symbol.word (f w) :: List.replicate k .closing := by
  cases n with
  | column name =>
      obtain ⟨rfl, rfl, rfl⟩ := by
        simpa [symbols, List.cons_eq_append_iff] using h
      rfl
  | operator op =>
      simp [symbols, List.cons_eq_append_iff] at h
  | value raw =>
      obtain ⟨rfl, rfl, rfl⟩ := by
        simpa [symbols, List.cons_eq_append_iff] using h
      rfl
  | group children =>
      obtain ⟨ss', k', rfl, rfl, hflat⟩ := flatten_group_eq h
      unfold editLast symbols
      rw [flatten_editLastIn children hflat, List.replicate_succ']
      simp

/-- The word at the end is changed, and no other symbol. -/
theorem flatten_editLastIn (ns : List Node) {ss : List Symbol} {w : Text}
    {k : Nat}
    (h : flatten ns = ss ++ Symbol.word w :: List.replicate k .closing) :
    flatten (editLastIn f ns)
      = ss ++ Symbol.word (f w) :: List.replicate k .closing := by
  match ns with
  | [] => simp [flatten] at h
  | [n] =>
      have hn := symbols_editLast n (by simpa [flatten] using h)
      simpa [editLastIn, flatten] using hn
  | n :: m :: ns =>
      obtain ⟨ss', rfl, hrest⟩ := flatten_cons_eq (List.cons_ne_nil m ns) h
      have hrest := flatten_editLastIn (m :: ns) hrest
      unfold editLastIn flatten
      rw [hrest, List.append_assoc]

end

/-- Words change no shape. -/
theorem fits_editLastIn {slot : Slot} {ns : List Node}
    (h : Fits slot ns) : Fits slot (editLastIn f ns) := by
  induction h with
  | done h => exact .done h
  | @column slot name ns h hns ih =>
      cases ns with
      | nil => exact .column h hns
      | cons m ns => exact .column h ih
  | @group slot children ns h hc hns ihc ih =>
      cases ns with
      | nil => exact .group h ihc hns
      | cons m ns => exact .group h hc ih
  | @nullCheck op ns h hns ih =>
      cases ns with
      | nil => exact .nullCheck h hns
      | cons m ns => exact .nullCheck h ih
  | @comparison op ns h hn hns ih =>
      cases ns with
      | nil => exact .comparison h hn hns
      | cons m ns => exact .comparison h hn ih
  | @value raw ns hns ih =>
      cases ns with
      | nil => exact .value hns
      | cons m ns => exact .value ih
  | @bind op ns h hns ih =>
      cases ns with
      | nil => exact .bind h hns
      | cons m ns => exact .bind h ih

end Node

-- ======================================================== the closed query

namespace Token

/-- The word that an open literal is once its mark closes it. -/
def Opened.closed : Opened → List Symbol
  | none => []
  | some (quote, opened) => [.word (opened.text ++ [quote])]

private theorem symbols_replicate_closing {cs : List Token}
    (h : ∀ c ∈ cs, c.isClosing = true) :
    symbols cs = List.replicate cs.length .closing := by
  induction cs with
  | nil => rfl
  | cons c cs ih =>
      have hc := h c (List.mem_cons_self ..)
      rw [symbols_cons (isBlank_of_paren? (paren?_eq_closing.2 hc)),
        Symbol.ofToken_closing hc,
        ih fun d hd => h d (List.mem_cons_of_mem _ hd)]
      rfl

/-- A text closed by hand has the tokens of the text, the literal that was
open, and the parentheses. -/
theorem lexed_closing {base k : Nat} {t : Text} {ts : List Token}
    {last : Opened} (h : lexed base t = (ts, last)) :
    ∃ us, lexed base (t ++ Scan.closing ⟨last.map Prod.fst, k⟩)
        = (us, none)
      ∧ symbols us = symbols ts ++ last.closed
          ++ List.replicate k .closing := by
  have hlast := (isUngrouped_of_mem_lexed h).2
  -- First the mark, then the parentheses.
  have hmark : ∃ vs, lexed base (t ++ (last.map Prod.fst).toList)
        = (vs, none) ∧ symbols vs = symbols ts ++ last.closed := by
    obtain _ | ⟨quote, opened⟩ := last
    · exact ⟨ts, by simpa using h, by simp [Opened.closed]⟩
    · obtain ⟨mark, htext, hlexed⟩ := lexed_append_mark h
      obtain ⟨hquote, v, hopened, -⟩ := hlast
      have hword : symbols [opened.absorb mark]
          = [.word (opened.text ++ [quote])] := by
        rw [symbols_quoted (v := v ++ [quote])
          (by rw [hopened]; rfl) (by rw [hopened]; simp [absorb, htext])
          hquote]
        simp [absorb, htext]
      exact ⟨_, hlexed, by rw [symbols_append, hword]; rfl⟩
  obtain ⟨vs, hvs, hsymbols⟩ := hmark
  obtain ⟨cs, rfl, hcs, hlexed⟩ := lexed_append_replicate hvs k
  refine ⟨vs ++ cs, ?_, ?_⟩
  · rw [← hlexed]
    simp [Scan.closing]
  · rw [symbols_append, hsymbols, symbols_replicate_closing hcs]

end Token

-- ============================================================= the parser

namespace Scan

/-- What the tree of a closed query says about the open one. Where a mark
was appended, it is taken off the last word again, and `cut` is what
happens to the rest of that word. -/
def reopen (s : Scan) (cut : Text → Text) (ns : List Node) : List Node :=
  match s.quote with
  | none => ns
  | some _ => Node.editLastIn (fun w => cut w.dropLast) ns

end Scan

namespace Node

open Token

/-- How the word that was open must be cut for the open query to be read as
the reopened tree. -/
theorem parse_reopen_iff {q : Text} {ts : List Token} {last : Opened}
    {k : Nat} (h : lexed 0 q = (ts, last))
    (hk : level paren? 0 ts = some k) {ns : List Node}
    (hns : parse .strict (q ++ Scan.closing ⟨last.map Prod.fst, k⟩)
      = .ok ns) (cut : Text → Text) :
    parse .lenient q
        = .ok (Scan.reopen ⟨last.map Prod.fst, k⟩ cut ns)
      ↔ ∀ quote opened, last = some (quote, opened) →
          cut opened.text = opened.text.dropClosing k := by
  obtain ⟨us, hus, hsymbols⟩ := lexed_closing (k := k) h
  have hlevel : level paren? 0 us = some 0 := by
    obtain ⟨us', hus', hlevel⟩ := exists_lexed_of_parseAt hns
    rw [hus] at hus'
    obtain ⟨rfl, -⟩ := Prod.mk.inj hus'
    exact hlevel
  obtain ⟨hfits, hflat⟩ :=
    (parseAt_eq_ok_iff hus hlevel (Or.inr ⟨rfl, rfl⟩) ns).1 hns
  rw [reading_eq hus hlevel, hsymbols] at hflat
  unfold parse
  rw [parseAt_eq_ok_iff h hk (Or.inl rfl), reading_eq h hk]
  obtain _ | ⟨quote, opened⟩ := last
  · simpa [Scan.reopen, hfits, Opened.symbols, Opened.closed] using hflat
  · have hflat : flatten ns = Token.symbols ts
        ++ .word (opened.text ++ [quote]) :: List.replicate k .closing := by
      simpa [Opened.symbols, Opened.closed] using hflat
    -- The word of the open literal is the last one, and the only one that is
    -- edited.
    have hedit : flatten (Scan.reopen ⟨some quote, k⟩ cut ns)
        = Token.symbols ts
          ++ .word (cut opened.text) :: List.replicate k .closing := by
      have hword := flatten_editLastIn (f := fun w => cut w.dropLast) ns hflat
      rwa [List.dropLast_concat] at hword
    have hreopen : Fits .start (Scan.reopen ⟨some quote, k⟩ cut ns) :=
      fits_editLastIn hfits
    constructor
    · intro hread quote' opened' heq
      obtain ⟨-, hread⟩ := hread
      obtain ⟨rfl, rfl⟩ := Prod.mk.inj (Option.some.inj heq)
      have hwords := hedit.symm.trans hread
      simpa [Opened.symbols] using hwords
    · intro hcut
      refine ⟨hreopen, hedit.trans ?_⟩
      rw [hcut quote opened rfl]
      simp [Opened.symbols]

/-- Closing a query by hand and reading it in strict mode is reading it in
lenient mode, if the closing mark is taken off its last word again. The
one exception is a literal left open within an open group by a query that
ends in a closing parenthesis: there the word also loses the parentheses
that it ends in, at most one for each open group. -/
theorem parse_lenient_of_closed {q : Text} {s : Scan}
    (hs : scan q = some s) {ns : List Node}
    (hns : parse .strict (q ++ s.closing) = .ok ns) :
    parse .lenient q = .ok (s.reopen (Text.dropClosing s.depth) ns)
      ∧ (parse .lenient q = .ok (s.reopen id ns)
        ↔ ¬(s.quote.isSome ∧ 0 < s.depth ∧ q.getLast? = some ')')) := by
  rcases h : lexed 0 q with ⟨ts, last⟩
  rw [scan_eq h] at hs
  obtain ⟨k, hk, rfl⟩ := Option.map_eq_some_iff.1 hs
  refine ⟨(parse_reopen_iff h hk hns _).2 fun _ _ _ => rfl, ?_⟩
  rw [parse_reopen_iff h hk hns id]
  obtain _ | ⟨quote, opened⟩ := last
  · simp
  · -- The query ends as the open literal does, which is not empty.
    have hend : q.getLast? = opened.text.getLast? := by
      obtain ⟨-, v, hopened, -⟩ := (isUngrouped_of_mem_lexed h).2
      have hne : opened.text ≠ [] := by
        rw [hopened]
        exact List.cons_ne_nil quote v
      rw [← content_lexed h]
      simp [Opened.tokens, List.getLast?_append_of_ne_nil _ hne]
    have hcut : (∀ quote' opened', some (quote, opened)
          = some (quote', opened') →
        id opened'.text = opened'.text.dropClosing k)
          ↔ opened.text.dropClosing k = opened.text := by
      constructor
      · exact fun hcut => (hcut quote opened rfl).symm
      · intro hcut quote' opened' heq
        obtain ⟨rfl, rfl⟩ := Prod.mk.inj (Option.some.inj heq)
        exact hcut.symm
    rw [hcut, Text.dropClosing_eq_self_iff, hend]
    constructor
    · intro hkept hlossy
      obtain ⟨-, hdepth, hparen⟩ := hlossy
      rcases hkept with rfl | hlast
      · exact absurd hdepth (Nat.lt_irrefl 0)
      · exact hlast hparen
    · intro hkept
      rcases Nat.eq_zero_or_pos k with hdepth | hdepth
      · exact Or.inl hdepth
      · exact Or.inr fun hparen => hkept ⟨rfl, hdepth, hparen⟩

/-- In `(a = "b)` the literal loses its last character. -/
theorem parse_lenient_of_closed_lossy :
    scan "(a = \"b)".toList = some ⟨some '"', 1⟩
      ∧ parse .strict "(a = \"b)\")".toList
        = .ok [.group [.column ['a'], .operator .eq,
            .value "\"b)\"".toList]]
      ∧ parse .lenient "(a = \"b)".toList
        = .ok [.group [.column ['a'], .operator .eq,
            .value "\"b".toList]]
      ∧ parse .lenient "(a = \"b)".toList
        ≠ .ok [.group [.column ['a'], .operator .eq,
            .value "\"b)".toList]] := by
  have hscan : scan "(a = \"b)".toList = some ⟨some '"', 1⟩ := by decide
  have hstrict : parse .strict "(a = \"b)\")".toList
      = .ok [.group [.column ['a'], .operator .eq,
          .value "\"b)\"".toList]] := by
    refine (@parseAt_eq_ok_iff .strict 0 0 _ _ none rfl (by decide)
      (Or.inr ⟨rfl, rfl⟩) _).2 ⟨?_, by decide⟩
    exact .group rfl
      (.column rfl (.comparison rfl rfl (.value (.done rfl)))) (.done rfl)
  obtain ⟨hlossy, hkept⟩ := parse_lenient_of_closed hscan hstrict
  refine ⟨hscan, hstrict, hlossy, ?_⟩
  intro hread
  exact hkept.1 hread ⟨rfl, Nat.one_pos, rfl⟩

end Node
end FilterQuery
