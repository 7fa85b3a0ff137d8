/-
Tokens as symbols of the grammar, and the filling of slots. The parser
never sees the plain token stream of a query: it joins groups into single
tokens and reads their contents again, level by level. The bridge is
`fillFrom_eq_ok_iff`. Filling slots from joined tokens does what the
grammar says about the symbols they stand for, provided that reading the
contents of groups does.

Reading them ends because the contents of every group among the tokens of a
text are shorter than the text. So the guard in `Node.parseAt` never bites,
and `Node.parseAt_eq` is the recursion without it.
-/
import Mathlib.Data.List.Forall2
import FilterQuery.Proofs.Grammar.WellFormed
import FilterQuery.Proofs.Token.Interior

namespace FilterQuery

open Grammar Nesting

-- ================================================== contents of groups

namespace Grammar

variable {contents contents' : Token → Except QueryError (List Node)}

/-- A slot asks for contents only where a group is to fill it. -/
private theorem Slot.fill_congr {t : Token}
    (h : t.kind = .group → contents t = contents' t) (slot : Slot) :
    slot.fill contents t = slot.fill contents' t := by
  by_cases hkind : t.kind = .group
  · unfold Slot.fill
    rw [h hkind]
  · have hreading : Reading.ofToken t ≠ .group := by
      unfold Reading.ofToken
      split
      · contradiction
      · simp
      · split <;> simp
      · split <;> simp
    unfold Slot.fill
    cases slot <;> cases hr : Reading.ofToken t <;> simp_all

/-- Only the contents of groups among the tokens matter. -/
theorem fillFrom_congr {ts : List Token}
    (h : ∀ t ∈ ts, t.kind = .group → contents t = contents' t)
    (slot : Slot) :
    fillFrom contents slot ts = fillFrom contents' slot ts := by
  induction ts generalizing slot with
  | nil => rfl
  | cons t ts ih =>
      have ht := h t (List.mem_cons_self ..)
      have hts := ih fun u hu => h u (List.mem_cons_of_mem _ hu)
      unfold fillFrom
      rw [Slot.fill_congr ht]
      congr 1
      funext ⟨node, next⟩
      simp only [hts next]

end Grammar

namespace Node

/-- The nodes of a text are those of its tokens. -/
theorem parseAt_eq (mode : Mode) (base : Nat) (text : Text) :
    parseAt mode base text
      = (Token.tokenizeAt mode base text >>= ofTokens mode) := by
  rw [parseAt]
  cases h : Token.tokenizeAt mode base text with
  | error e => rfl
  | ok ts =>
      show Grammar.read _ ts = Grammar.read _ ts
      refine Grammar.fillFrom_congr (fun t ht hkind => ?_) _
      exact if_pos
        (Token.length_interior_lt h (List.mem_filter.1 ht).1 hkind)

/-- What holds of a text if it holds of the contents of its groups holds of
every text. -/
theorem contents_induction (mode : Mode) {motive : Nat → Text → Prop}
    (step : ∀ base text,
      (∀ gs, Token.tokenizeAt mode base text = .ok gs → ∀ g ∈ gs,
        g.kind = .group → motive (g.offset + 1) g.interior) →
      motive base text)
    (base : Nat) (text : Text) : motive base text := by
  induction hn : text.length using Nat.strongRecOn generalizing base text with
  | _ n ih =>
      subst hn
      refine step base text fun gs hgs g hg hgroup => ?_
      exact ih _ (Token.length_interior_lt hgs hg hgroup) _ _ rfl

end Node
-- ===================================================== tokens as symbols

namespace Symbol

/-- The tokens that a symbol is written as. A quoted token is a word
whatever it holds; any other is what its text says. -/
def Matches (s : Symbol) (t : Token) : Prop :=
  match s with
  | .opening => t.isOpening = true
  | .closing => t.isClosing = true
  | .operator op =>
      (t.kind = .text ∨ t.kind = .delimiter)
        ∧ Operator.parse? t.text = some op
  | .word text =>
      t.text = text ∧ (t.kind = .quoted
        ∨ (t.kind = .text ∨ t.kind = .delimiter)
          ∧ Operator.parse? t.text = none
          ∧ t.isOpening = false ∧ t.isClosing = false)

/-- The symbol that a token is. -/
def ofToken (t : Token) : Symbol :=
  match t.paren? with
  | some .opening => .opening
  | some .closing => .closing
  | none =>
      match Reading.ofToken t with
      | .operator op => .operator op
      | .word | .group => .word t.text

@[simp] theorem paren?_ofToken (t : Token) :
    (ofToken t).paren? = t.paren? := by
  unfold ofToken
  cases t.paren? with
  | some p => cases p <;> rfl
  | none => cases Reading.ofToken t <;> rfl

theorem ofToken_opening {t : Token} (h : t.isOpening = true) :
    ofToken t = .opening := by
  unfold ofToken
  rw [Token.paren?_eq_opening.2 h]

theorem ofToken_closing {t : Token} (h : t.isClosing = true) :
    ofToken t = .closing := by
  unfold ofToken
  rw [Token.paren?_eq_closing.2 h]

/-- A token matches the symbol that it is, and no other. -/
theorem matches_iff {s : Symbol} {t : Token} (h : t.kind ≠ .group) :
    s.Matches t ↔ s = ofToken t := by
  cases hp : t.paren? with
  | some p =>
      -- A parenthesis is a delimiter and spells no operator.
      cases p with
      | opening =>
          have ho := Token.paren?_eq_opening.1 hp
          have hc := Token.isClosing_of_isOpening ho
          have hkind := Token.kind_of_isOpening ho
          have hop : Operator.parse? t.text = none := by
            rw [Token.text_of_isOpening ho]
            decide
          rw [ofToken_opening ho]
          cases s <;> simp [Matches, ho, hc, hkind, hop]
      | closing =>
          have hc := Token.paren?_eq_closing.1 hp
          have ho := Token.isOpening_of_isClosing hc
          have hkind := Token.kind_of_isClosing hc
          have hop : Operator.parse? t.text = none := by
            rw [Token.text_of_isClosing hc]
            decide
          rw [ofToken_closing hc]
          cases s <;> simp [Matches, ho, hc, hkind, hop]
  | none =>
      obtain ⟨ho, hc⟩ := Token.paren?_eq_none.1 hp
      unfold ofToken
      rw [hp]
      cases hkind : t.kind with
      | group => exact absurd hkind h
      | quoted =>
          cases s <;> simp [Matches, Reading.ofToken, hkind, ho, hc, eq_comm]
      | text =>
          cases hop : Operator.parse? t.text <;> cases s <;>
            simp [Matches, Reading.ofToken, hkind, hop, ho, hc, eq_comm]
      | delimiter =>
          cases hop : Operator.parse? t.text <;> cases s <;>
            simp [Matches, Reading.ofToken, hkind, hop, ho, hc, eq_comm]

/-- Symbols match tokens one by one exactly when they are the symbols of
the tokens. -/
theorem forall₂_matches_iff {ss : List Symbol} {ts : List Token}
    (h : ∀ t ∈ ts, t.kind ≠ .group) :
    List.Forall₂ Matches ss ts ↔ ss = ts.map ofToken := by
  induction ts generalizing ss with
  | nil => simp
  | cons t ts ih =>
      have ht := h t (List.mem_cons_self ..)
      have hts := fun u hu => h u (List.mem_cons_of_mem _ hu)
      cases ss with
      | nil => simp
      | cons s ss =>
          rw [List.forall₂_cons, matches_iff ht, ih hts, List.map_cons,
            List.cons.injEq]

end Symbol

namespace Token

/-- The symbols of tokens, blank ones left out. -/
def symbols (ts : List Token) : List Symbol :=
  (ts.filter (!·.isBlank)).map Symbol.ofToken

@[simp] theorem symbols_nil : symbols [] = [] := rfl

/-- Tokens are symbols one by one. -/
theorem symbols_append (ts us : List Token) :
    symbols (ts ++ us) = symbols ts ++ symbols us := by
  simp [symbols]

theorem symbols_cons {t : Token} (h : t.isBlank = false) (ts : List Token) :
    symbols (t :: ts) = Symbol.ofToken t :: symbols ts := by
  simp [symbols, h]

/-- No parenthesis is blank. -/
theorem isBlank_of_paren? {t : Token} {p : Paren} (h : t.paren? = some p) :
    t.isBlank = false := by
  cases p with
  | opening =>
      unfold isBlank
      rw [text_of_isOpening (paren?_eq_opening.1 h)]
      decide
  | closing =>
      unfold isBlank
      rw [text_of_isClosing (paren?_eq_closing.1 h)]
      decide

theorem isBlank_grouped {o : Token} (h : o.isOpening = true)
    (ts : List Token) : (grouped o ts).isBlank = false := by
  simp [isBlank, grouped, text_of_isOpening h, Text.isBlank,
    show isWhiteSpace '(' = false by decide]

/-- Blank tokens do not count for the depth. -/
theorem level_symbols (d : Nat) (ts : List Token) :
    level Symbol.paren? d (symbols ts) = level paren? d ts := by
  have hcomp : Symbol.paren? ∘ Symbol.ofToken = paren? := by
    funext t
    exact Symbol.paren?_ofToken t
  unfold symbols
  rw [level_map, hcomp]
  refine level_filter d ts fun t _ ht => ?_
  cases hp : t.paren? with
  | none => rfl
  | some p =>
      rw [isBlank_of_paren? hp] at ht
      cases ht

end Token

-- ========================================================= filling slots

namespace Grammar

variable {contents : Token → Except QueryError (List Node)}

/-- Tokens fill slots one after another. -/
theorem fillFrom_cons_eq_ok {slot : Slot} {t : Token} {ts : List Token}
    {ns : List Node} :
    fillFrom contents slot (t :: ts) = .ok ns
      ↔ ∃ n next rest, slot.fill contents t = .ok (n, next)
          ∧ fillFrom contents next ts = .ok rest ∧ ns = n :: rest := by
  rw [fillFrom]
  cases hfill : slot.fill contents t with
  | error e => simp [bind, Except.bind]
  | ok filled =>
      obtain ⟨n, next⟩ := filled
      cases hrest : fillFrom contents next ts with
      | error e => simp [bind, Except.bind, hrest]
      | ok rest =>
          simp [bind, Except.bind, pure, Except.pure, hrest, eq_comm]

/-- Nothing is read from nothing, if nothing more is needed. -/
theorem fillFrom_nil_eq_ok {slot : Slot} {ns : List Node} :
    fillFrom contents slot [] = .ok ns
      ↔ slot.missing? = none ∧ ns = [] := by
  unfold fillFrom
  cases slot.missing? <;> simp [eq_comm]

/-- What is read as a word or an operator is that symbol. -/
theorem ofToken_of_reading {t : Token} (hp : t.paren? = none) :
    (Reading.ofToken t = .word → Symbol.ofToken t = .word t.text)
      ∧ ∀ op, Reading.ofToken t = .operator op →
          Symbol.ofToken t = .operator op := by
  constructor
  · intro hr
    simp [Symbol.ofToken, hp, hr]
  · intro op hr
    simp [Symbol.ofToken, hp, hr]

theorem reading_ne_group {t : Token} (h : t.kind ≠ .group) :
    Reading.ofToken t ≠ .group := by
  unfold Reading.ofToken
  split
  · contradiction
  · simp
  · split <;> simp
  · split <;> simp

theorem reading_eq_group {t : Token} (h : t.kind = .group) :
    Reading.ofToken t = .group := by
  simp [Reading.ofToken, h]

/-- A word is a column where a term starts, and a value where one is due. -/
theorem fill_word_eq_ok {slot next : Slot} {t : Token} {n : Node}
    (hr : Reading.ofToken t = .word) :
    slot.fill contents t = .ok (n, next)
      ↔ (slot.startsTerm = true ∧ n = .column t.text ∧ next = .comparison)
        ∨ (slot = .value ∧ n = .value t.text ∧ next = .bind) := by
  unfold Slot.fill
  cases slot <;> simp [hr, Slot.startsTerm, eq_comm]

/-- An operator compares behind a column, and joins behind a term. -/
theorem fill_operator_eq_ok {slot next : Slot} {t : Token} {n : Node}
    {op : Operator} (hr : Reading.ofToken t = .operator op) :
    slot.fill contents t = .ok (n, next)
      ↔ n = .operator op
        ∧ ((slot = .comparison ∧ op.isNullCheck = true ∧ next = .bind)
          ∨ (slot = .comparison ∧ op.isComparison = true
            ∧ op.isNullCheck = false ∧ next = .value)
          ∨ (slot = .bind ∧ op.isBind = true ∧ next = .term)) := by
  unfold Slot.fill
  cases slot with
  | comparison =>
      cases hn : op.isNullCheck with
      | true => simp [hr, hn, @eq_comm _ n, @eq_comm _ next]
      | false =>
          cases hc : op.isComparison <;>
            simp [hr, hn, hc, @eq_comm _ n, @eq_comm _ next]
  | bind =>
      cases hb : op.isBind <;>
        simp [hr, hb, @eq_comm _ n, @eq_comm _ next]
  | _ => simp [hr]

/-- A token that is no group fills a slot with the node whose one symbol
it is, and the rest fits the slot that follows. -/
theorem fits_cons_iff_of_plain {slot : Slot} {t : Token} {n : Node}
    {ns : List Node} (hkind : t.kind ≠ .group) (hp : t.paren? = none) :
    (Fits slot (n :: ns) ∧ n.symbols = [Symbol.ofToken t])
      ↔ ∃ next, slot.fill contents t = .ok (n, next) ∧ Fits next ns := by
  obtain ⟨hword, hoperator⟩ := ofToken_of_reading hp
  cases hr : Reading.ofToken t with
  | group => exact absurd hr (reading_ne_group hkind)
  | word =>
      simp only [fill_word_eq_ok hr, hword hr]
      constructor
      · intro h
        obtain ⟨hfits, hsym⟩ := h
        cases hfits with
        | column h hns =>
            obtain rfl : _ = t.text := by simpa [Node.symbols] using hsym
            exact ⟨_, Or.inl ⟨h, rfl, rfl⟩, hns⟩
        | value hns =>
            obtain rfl : _ = t.text := by simpa [Node.symbols] using hsym
            exact ⟨_, Or.inr ⟨rfl, rfl, rfl⟩, hns⟩
        | group => simp [Node.symbols] at hsym
        | nullCheck => simp [Node.symbols] at hsym
        | comparison => simp [Node.symbols] at hsym
        | bind => simp [Node.symbols] at hsym
      · intro h
        obtain ⟨next, ⟨h, rfl, rfl⟩ | ⟨rfl, rfl, rfl⟩, hns⟩ := h
        · exact ⟨.column h hns, rfl⟩
        · exact ⟨.value hns, rfl⟩
  | operator op =>
      simp only [fill_operator_eq_ok hr, hoperator op hr]
      constructor
      · intro h
        obtain ⟨hfits, hsym⟩ := h
        -- Nothing but an operator is written as one.
        have hn : n = .operator op := by
          cases n with
          | operator op' => simpa [Node.symbols] using hsym
          | _ => simp [Node.symbols] at hsym
        subst hn
        cases hfits with
        | nullCheck h hns => exact ⟨_, ⟨rfl, Or.inl ⟨rfl, h, rfl⟩⟩, hns⟩
        | comparison h hn hns =>
            exact ⟨_, ⟨rfl, Or.inr (Or.inl ⟨rfl, h, hn, rfl⟩)⟩, hns⟩
        | bind h hns =>
            exact ⟨_, ⟨rfl, Or.inr (Or.inr ⟨rfl, h, rfl⟩)⟩, hns⟩
      · intro h
        obtain ⟨next, ⟨rfl, hslot⟩, hns⟩ := h
        rcases hslot with ⟨rfl, h, rfl⟩ | ⟨rfl, h, hn, rfl⟩ | ⟨rfl, h, rfl⟩
        · exact ⟨.nullCheck h hns, rfl⟩
        · exact ⟨.comparison h hn hns, rfl⟩
        · exact ⟨.bind h hns, rfl⟩

/-- A group is a term, if its contents can be read. -/
theorem fill_group_eq_ok {slot next : Slot} {t : Token} {n : Node}
    (hkind : t.kind = .group) :
    slot.fill contents t = .ok (n, next)
      ↔ slot.startsTerm = true ∧ next = .bind
        ∧ ∃ children, contents t = .ok children ∧ n = .group children := by
  have hreading := reading_eq_group hkind
  unfold Slot.fill
  cases hc : contents t with
  | error e => cases slot <;> simp [hreading, bind, Except.bind]
  | ok children =>
      cases slot <;>
        simp [hreading, Slot.startsTerm, bind, Except.bind, pure,
          Except.pure, and_comm, eq_comm]

/-- The symbols that a joined token stands for; `inner` gives those of the
contents of groups. -/
def spelled (inner : Token → List Symbol) (t : Token) : List Symbol :=
  if t.kind = .group then .opening :: (inner t ++ [.closing])
  else [Symbol.ofToken t]

private theorem spelled_group {inner : Token → List Symbol} {t : Token}
    (h : t.kind = .group) :
    spelled inner t = .opening :: (inner t ++ [.closing]) := if_pos h

private theorem spelled_plain {inner : Token → List Symbol} {t : Token}
    (h : t.kind ≠ .group) : spelled inner t = [Symbol.ofToken t] := if_neg h

/-- Every node is written with something. -/
theorem flatten_eq_nil_iff {ns : List Node} :
    Node.flatten ns = [] ↔ ns = [] := by
  cases ns with
  | nil => simp [Node.flatten]
  | cons n ns => cases n <;> simp [Node.flatten, Node.symbols]

/-- A group is told from its symbols: what is between its parentheses are
its children. -/
private theorem flatten_eq_group {n : Node} {ns : List Node}
    {ss rest : List Symbol} (hss : level Symbol.paren? 0 ss = some 0)
    (h : Node.flatten (n :: ns)
      = Symbol.opening :: (ss ++ [Symbol.closing]) ++ rest) :
    ∃ children, n = .group children ∧ Node.flatten children = ss
      ∧ Node.flatten ns = rest := by
  cases n with
  | column name => simp [Node.flatten, Node.symbols] at h
  | operator op => simp [Node.flatten, Node.symbols] at h
  | value raw => simp [Node.flatten, Node.symbols] at h
  | group children =>
      have hbody : Node.flatten children ++ .closing :: Node.flatten ns
          = ss ++ .closing :: rest := by
        simpa [Node.flatten, Node.symbols] using h
      have hchildren : Node.flatten children = ss :=
        eq_of_level_zero rfl rfl (Node.level_flatten children 0) hss hbody
      rw [hchildren] at hbody
      have hrest := List.append_cancel_left hbody
      exact ⟨children, rfl, hchildren, (List.cons.inj hrest).2⟩

/-- A node that starts with a symbol that is no parenthesis is no more
than that symbol. -/
private theorem flatten_eq_plain {n : Node} {ns : List Node} {s : Symbol}
    {rest : List Symbol} (hs : s.paren? = none)
    (h : Node.flatten (n :: ns) = s :: rest) :
    n.symbols = [s] ∧ Node.flatten ns = rest := by
  cases n with
  | column name => simpa [Node.flatten, Node.symbols] using h
  | operator op => simpa [Node.flatten, Node.symbols] using h
  | value raw => simpa [Node.flatten, Node.symbols] using h
  | group children =>
      obtain ⟨rfl, -⟩ := List.cons.inj h
      cases hs

/-- Reading the symbols of a group, and then the rest, is filling a slot
from the group, and reading the rest from the slot that follows. -/
private theorem reads_group {t : Token} {inner : Token → List Symbol}
    (hkind : t.kind = .group)
    (hlevel : level Symbol.paren? 0 (inner t) = some 0)
    (hinner : ∀ children, contents t = .ok children
      ↔ Fits .start children ∧ Node.flatten children = inner t)
    {slot : Slot} {ns : List Node} {rest : List Symbol} :
    (Fits slot ns ∧ Node.flatten ns = spelled inner t ++ rest)
      ↔ ∃ n next ms, slot.fill contents t = .ok (n, next)
          ∧ (Fits next ms ∧ Node.flatten ms = rest) ∧ ns = n :: ms := by
  rw [spelled_group hkind]
  constructor
  · intro h
    obtain ⟨hfits, hflat⟩ := h
    cases ns with
    | nil => simp [Node.flatten] at hflat
    | cons n ns =>
        obtain ⟨children, rfl, hflat, hrest⟩ :=
          flatten_eq_group hlevel hflat
        cases hfits with
        | group hslot hc hns =>
            refine ⟨.group children, .bind, ns, ?_, ⟨hns, hrest⟩, rfl⟩
            exact (fill_group_eq_ok hkind).2
              ⟨hslot, rfl, children, (hinner children).2 ⟨hc, hflat⟩, rfl⟩
  · intro h
    obtain ⟨n, next, ms, hfill, ⟨hfits, rfl⟩, rfl⟩ := h
    obtain ⟨hslot, rfl, children, hc, rfl⟩ :=
      (fill_group_eq_ok hkind).1 hfill
    obtain ⟨hchildren, hflat⟩ := (hinner children).1 hc
    refine ⟨.group hslot hchildren hfits, ?_⟩
    rw [Node.flatten, Node.symbols, hflat]

/-- The same for a token that is its own symbol. -/
private theorem reads_plain {t : Token} {inner : Token → List Symbol}
    (hkind : t.kind ≠ .group) (hp : t.paren? = none)
    {slot : Slot} {ns : List Node} {rest : List Symbol} :
    (Fits slot ns ∧ Node.flatten ns = spelled inner t ++ rest)
      ↔ ∃ n next ms, slot.fill contents t = .ok (n, next)
          ∧ (Fits next ms ∧ Node.flatten ms = rest) ∧ ns = n :: ms := by
  rw [spelled_plain hkind]
  constructor
  · intro h
    obtain ⟨hfits, hflat⟩ := h
    cases ns with
    | nil => simp [Node.flatten] at hflat
    | cons n ns =>
        obtain ⟨hsym, hrest⟩ := flatten_eq_plain
          ((Symbol.paren?_ofToken t).trans hp) hflat
        obtain ⟨next, hfill, hnext⟩ :=
          (fits_cons_iff_of_plain hkind hp).1 ⟨hfits, hsym⟩
        exact ⟨n, next, ns, hfill, ⟨hnext, hrest⟩, rfl⟩
  · intro h
    obtain ⟨n, next, ms, hfill, ⟨hnext, rfl⟩, rfl⟩ := h
    obtain ⟨hfits, hsym⟩ :=
      (fits_cons_iff_of_plain hkind hp).2 ⟨next, hfill, hnext⟩
    refine ⟨hfits, ?_⟩
    rw [Node.flatten, hsym]

/-- Filling slots from joined tokens is reading their symbols by the
grammar, if that is what reading the contents of groups is. -/
theorem fillFrom_eq_ok_iff {ts : List Token} {inner : Token → List Symbol}
    (hplain : ∀ t ∈ ts, t.kind ≠ .group → t.paren? = none)
    (hlevel : ∀ t ∈ ts, t.kind = .group →
      level Symbol.paren? 0 (inner t) = some 0)
    (hinner : ∀ t ∈ ts, t.kind = .group → ∀ children,
      contents t = .ok children
        ↔ Fits .start children ∧ Node.flatten children = inner t)
    (slot : Slot) (ns : List Node) :
    fillFrom contents slot ts = .ok ns
      ↔ Fits slot ns ∧ Node.flatten ns = ts.flatMap (spelled inner) := by
  induction ts generalizing slot ns with
  | nil =>
      rw [fillFrom_nil_eq_ok, List.flatMap_nil, flatten_eq_nil_iff]
      constructor
      · intro h
        obtain ⟨h, rfl⟩ := h
        exact ⟨.done h, rfl⟩
      · intro h
        obtain ⟨h, rfl⟩ := h
        cases h with
        | done h => exact ⟨h, rfl⟩
  | cons t ts ih =>
      have ih := ih (fun u hu => hplain u (List.mem_cons_of_mem _ hu))
        (fun u hu => hlevel u (List.mem_cons_of_mem _ hu))
        (fun u hu => hinner u (List.mem_cons_of_mem _ hu))
      have hmem : t ∈ t :: ts := List.mem_cons_self ..
      rw [fillFrom_cons_eq_ok, List.flatMap_cons]
      simp only [ih]
      by_cases hkind : t.kind = .group
      · exact (reads_group hkind (hlevel t hmem hkind)
          (hinner t hmem hkind)).symm
      · exact (reads_plain hkind (hplain t hmem hkind)).symm

end Grammar

-- ================================================= symbols of joined tokens

namespace Token

/-- A quoted stretch, be it closed or not, is a word. -/
theorem symbols_quoted {t : Token} {quote : Char} {v : Text}
    (hkind : t.kind = .quoted) (htext : t.text = quote :: v)
    (hquote : isQuoteMark quote = true) :
    symbols [t] = [.word t.text] := by
  have hsolid := isWhiteSpace_of_isQuoteMark hquote
  have hblank : t.isBlank = false := by
    simp [isBlank, Text.isBlank, htext, hsolid]
  have hparen : t.paren? = none := by
    simp [paren?, isOpening, isClosing, hkind]
  have hword : Reading.ofToken t = .word := by
    simp [Reading.ofToken, hkind]
  rw [symbols_cons hblank, (ofToken_of_reading hparen).1 hword]
  rfl

variable {mode : Mode} {ts gs : List Token} {inner : Token → List Symbol}

/-- At depth zero only an opening parenthesis can be a parenthesis. -/
theorem paren?_eq_none_of_level {t : Token} {k : Nat}
    (h : level paren? 0 (t :: ts) = some k) (ho : t.isOpening = false) :
    t.paren? = none := by
  cases hp : t.paren? with
  | none => rfl
  | some p =>
      cases p with
      | opening =>
          rw [paren?_eq_opening.1 hp] at ho
          cases ho
      | closing =>
          rw [level_zero_cons_closing hp] at h
          cases h

/-- A closed group stands for the symbols of all that it was joined from. -/
private theorem spelled_closed {o c : Token} (ho : o.isOpening = true)
    (hc : c.isClosing = true)
    (h : inner (grouped o (ts ++ [c])) = symbols ts) :
    ((grouped o (ts ++ [c]) :: gs).filter
        (!·.isBlank)).flatMap (spelled inner)
      = symbols (o :: (ts ++ [c]))
        ++ (gs.filter (!·.isBlank)).flatMap (spelled inner) := by
  have hsymbols : symbols (o :: (ts ++ [c]))
      = .opening :: (symbols ts ++ [.closing]) := by
    rw [symbols_cons (isBlank_of_paren? (paren?_eq_opening.2 ho)),
      symbols_append,
      symbols_cons (isBlank_of_paren? (paren?_eq_closing.2 hc)),
      Symbol.ofToken_opening ho, Symbol.ofToken_closing hc]
    rfl
  rw [List.filter_cons_of_pos (by rw [isBlank_grouped ho]; rfl),
    List.flatMap_cons, hsymbols, spelled_group rfl, h]

/-- Joined tokens stand for the symbols of the tokens they were joined
from. An open group, which can only be the last, is closed by this. -/
theorem spelled_grouped (h : Grouped mode ts gs) {k : Nat}
    (hk : level paren? 0 ts = some k) (hkind : ∀ t ∈ ts, t.kind ≠ .group)
    (hinner : ∀ as o us c bs, ts = as ++ o :: (us ++ c :: bs) →
      o.isOpening = true → level paren? 0 us = some 0 →
      c.isClosing = true → inner (grouped o (us ++ [c])) = symbols us) :
    (k = 0 ∧ (gs.filter (!·.isBlank)).flatMap (spelled inner) = symbols ts)
    ∨ (mode = .lenient ∧ ∃ as o us j, ts = as ++ o :: us
        ∧ o.isOpening = true ∧ level paren? 0 us = some j ∧ k = j + 1
        ∧ (gs.filter (!·.isBlank)).flatMap (spelled inner)
          = symbols as ++ Symbol.opening
              :: (inner (grouped o us) ++ [Symbol.closing])) := by
  -- A group that is left open is the last one, so what comes before it only
  -- adds to the front.
  induction h generalizing k with
  | nil =>
      obtain rfl : 0 = k := by simpa using hk
      exact Or.inl ⟨rfl, rfl⟩
  | @plain t ts gs ho hc h ih =>
      have hp := paren?_eq_none_of_level hk ho
      rw [level_cons_none hp] at hk
      have ht : spelled inner t = [Symbol.ofToken t] :=
        spelled_plain (hkind t (List.mem_cons_self ..))
      have hcons : ∀ us : List Token,
          ((t :: us).filter (!·.isBlank)).flatMap (spelled inner)
            = symbols [t]
              ++ (us.filter (!·.isBlank)).flatMap (spelled inner) := by
        intro us
        cases hb : t.isBlank <;> simp [symbols, hb, ht]
      rcases ih hk (fun u hu => hkind u (List.mem_cons_of_mem _ hu))
          (fun as o us c bs hts => hinner (t :: as) o us c bs
            (congrArg (t :: ·) hts))
        with ⟨rfl, hflat⟩ | ⟨hm, as, o, us, j, rfl, ho', hj, rfl, hflat⟩
      · refine Or.inl ⟨rfl, ?_⟩
        rw [hcons, hflat, ← symbols_append]
        rfl
      · refine Or.inr ⟨hm, t :: as, o, us, j, rfl, ho', hj, rfl, ?_⟩
        rw [hcons, hflat, ← List.append_assoc, ← symbols_append]
        rfl
  | @closed o c ts us gs ho hts hc h ih =>
      rw [level_cons_opening (paren?_eq_opening.2 ho), level_append,
        level_add hts 1, Option.bind_some] at hk
      rw [level_cons_closing (paren?_eq_closing.2 hc)] at hk
      have hsplit : o :: (ts ++ c :: us) = (o :: (ts ++ [c])) ++ us := by
        simp
      have hcons := @spelled_closed ts gs inner o c ho hc
        (hinner [] o ts c us rfl ho hts hc)
      rcases ih hk
          (fun u hu => hkind u (hsplit ▸ List.mem_append_right _ hu))
          (fun as o' vs c' bs hus => hinner (o :: (ts ++ [c]) ++ as) o' vs
            c' bs (by rw [hsplit, hus, List.append_assoc]))
        with ⟨rfl, hflat⟩ | ⟨hm, as, o', vs, j, rfl, ho', hj, rfl, hflat⟩
      · refine Or.inl ⟨rfl, ?_⟩
        rw [hcons, hflat, ← symbols_append, hsplit]
      · refine Or.inr ⟨hm, o :: (ts ++ [c]) ++ as, o', vs, j, ?_, ho', hj,
          rfl, ?_⟩
        · rw [hsplit, List.append_assoc]
        · rw [hcons, hflat, ← List.append_assoc, ← symbols_append]
  | @opened o ts j hm ho hts =>
      have hp := paren?_eq_opening.2 ho
      rw [level_cons_opening hp, level_add hts 1] at hk
      obtain rfl := Option.some.inj hk
      refine Or.inr ⟨hm, [], o, ts, j, rfl, ho, hts, rfl, ?_⟩
      rw [List.filter_cons_of_pos (by rw [isBlank_grouped ho]; rfl)]
      rw [List.filter_nil, List.flatMap_singleton, spelled_group rfl]
      rfl

/-- What closes no open group is no parenthesis after joining. -/
theorem Grouped.paren?_eq_none (h : Grouped mode ts gs) {k : Nat}
    (hk : level paren? 0 ts = some k) :
    ∀ g ∈ gs, g.kind ≠ .group → g.paren? = none := by
  induction h generalizing k with
  | nil => exact fun g hg => absurd hg List.not_mem_nil
  | @plain t ts gs ho hc h ih =>
      have hp := paren?_eq_none_of_level hk ho
      rw [level_cons_none hp] at hk
      intro g hg hne
      rcases List.mem_cons.1 hg with rfl | hg
      · exact hp
      · exact ih hk g hg hne
  | @closed o c ts us gs ho hts hc h ih =>
      rw [level_cons_opening (paren?_eq_opening.2 ho), level_append,
        level_add hts 1, Option.bind_some] at hk
      rw [level_cons_closing (paren?_eq_closing.2 hc)] at hk
      intro g hg hne
      rcases List.mem_cons.1 hg with rfl | hg
      · exact absurd rfl hne
      · exact ih hk g hg hne
  | opened hm ho hts =>
      intro g hg hne
      obtain rfl := List.mem_singleton.1 hg
      exact absurd rfl hne

end Token

end FilterQuery
