/-
What stands outside quotes, read one character at a time with no tokens in
between: the parentheses, with the byte offset of each, and the quote that
is open where the reading stops, with the offset of its mark. A mark
outside quotes opens a stretch, and the next mark of the same kind closes
it.

`unquoted_lexed` ties this to the passes of the tokenizer. Marks and
parentheses are always cut out as pieces of their own, so the parentheses
outside quotes are the tokens that are parentheses, and the open quote is
the one that the quote pass is left with. The induction is on the pieces;
each of them is read as the one step of the quote pass that it causes.
-/
import FilterQuery.Proofs.Token.Groups

namespace FilterQuery

open Nesting

-- ============================================================ the reading

/-- The quoted stretch that a place is in: its mark, and where it was
opened. -/
abbrev OpenQuote := Option (Char × Nat)

/-- The parenthesis that a character is, if it is one. -/
def parenOf? (c : Char) : Option Paren :=
  if c = '(' then some .opening
  else if c = ')' then some .closing
  else none

/-- One character at an offset: the parenthesis that it is outside quotes,
if it is one, and the quote that is open after it. -/
def unquotedStep :
    OpenQuote → Nat → Char → List (Nat × Paren) × OpenQuote
  | some (quote, start), _, c =>
      ([], if c = quote then none else some (quote, start))
  | none, pos, c =>
      if isQuoteMark c then ([], some (c, pos))
      else ((parenOf? c).toList.map (pos, ·), none)

/-- All characters of a text that starts at an offset: the parentheses
outside quotes, and the quote that is open at the end. -/
def unquoted : OpenQuote → Nat → Text → List (Nat × Paren) × OpenQuote
  | st, _, [] => ([], st)
  | st, pos, c :: t =>
      let (found, next) := unquotedStep st pos c
      let (rest, last) := unquoted next (pos + c.utf8Size) t
      (found ++ rest, last)

/-- The side of a parenthesis that was found at an offset. -/
def side? (p : Nat × Paren) : Option Paren := some p.2

-- ================================================================== texts

theorem unquoted_cons (st : OpenQuote) (pos : Nat) (c : Char) (t : Text) :
    unquoted st pos (c :: t)
      = ((unquotedStep st pos c).1
            ++ (unquoted (unquotedStep st pos c).2 (pos + c.utf8Size) t).1,
          (unquoted (unquotedStep st pos c).2 (pos + c.utf8Size) t).2) :=
  rfl

/-- Behind a part of a text the scan goes on from the quote that the part
leaves open. -/
theorem unquoted_append (st : OpenQuote) (pos : Nat) (t u : Text) :
    unquoted st pos (t ++ u)
      = ((unquoted st pos t).1
            ++ (unquoted (unquoted st pos t).2 (pos + t.byteSize) u).1,
          (unquoted (unquoted st pos t).2 (pos + t.byteSize) u).2) := by
  induction t generalizing st pos with
  | nil => rfl
  | cons c t ih =>
      rw [List.cons_append, unquoted_cons, unquoted_cons, ih,
        List.append_assoc, Text.byteSize_cons, Nat.add_assoc]

theorem unquoted_singleton (st : OpenQuote) (pos : Nat) (c : Char) :
    unquoted st pos [c] = unquotedStep st pos c := by
  simp [unquoted]

theorem unquotedStep_mark {c : Char} (h : isQuoteMark c = true)
    (pos : Nat) : unquotedStep none pos c = ([], some (c, pos)) := by
  simp [unquotedStep, h]

/-- A character that can stand within a longer piece opens and closes
nothing. -/
theorem unquotedStep_of_not_solitary {c : Char} (h : ¬Token.Solitary c)
    (pos : Nat) : unquotedStep none pos c = ([], none) := by
  have hq : isQuoteMark c = false := by
    simpa using fun hq => h (Token.solitary_of_isQuoteMark hq)
  have ho : c ≠ '(' := fun ho => h (Token.solitary_of_mem (by simp [ho]))
  have hc : c ≠ ')' := fun hc => h (Token.solitary_of_mem (by simp [hc]))
  simp [unquotedStep, hq, parenOf?, ho, hc]

/-- Without quote marks and parentheses there is nothing to find. -/
theorem unquoted_of_not_solitary {t : Text}
    (h : ∀ c ∈ t, ¬Token.Solitary c) (pos : Nat) :
    unquoted none pos t = ([], none) := by
  induction t generalizing pos with
  | nil => rfl
  | cons c t ih =>
      have hc := h c (List.mem_cons_self ..)
      have ht := ih fun d hd => h d (List.mem_cons_of_mem _ hd)
      rw [unquoted_cons, unquotedStep_of_not_solitary hc, ht]
      rfl

/-- Up to its own mark a quoted stretch stays open. -/
theorem unquoted_inside {quote : Char} {v : Text} (h : quote ∉ v)
    (start pos : Nat) :
    unquoted (some (quote, start)) pos v = ([], some (quote, start)) := by
  induction v generalizing pos with
  | nil => rfl
  | cons c v ih =>
      obtain ⟨hc, hv⟩ := not_or.1 (mt List.mem_cons.2 h)
      have hstep : unquotedStep (some (quote, start)) pos c
          = ([], some (quote, start)) := by
        simp [unquotedStep, Ne.symm hc]
      rw [unquoted_cons, hstep, ih hv]
      rfl

-- ================================================================= pieces

namespace Token

/-- The parentheses among tokens, with their offsets. -/
def parens (ts : List Token) : List (Nat × Paren) :=
  ts.filterMap fun t => t.paren?.map (t.offset, ·)

@[simp] theorem parens_nil : parens [] = [] := rfl

@[simp] theorem parens_append (ts us : List Token) :
    parens (ts ++ us) = parens ts ++ parens us :=
  List.filterMap_append

theorem parens_cons (t : Token) (ts : List Token) :
    parens (t :: ts) = (t.paren?.map (t.offset, ·)).toList ++ parens ts := by
  unfold parens
  rw [List.filterMap_cons]
  cases t.paren? <;> rfl

theorem parens_singleton (t : Token) :
    parens [t] = (t.paren?.map (t.offset, ·)).toList := by
  rw [parens_cons, parens_nil, List.append_nil]

/-- The parentheses among tokens nest as the tokens do. -/
theorem level_parens (d : Nat) (ts : List Token) :
    level side? d (parens ts) = level paren? d ts := by
  induction ts generalizing d with
  | nil => rfl
  | cons t ts ih =>
      rw [parens_cons]
      cases ht : t.paren? with
      | none => exact (ih d).trans (level_cons_none ht d ts).symm
      | some p =>
          have hone : level side? d [(t.offset, p)] = level paren? d [t] := by
            simp [level, side?, ht]
          show level side? d ((t.offset, p) :: parens ts) = _
          rw [level_cons, hone, level_cons d t ts]
          simp only [ih]

/-- Where the stretch that is being read was opened. -/
def Opened.place (st : Opened) : OpenQuote :=
  st.map fun (quote, opened) => (quote, opened.offset)

/-- A piece of one character is a parenthesis if the character is one. -/
private theorem paren?_delimiter (c : Char) (offset : Nat) :
    paren? ⟨.delimiter, [c], offset⟩ = parenOf? c := by
  simp [paren?, isOpening, isClosing, parenOf?]

/-- Outside quotes a piece that is no mark is read as the parenthesis that
it is, if it is one. -/
theorem unquoted_piece {p : Token} (hp : IsPiece p)
    (hmark : p.quoteMark? = none) :
    unquoted none p.offset p.text = (parens [p], none) := by
  rw [parens_singleton]
  cases hp with
  | text hne h =>
      rw [paren?_eq_none_of_kind (by simp)]
      refine unquoted_of_not_solitary (fun c hc hsolitary => ?_) _
      have hdelimiter := hsolitary.1
      rw [h c hc] at hdelimiter
      cases hdelimiter
  | @double c d offset h =>
      have hnone : paren? ⟨.delimiter, [c, d], offset⟩ = none := by
        simp [paren?, isOpening, isClosing]
      rw [hnone]
      exact unquoted_of_not_solitary (not_solitary_of_isDoubleDelimiter h) _
  | @single c offset h =>
      have hq : isQuoteMark c = false := by
        cases hq : isQuoteMark c with
        | false => rfl
        | true =>
            rw [quoteMark?_eq_some.2 ⟨rfl, rfl, hq⟩] at hmark
            cases hmark
      rw [paren?_delimiter, unquoted_singleton]
      cases hc : parenOf? c <;> simp [unquotedStep, hq, hc]

/-- A piece is read as the step of the quote pass that it causes. -/
theorem unquoted_quoteStep {st : Opened} {p : Token} (hp : IsPiece p)
    (hst : st.WellMarked) :
    unquoted st.place p.offset p.text
      = (parens (quoteStep st p).1, (quoteStep st p).2.place) := by
  rcases quoteStep_cases st p with ⟨rfl, hmark, hstep⟩
    | ⟨rfl, quote, hmark, hstep⟩ | ⟨quote, opened, rfl, hmark, hstep⟩
    | ⟨quote, opened, rfl, hmark, hstep⟩
  · rw [hstep]
    exact unquoted_piece hp hmark
  · obtain ⟨-, htext, hq⟩ := quoteMark?_eq_some.1 hmark
    rw [hstep, htext, unquoted_singleton]
    exact unquotedStep_mark hq p.offset
  · obtain ⟨-, htext, -⟩ := quoteMark?_eq_some.1 hmark
    obtain ⟨-, v, hopened, -⟩ := hst
    have hquoted : paren? (opened.absorb p) = none := by
      apply paren?_eq_none_of_kind
      rw [hopened]
      simp [absorb]
    rw [hstep, htext, unquoted_singleton, parens_singleton, hquoted]
    simp [unquotedStep, Opened.place]
  · rw [hstep]
    exact unquoted_inside (hp.mark_not_mem hst.1 hmark) opened.offset _

/-- Over all pieces, what is found is what the quote pass leaves as
parentheses, and the quote that it leaves open. -/
theorem unquoted_quoteRun {pos : Nat} {st : Opened} {ps : List Token}
    (hps : ∀ p ∈ ps, IsPiece p) (htiles : Tiles pos ps)
    (hst : st.WellMarked) :
    unquoted st.place pos (content ps)
      = (parens (quoteRun st ps).1, (quoteRun st ps).2.place) := by
  induction ps generalizing pos st with
  | nil => rfl
  | cons p ps ih =>
      obtain ⟨rfl, htiles⟩ := htiles
      have hp := hps p (List.mem_cons_self ..)
      have hrest := fun q hq => hps q (List.mem_cons_of_mem _ hq)
      have hsingle : ∀ q ∈ [p], IsPiece q := by simpa using hp
      have hnext : (quoteStep st p).2.WellMarked :=
        (isUngrouped_quoteRun hst hsingle).2
      rw [content_cons, unquoted_append, unquoted_quoteStep hp hst,
        quoteRun_cons, parens_append]
      exact congrArg (fun out => (parens (quoteStep st p).1 ++ out.1, out.2))
        (ih hrest htiles hnext)

/-- Reading characters is reading tokens. -/
theorem unquoted_lexed {base : Nat} {t : Text} {ts : List Token}
    {last : Opened} (h : lexed base t = (ts, last)) :
    unquoted none base t = (parens ts, last.place) := by
  have hrun := @unquoted_quoteRun base none (pieces base t)
    isPiece_of_mem_pieces (tiles_pieces base t) trivial
  rw [content_pieces, show quoteRun none (pieces base t) = (ts, last) from h]
    at hrun
  exact hrun

end Token
end FilterQuery
