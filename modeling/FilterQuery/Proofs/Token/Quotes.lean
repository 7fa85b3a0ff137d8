/-
The quote pass as a machine that is fed one piece at a time. Its state is
the quoted stretch being read, if it is inside one; what it puts out are
the tokens that are complete. `joinQuotes_eq_quoteEnd` says that the pass
is a run of this machine with a look at the state in which it ends, and
the modes differ in that look only.

`lexed` is the run over the pieces of a text. Since the machine starts and
ends every complete token without memory, a text between two tokens has
the tokens that are found there (`lexed_infix`, `lexed_suffix`). This is
what makes reading the contents of a group again harmless.
-/
import FilterQuery.Proofs.Token.Pieces

namespace FilterQuery
namespace Token

-- =========================================================== the machine

/-- The quoted stretch being read, with its mark. -/
abbrev Opened := Option (Char × Token)

/-- The stretch being read, as the token that it is so far. -/
def Opened.tokens : Opened → List Token
  | none => []
  | some (_, opened) => [opened]

/-- One piece: the tokens that it completes, and the state after it. -/
def quoteStep : Opened → Token → List Token × Opened
  | none, t =>
      match t.quoteMark? with
      | some quote => ([], some (quote, { t with kind := .quoted }))
      | none => ([t], none)
  | some (quote, opened), t =>
      if t.quoteMark? = some quote then ([opened.absorb t], none)
      else ([], some (quote, opened.absorb t))

/-- Pieces in order: all tokens completed, and the state at the end. -/
def quoteRun : Opened → List Token → List Token × Opened
  | st, [] => ([], st)
  | st, t :: ts =>
      let (done, next) := quoteStep st t
      let (rest, last) := quoteRun next ts
      (done ++ rest, last)

/-- What the pass makes of the state in which a run ends. -/
def quoteEnd (mode : Mode) :
    List Token × Opened → Except QueryError (List Token)
  | (ts, none) => .ok ts
  | (ts, some (quote, opened)) =>
      match mode with
      | .strict => .error (.unterminatedQuote quote opened.offset)
      | .lenient => .ok (ts ++ [opened])

theorem quoteRun_cons (st : Opened) (t : Token) (ts : List Token) :
    quoteRun st (t :: ts)
      = ((quoteStep st t).1 ++ (quoteRun (quoteStep st t).2 ts).1,
          (quoteRun (quoteStep st t).2 ts).2) := rfl

/-- Behind some pieces the quote pass goes on with the stretch that they leave
open. -/
theorem quoteRun_append (st : Opened) (ps qs : List Token) :
    quoteRun st (ps ++ qs)
      = ((quoteRun st ps).1 ++ (quoteRun (quoteRun st ps).2 qs).1,
          (quoteRun (quoteRun st ps).2 qs).2) := by
  induction ps generalizing st with
  | nil => rfl
  | cons p ps ih =>
      rw [List.cons_append, quoteRun_cons, quoteRun_cons, ih,
        List.append_assoc]

/-- Outside quotes a token that is no quote mark is complete by itself. -/
theorem quoteStep_plain {t : Token} (h : t.quoteMark? = none) :
    quoteStep none t = ([t], none) := by
  simp [quoteStep, h]

theorem quoteStep_mark {t : Token} {quote : Char}
    (h : t.quoteMark? = some quote) :
    quoteStep none t = ([], some (quote, { t with kind := .quoted })) := by
  simp [quoteStep, h]

theorem quoteStep_close {t : Token} {quote : Char}
    (h : t.quoteMark? = some quote) (opened : Token) :
    quoteStep (some (quote, opened)) t = ([opened.absorb t], none) := by
  simp [quoteStep, h]

theorem quoteStep_inside {t : Token} {quote : Char}
    (h : t.quoteMark? ≠ some quote) (opened : Token) :
    quoteStep (some (quote, opened)) t
      = ([], some (quote, opened.absorb t)) := by
  simp [quoteStep, h]

/-- The ways a step can go: a token that stands for itself, the start of a
stretch, its end, or one more piece of it. -/
theorem quoteStep_cases (st : Opened) (t : Token) :
    (st = none ∧ t.quoteMark? = none ∧ quoteStep st t = ([t], none))
    ∨ (st = none ∧ ∃ quote, t.quoteMark? = some quote
        ∧ quoteStep st t = ([], some (quote, { t with kind := .quoted })))
    ∨ (∃ quote opened, st = some (quote, opened)
        ∧ t.quoteMark? = some quote
        ∧ quoteStep st t = ([opened.absorb t], none))
    ∨ (∃ quote opened, st = some (quote, opened)
        ∧ t.quoteMark? ≠ some quote
        ∧ quoteStep st t = ([], some (quote, opened.absorb t))) := by
  obtain _ | ⟨quote, opened⟩ := st
  · cases h : t.quoteMark? with
    | none => exact Or.inl ⟨rfl, rfl, quoteStep_plain h⟩
    | some quote =>
        exact Or.inr (Or.inl ⟨rfl, quote, rfl, quoteStep_mark h⟩)
  · refine Or.inr (Or.inr ?_)
    by_cases h : t.quoteMark? = some quote
    · exact Or.inl ⟨quote, opened, rfl, h, quoteStep_close h opened⟩
    · exact Or.inr ⟨quote, opened, rfl, h, quoteStep_inside h opened⟩

private theorem quoteEnd_cons (mode : Mode) (t : Token)
    (out : List Token × Opened) :
    quoteEnd mode (t :: out.1, out.2)
      = (do let rest ← quoteEnd mode out; return t :: rest) := by
  obtain ⟨ts, _ | ⟨quote, opened⟩⟩ := out
  · rfl
  · cases mode <;> rfl

/-- The pass is a run of the machine. -/
theorem joinQuotes_eq_quoteEnd (mode : Mode) (st : Opened)
    (ts : List Token) :
    joinQuotes mode st ts = quoteEnd mode (quoteRun st ts) := by
  induction ts generalizing st with
  | nil =>
      obtain _ | ⟨quote, opened⟩ := st
      · rfl
      · cases mode <;> rfl
  | cons t ts ih =>
      rw [quoteRun_cons]
      rcases quoteStep_cases st t with ⟨rfl, h, hstep⟩ | ⟨rfl, quote, h, hstep⟩
        | ⟨quote, opened, rfl, h, hstep⟩ | ⟨quote, opened, rfl, h, hstep⟩
      · rw [hstep]
        simp only [joinQuotes, h, ih]
        exact (quoteEnd_cons ..).symm
      · rw [hstep]
        simp only [joinQuotes, h]
        exact ih _
      · rw [hstep]
        simp only [joinQuotes, h, ih]
        exact (quoteEnd_cons ..).symm
      · rw [hstep]
        simp only [joinQuotes, h]
        exact ih _

-- ============================================================== covering

/-- No text is lost: what is put out and what is still open cover what was
open before and what has been read. -/
theorem content_quoteRun (st : Opened) (ps : List Token) :
    content (quoteRun st ps).1 ++ content (quoteRun st ps).2.tokens
      = content st.tokens ++ content ps := by
  induction ps generalizing st with
  | nil => simp [quoteRun]
  | cons p ps ih =>
      have hstep : content (quoteStep st p).1
          ++ content (quoteStep st p).2.tokens
          = content st.tokens ++ p.text := by
        rcases quoteStep_cases st p with ⟨rfl, -, hstep⟩
          | ⟨rfl, quote, -, hstep⟩ | ⟨quote, opened, rfl, -, hstep⟩
          | ⟨quote, opened, rfl, -, hstep⟩ <;>
          simp [hstep, Opened.tokens, absorb]
      rw [quoteRun_cons, content_append, List.append_assoc, ih,
        ← List.append_assoc, hstep, List.append_assoc, content_cons]

/-- A tiling stays one. -/
theorem tiles_quoteRun {base : Nat} {st : Opened} {ps : List Token}
    (h : Tiles base (st.tokens ++ ps)) :
    Tiles base ((quoteRun st ps).1 ++ (quoteRun st ps).2.tokens) := by
  induction ps generalizing base st with
  | nil => simpa [quoteRun] using h
  | cons p ps ih =>
      rw [quoteRun_cons, List.append_assoc]
      -- The stretch being read ends where the piece that it absorbs ends.
      have hgrow : ∀ {opened : Token},
          Tiles base (opened :: p :: ps) →
            opened.offset = base ∧ Tiles (opened.absorb p).stop ps := by
        intro opened ⟨ho, hp, hps⟩
        have hstop : (opened.absorb p).stop = p.stop := by
          simp only [absorb, stop, Text.byteSize_append] at hp ⊢
          omega
        exact ⟨ho, hstop ▸ hps⟩
      rcases quoteStep_cases st p with ⟨rfl, -, hstep⟩
        | ⟨rfl, quote, -, hstep⟩ | ⟨quote, opened, rfl, -, hstep⟩
        | ⟨quote, opened, rfl, -, hstep⟩
      · rw [hstep]
        exact ⟨h.1, ih h.2⟩
      · rw [hstep]
        exact ih ⟨h.1, h.2⟩
      · rw [hstep]
        exact ⟨(hgrow h).1, ih (hgrow h).2⟩
      · rw [hstep]
        exact ih ⟨(hgrow h).1, (hgrow h).2⟩

-- =============================================================== cutting

/-- Where the output is cut, the pieces can be cut: the part before the
cut is complete, and the rest is read from outside quotes. -/
theorem quoteRun_split {st last : Opened} {ps ts us : List Token}
    (h : quoteRun st ps = (ts ++ us, last)) (hts : st = none ∨ ts ≠ []) :
    ∃ qs rs, ps = qs ++ rs ∧ quoteRun st qs = (ts, none)
      ∧ quoteRun none rs = (us, last) := by
  induction ps generalizing st ts with
  | nil =>
      obtain ⟨hnil, rfl⟩ := Prod.mk.inj h
      obtain ⟨rfl, rfl⟩ := List.append_eq_nil_iff.1 hnil.symm
      obtain rfl : st = none := hts.resolve_right (fun hne => hne rfl)
      exact ⟨[], [], rfl, rfl, rfl⟩
  | cons p ps ih =>
      by_cases hnil : ts = []
      · subst hnil
        obtain rfl : st = none := hts.resolve_right (fun hne => hne rfl)
        exact ⟨[], p :: ps, rfl, rfl, h⟩
      rw [quoteRun_cons] at h
      -- A step puts out one token and leaves the machine outside quotes,
      -- or it puts out nothing.
      have hstep : (∃ t, (quoteStep st p).1 = [t]
            ∧ (quoteStep st p).2 = none) ∨ (quoteStep st p).1 = [] := by
        rcases quoteStep_cases st p with ⟨-, -, hstep⟩ | ⟨-, quote, -, hstep⟩
          | ⟨quote, opened, -, -, hstep⟩ | ⟨quote, opened, -, -, hstep⟩
        · exact Or.inl ⟨_, congrArg Prod.fst hstep, congrArg Prod.snd hstep⟩
        · exact Or.inr (congrArg Prod.fst hstep)
        · exact Or.inl ⟨_, congrArg Prod.fst hstep, congrArg Prod.snd hstep⟩
        · exact Or.inr (congrArg Prod.fst hstep)
      obtain ⟨hout, hlast⟩ := Prod.mk.inj h
      rcases hstep with ⟨t, hdone, hnext⟩ | hdone
      · obtain ⟨t', ts, rfl⟩ := List.exists_cons_of_ne_nil hnil
        rw [hdone] at hout
        obtain ⟨rfl, hrest⟩ := List.cons.inj hout
        obtain ⟨qs, rs, rfl, hqs, hrs⟩ :=
          ih (Prod.ext hrest hlast) (Or.inl hnext)
        refine ⟨p :: qs, rs, rfl, ?_, hrs⟩
        rw [quoteRun_cons, hdone, hqs]
        rfl
      · rw [hdone] at hout
        obtain ⟨qs, rs, rfl, hqs, hrs⟩ :=
          ih (Prod.ext hout hlast) (Or.inr hnil)
        refine ⟨p :: qs, rs, rfl, ?_, hrs⟩
        rw [quoteRun_cons, hdone, hqs]
        rfl

-- ========================================================== a whole text

/-- The tokens of a text before groups are joined, and the quoted stretch
that it leaves open. -/
def lexed (base : Nat) (t : Text) : List Token × Opened :=
  quoteRun none (pieces base t)

/-- The tokens of a text before groups are joined: cut at delimiters, and
quoted stretches whole. -/
def ungrouped (mode : Mode) (base : Nat) (t : Text) :
    Except QueryError (List Token) :=
  joinQuotes mode none (pieces base t)

theorem ungrouped_eq (mode : Mode) (base : Nat) (t : Text) :
    ungrouped mode base t = quoteEnd mode (lexed base t) :=
  joinQuotes_eq_quoteEnd ..

theorem ungrouped_strict_eq_ok {base : Nat} {t : Text} {ts : List Token} :
    ungrouped .strict base t = .ok ts ↔ lexed base t = (ts, none) := by
  rw [ungrouped_eq]
  obtain ⟨us, _ | ⟨quote, opened⟩⟩ := lexed base t <;> simp [quoteEnd]

theorem tokenizeAt_eq (mode : Mode) (base : Nat) (t : Text) :
    tokenizeAt mode base t
      = (ungrouped mode base t >>= joinGroups mode none) := rfl

/-- The tokens of a text cover it, up to the stretch left open. -/
theorem content_lexed {base : Nat} {t : Text} {ts : List Token}
    {last : Opened} (h : lexed base t = (ts, last)) :
    content ts ++ content last.tokens = t := by
  have hcover := content_quoteRun none (pieces base t)
  rw [show quoteRun none (pieces base t) = (ts, last) from h] at hcover
  simpa [Opened.tokens] using hcover

/-- With the stretch that is left open, the tokens cover the text without a
gap. -/
theorem tiles_lexed {base : Nat} {t : Text} {ts : List Token}
    {last : Opened} (h : lexed base t = (ts, last)) :
    Tiles base (ts ++ last.tokens) := by
  have htiles : Tiles base (Opened.tokens none ++ pieces base t) :=
    tiles_pieces base t
  have := tiles_quoteRun htiles
  rwa [show quoteRun none (pieces base t) = (ts, last) from h] at this

/-- From the end of a token on, a text has the tokens that are found
there. -/
theorem lexed_suffix {base : Nat} {t : Text} {ts us : List Token}
    {last : Opened} (h : lexed base t = (ts ++ us, last)) :
    lexed (base + (content ts).byteSize)
      (content us ++ content last.tokens) = (us, last) := by
  obtain ⟨qs, rs, hps, hqs, hrs⟩ := quoteRun_split h (Or.inl rfl)
  have hbefore : content qs = content ts := by
    simpa [hqs, Opened.tokens] using (content_quoteRun none qs).symm
  have hafter : content rs = content us ++ content last.tokens := by
    simpa [hrs, Opened.tokens] using (content_quoteRun none rs).symm
  unfold lexed
  rw [← hbefore, ← hafter, pieces_suffix hps]
  exact hrs

/-- Between two tokens a text has the tokens that are found there. -/
theorem lexed_infix {base : Nat} {t : Text} {ts us vs : List Token}
    {last : Opened} (h : lexed base t = (ts ++ us ++ vs, last)) :
    lexed (base + (content ts).byteSize) (content us) = (us, none) := by
  rw [List.append_assoc] at h
  obtain ⟨qs, rs, hps, hqs, hrs⟩ := quoteRun_split h (Or.inl rfl)
  obtain ⟨rs, ss, rfl, hrs, -⟩ := quoteRun_split hrs (Or.inl rfl)
  have hbefore : content qs = content ts := by
    simpa [hqs, Opened.tokens] using (content_quoteRun none qs).symm
  have hbetween : content rs = content us := by
    simpa [hrs, Opened.tokens] using (content_quoteRun none rs).symm
  rw [← List.append_assoc] at hps
  unfold lexed
  rw [← hbefore, ← hbetween, pieces_infix hps]
  exact hrs

/-- A solitary character after a text is one more piece. -/
theorem lexed_append_cons {c : Char} (hc : Solitary c) (base : Nat)
    (t u : Text) :
    lexed base (t ++ c :: u)
      = ((lexed base t).1 ++ (quoteRun (lexed base t).2
            (⟨.delimiter, [c], base + t.byteSize⟩
              :: pieces (base + t.byteSize + c.utf8Size) u)).1,
          (quoteRun (lexed base t).2
            (⟨.delimiter, [c], base + t.byteSize⟩
              :: pieces (base + t.byteSize + c.utf8Size) u)).2) := by
  unfold lexed
  rw [pieces_append_cons hc, quoteRun_append]

/-- A closing parenthesis at the end of a text is a token of its own,
unless a literal is open: then it belongs to that. -/
theorem lexed_append_closing (base : Nat) (t : Text) :
    lexed base (t ++ [')']) =
      let c : Token := ⟨.delimiter, [')'], base + t.byteSize⟩
      match (lexed base t).2 with
      | none => ((lexed base t).1 ++ [c], none)
      | some (quote, opened) =>
          ((lexed base t).1, some (quote, opened.absorb c)) := by
  have hmark : quoteMark? ⟨.delimiter, [')'], base + t.byteSize⟩ = none := by
    simp [quoteMark?, show isQuoteMark ')' = false by decide]
  rw [lexed_append_cons (solitary_of_mem (by simp))]
  cases (lexed base t).2 with
  | none => simp [pieces, quoteRun, quoteStep, hmark]
  | some st => simp [pieces, quoteRun, quoteStep, hmark]

-- ================================================================= shapes

theorem quoteMark?_eq_some {t : Token} {quote : Char} :
    t.quoteMark? = some quote
      ↔ t.kind = .delimiter ∧ t.text = [quote]
        ∧ isQuoteMark quote = true := by
  obtain ⟨kind, text, offset⟩ := t
  constructor
  · intro h
    unfold quoteMark? at h
    split at h
    · rename_i hkind htext
      split at h
      · rename_i hq
        obtain rfl := Option.some.inj h
        exact ⟨hkind, htext, hq⟩
      · cases h
    · cases h
  · intro h
    obtain ⟨hkind, htext, hq⟩ := h
    simp only at hkind htext
    subst hkind htext
    simp [quoteMark?, hq]

/-- A mark occurs in no piece but itself. -/
theorem IsPiece.mark_not_mem {p : Token} {quote : Char} (hp : IsPiece p)
    (hq : isQuoteMark quote = true) (hne : p.quoteMark? ≠ some quote) :
    quote ∉ p.text := by
  have hsolitary := solitary_of_isQuoteMark hq
  intro hmem
  cases hp with
  | text _ h =>
      have := h quote hmem
      rw [hsolitary.1] at this
      cases this
  | single h =>
      obtain rfl : quote = _ := List.mem_singleton.1 hmem
      exact hne (quoteMark?_eq_some.2 ⟨rfl, rfl, hq⟩)
  | double h => exact not_solitary_of_isDoubleDelimiter h _ hmem hsolitary

/-- What a token may be before groups are joined: a piece other than a
quote mark, or a stretch between two marks that holds no such mark. -/
inductive IsUngrouped : Token → Prop where
  | piece {t : Token} (h : IsPiece t) (hq : t.quoteMark? = none) :
      IsUngrouped t
  | quoted {quote : Char} {v : Text} {offset : Nat}
      (hq : isQuoteMark quote = true) (hv : quote ∉ v) :
      IsUngrouped ⟨.quoted, quote :: (v ++ [quote]), offset⟩

/-- A stretch left open starts with its mark and does not hold it again. -/
def Opened.WellMarked : Opened → Prop
  | none => True
  | some (quote, opened) =>
      isQuoteMark quote = true
        ∧ ∃ v, opened = ⟨.quoted, quote :: v, opened.offset⟩ ∧ quote ∉ v

/-- The quote pass makes pieces and quoted stretches, and leaves open only
what starts with its mark. -/
theorem isUngrouped_quoteRun {st : Opened} {ps : List Token}
    (hst : st.WellMarked) (hps : ∀ p ∈ ps, IsPiece p) :
    (∀ t ∈ (quoteRun st ps).1, IsUngrouped t)
      ∧ (quoteRun st ps).2.WellMarked := by
  induction ps generalizing st with
  | nil => exact ⟨fun t ht => absurd ht List.not_mem_nil, hst⟩
  | cons p ps ih =>
      have hp := hps p (List.mem_cons_self ..)
      have hrest := fun q hq => hps q (List.mem_cons_of_mem _ hq)
      rw [quoteRun_cons]
      rcases quoteStep_cases st p with ⟨rfl, hmark, hstep⟩
        | ⟨rfl, quote, hmark, hstep⟩ | ⟨quote, opened, rfl, hmark, hstep⟩
        | ⟨quote, opened, rfl, hmark, hstep⟩
      · rw [hstep]
        refine ⟨fun t ht => ?_, (ih hst hrest).2⟩
        rcases List.mem_cons.1 ht with rfl | ht
        · exact .piece hp hmark
        · exact (ih hst hrest).1 t ht
      · rw [hstep]
        obtain ⟨-, htext, hq⟩ := quoteMark?_eq_some.1 hmark
        exact ih ⟨hq, [], by rw [htext], List.not_mem_nil⟩ hrest
      · rw [hstep]
        obtain ⟨hq, v, hopened, hv⟩ := hst
        obtain ⟨-, htext, -⟩ := quoteMark?_eq_some.1 hmark
        -- This mark is the second one that the stretch holds, and its end.
        have hclosed : opened.absorb p
            = ⟨.quoted, quote :: (v ++ [quote]), opened.offset⟩ := by
          rw [hopened]
          simp [absorb, htext]
        have hnone : Opened.WellMarked none := trivial
        refine ⟨fun t ht => ?_, (ih hnone hrest).2⟩
        rcases List.mem_cons.1 ht with rfl | ht
        · exact hclosed ▸ .quoted hq hv
        · exact (ih hnone hrest).1 t ht
      · rw [hstep]
        obtain ⟨hq, v, hopened, hv⟩ := hst
        refine ih ⟨hq, v ++ p.text, ?_, ?_⟩ hrest
        · rw [hopened]
          rfl
        · simpa using ⟨hv, hp.mark_not_mem hq hmark⟩

/-- The tokens of a text are as the quote pass makes them. -/
theorem isUngrouped_of_mem_lexed {base : Nat} {t : Text} {ts : List Token}
    {last : Opened} (h : lexed base t = (ts, last)) :
    (∀ u ∈ ts, IsUngrouped u) ∧ last.WellMarked := by
  have hshape : (∀ u ∈ (lexed base t).1, IsUngrouped u)
      ∧ (lexed base t).2.WellMarked :=
    isUngrouped_quoteRun trivial isPiece_of_mem_pieces
  rwa [h] at hshape

end Token
end FilterQuery
