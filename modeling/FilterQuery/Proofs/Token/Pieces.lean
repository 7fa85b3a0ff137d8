/-
What cutting at delimiters does to a text. The pieces cover it without gap
or overlap (`content_pieces`, `tiles_pieces`), and each is either a
delimiter or free of delimiters (`isPiece_of_mem_pieces`).

Cutting is context-free in both directions: the pieces of a stretch that
starts and ends where pieces do are the pieces found there
(`pieces_infix`). The other way round, a character that is no part of a
longer delimiter cuts the text for good (`pieces_append_cons`): what is on
one side of a quote mark or a parenthesis is read alike whatever stands on
the other.
-/
import FilterQuery.Token.Lexer

namespace FilterQuery

theorem isWhiteSpace_of_isQuoteMark {c : Char} (h : isQuoteMark c = true) :
    isWhiteSpace c = false := by
  simp only [isQuoteMark, Bool.or_eq_true, beq_iff_eq] at h
  rcases h with ((rfl | rfl) | rfl) | rfl <;> decide

namespace Token

-- ======================================================= text of a list

/-- The stretch of text that a list of tokens covers. -/
def content (ts : List Token) : Text := ts.flatMap (·.text)

@[simp] theorem content_nil : content [] = [] := rfl

@[simp] theorem content_cons (t : Token) (ts : List Token) :
    content (t :: ts) = t.text ++ content ts := rfl

@[simp] theorem content_append (ts us : List Token) :
    content (ts ++ us) = content ts ++ content us :=
  List.flatMap_append

/-- The tokens follow each other without gap or overlap from the offset
on. -/
def Tiles : Nat → List Token → Prop
  | _, [] => True
  | base, t :: ts => t.offset = base ∧ Tiles t.stop ts

theorem tiles_append {base : Nat} {ts us : List Token} :
    Tiles base (ts ++ us)
      ↔ Tiles base ts ∧ Tiles (base + (content ts).byteSize) us := by
  induction ts generalizing base with
  | nil => simp [Tiles]
  | cons t ts ih =>
      simp only [List.cons_append, Tiles, ih, content_cons,
        Text.byteSize_append, stop]
      constructor
      · intro h
        obtain ⟨rfl, hts, hus⟩ := h
        exact ⟨⟨rfl, hts⟩, by rwa [← Nat.add_assoc]⟩
      · intro h
        obtain ⟨⟨rfl, hts⟩, hus⟩ := h
        exact ⟨rfl, hts, by rwa [Nat.add_assoc]⟩

/-- In a tiling the offset of a token is told by what is before it. -/
theorem Tiles.offset_eq {base : Nat} {ts us : List Token} {t : Token}
    (h : Tiles base (ts ++ t :: us)) :
    t.offset = base + (content ts).byteSize :=
  (tiles_append.1 h).2.1

/-- Of two tokens in a tiling the one that comes later starts where the other
is over, or behind that. -/
theorem Tiles.stop_le {base : Nat} {before after : List Token} {t u : Token}
    (h : Tiles base (before ++ t :: after)) (hu : u ∈ after) :
    t.stop ≤ u.offset := by
  obtain ⟨between, rest, rfl⟩ := List.append_of_mem hu
  have hoffset := (tiles_append.1 h).2.2.offset_eq
  omega

-- ====================================================== the first piece

/-- Putting a character before pieces either lengthens a text at their
head or starts a text of its own. -/
theorem consText_cases (c : Char) (base : Nat) (ts : List Token) :
    (∃ u offset us, ts = ⟨.text, u, offset⟩ :: us
        ∧ consText c base ts = ⟨.text, c :: u, base⟩ :: us)
      ∨ ((∀ t us, ts = t :: us → t.kind ≠ .text)
        ∧ consText c base ts = ⟨.text, [c], base⟩ :: ts) := by
  unfold consText
  split
  · exact Or.inl ⟨_, _, _, rfl, rfl⟩
  · rename_i hne
    refine Or.inr ⟨?_, rfl⟩
    intro t us hts hkind
    obtain ⟨kind, u, offset⟩ := t
    subst hts hkind
    exact hne _ _ _ rfl

private theorem content_consText (c : Char) (base : Nat) (ts : List Token) :
    content (consText c base ts) = c :: content ts := by
  rcases consText_cases c base ts with ⟨u, offset, us, rfl, h⟩ | ⟨-, h⟩
  · rw [h]; rfl
  · rw [h]; rfl

-- ============================================================== covering

/-- The pieces of a text cover it. -/
@[simp] theorem content_pieces (base : Nat) (t : Text) :
    content (pieces base t) = t := by
  fun_induction pieces base t with
  | case1 => rfl
  | case2 => rfl
  | case3 => exact content_consText ..
  | case4 base c d t hcd ih => simp [ih]
  | case5 base c d t hcd hc ih => simp [ih]
  | case6 base c d t hcd hc ih => rw [content_consText, ih]

/-- The pieces of a text tile it from its offset on. -/
theorem tiles_pieces (base : Nat) (t : Text) :
    Tiles base (pieces base t) := by
  have hcons : ∀ {c : Char} {base : Nat} {ts : List Token},
      Tiles (base + c.utf8Size) ts → Tiles base (consText c base ts) := by
    intro c base ts h
    rcases consText_cases c base ts with ⟨u, offset, us, rfl, hts⟩ | ⟨-, hts⟩
    · rw [hts]
      obtain ⟨rfl, hus⟩ := h
      refine ⟨rfl, ?_⟩
      simpa [stop, Nat.add_assoc] using hus
    · rw [hts]
      exact ⟨rfl, by simpa [stop] using h⟩
  fun_induction pieces base t with
  | case1 => trivial
  | case2 => exact ⟨rfl, trivial⟩
  | case3 => exact hcons trivial
  | case4 base c d t hcd ih => exact ⟨rfl, by simpa [stop] using ih⟩
  | case5 base c d t hcd hc ih => exact ⟨rfl, by simpa [stop] using ih⟩
  | case6 base c d t hcd hc ih => exact hcons ih

/-- What a piece may be. -/
inductive IsPiece : Token → Prop where
  | text {t : Text} {offset : Nat} (hne : t ≠ [])
      (h : ∀ c ∈ t, isDelimiter c = false) : IsPiece ⟨.text, t, offset⟩
  | single {c : Char} {offset : Nat} (h : isDelimiter c = true) :
      IsPiece ⟨.delimiter, [c], offset⟩
  | double {c d : Char} {offset : Nat} (h : isDoubleDelimiter c d = true) :
      IsPiece ⟨.delimiter, [c, d], offset⟩

theorem isPiece_of_mem_pieces {base : Nat} {t : Text} :
    ∀ p ∈ pieces base t, IsPiece p := by
  -- A text that a character joins has no delimiter in it either.
  have hcons : ∀ {c : Char} {base : Nat} {ts : List Token},
      ¬isDelimiter c = true → (∀ p ∈ ts, IsPiece p) →
        ∀ p ∈ consText c base ts, IsPiece p := by
    intro c base ts hc hts p hp
    have hc' : isDelimiter c = false := by simpa using hc
    rcases consText_cases c base ts with ⟨u, offset, us, rfl, h⟩ | ⟨-, h⟩
    · rw [h] at hp
      rcases List.mem_cons.1 hp with rfl | hp
      · have hu : ∀ d ∈ u, isDelimiter d = false := by
          cases hts _ (List.mem_cons_self ..) with
          | text _ h => exact h
        refine .text (by simp) fun d hd => ?_
        rcases List.mem_cons.1 hd with rfl | hd
        · exact hc'
        · exact hu d hd
      · exact hts p (List.mem_cons_of_mem _ hp)
    · rw [h] at hp
      rcases List.mem_cons.1 hp with rfl | hp
      · exact .text (by simp) (by simpa using hc')
      · exact hts p hp
  fun_induction pieces base t with
  | case1 => exact fun p hp => absurd hp (List.not_mem_nil)
  | case2 base c hc =>
      intro p hp
      obtain rfl := List.mem_singleton.1 hp
      exact .single hc
  | case3 base c hc => exact hcons hc fun p hp => absurd hp (List.not_mem_nil)
  | case4 base c d t hcd ih =>
      intro p hp
      rcases List.mem_cons.1 hp with rfl | hp
      · exact .double hcd
      · exact ih p hp
  | case5 base c d t hcd hc ih =>
      intro p hp
      rcases List.mem_cons.1 hp with rfl | hp
      · exact .single hc
      · exact ih p hp
  | case6 base c d t hcd hc ih => exact hcons hc ih

-- ==================================================== cutting at pieces

/-- Pieces after a boundary are the pieces of the text after it. -/
theorem pieces_suffix {base : Nat} {t : Text} {ps qs : List Token}
    (h : pieces base t = ps ++ qs) :
    pieces (base + (content ps).byteSize) (content qs) = qs := by
  -- Nothing before the boundary: the text is the whole one.
  have hnil : ∀ {base : Nat} {t : Text} {qs : List Token},
      pieces base t = [] ++ qs →
        pieces (base + (content []).byteSize) (content qs) = qs := by
    intro base t qs h
    have hqs : content qs = t := by
      rw [← List.nil_append qs, ← h, content_pieces]
    simpa [hqs] using h
  fun_induction pieces base t generalizing ps with
  | case1 =>
      obtain ⟨rfl, rfl⟩ := List.append_eq_nil_iff.1 h.symm
      rfl
  | case2 base c hc =>
      cases ps with
      | nil => exact hnil (t := [c]) (by simpa [pieces, hc] using h)
      | cons p ps =>
          obtain ⟨-, rfl⟩ := List.append_eq_nil_iff.1 (List.cons.inj h).2.symm
          rfl
  | case3 base c hc =>
      cases ps with
      | nil => exact hnil (t := [c]) (by simpa [pieces, hc] using h)
      | cons p ps =>
          obtain ⟨-, rfl⟩ := List.append_eq_nil_iff.1 (List.cons.inj h).2.symm
          rfl
  | case4 base c d t hcd ih =>
      cases ps with
      | nil => exact hnil (t := c :: d :: t) (by simpa [pieces, hcd] using h)
      | cons p ps =>
          obtain ⟨rfl, hrest⟩ := List.cons.inj h
          simpa [Nat.add_assoc] using ih hrest
  | case5 base c d t hcd hc ih =>
      cases ps with
      | nil =>
          exact hnil (t := c :: d :: t) (by simpa [pieces, hcd, hc] using h)
      | cons p ps =>
          obtain ⟨rfl, hrest⟩ := List.cons.inj h
          simpa [Nat.add_assoc] using ih hrest
  | case6 base c d t hcd hc ih =>
      cases ps with
      | nil =>
          exact hnil (t := c :: d :: t) (by simpa [pieces, hcd, hc] using h)
      | cons p ps =>
          -- The first piece loses `c`, and vanishes where `c` was all of it.
          rcases consText_cases c base (pieces (base + c.utf8Size) (d :: t))
            with ⟨u, offset, us, hus, hcons⟩ | ⟨-, hcons⟩
          · rw [hcons] at h
            obtain ⟨rfl, rfl⟩ := List.cons.inj h
            have hrest := @ih (⟨.text, u, offset⟩ :: ps) hus
            simpa [Nat.add_assoc] using hrest
          · rw [hcons] at h
            obtain ⟨rfl, hrest⟩ := List.cons.inj h
            simpa [Nat.add_assoc] using ih hrest

/-- A character that makes no delimiter with the one after it makes none
where the text is cut short either. -/
private theorem pieces_cons_of_prefix {base : Nat} {c d : Char} {t : Text}
    (hcd : isDoubleDelimiter c d = false) {ps : List Token}
    (hps : pieces (base + c.utf8Size) (content ps) = ps)
    (hfront : content ps <+: d :: t) :
    pieces base (c :: content ps)
      = if isDelimiter c then ⟨.delimiter, [c], base⟩ :: ps
        else consText c base ps := by
  cases hp : content ps with
  | nil =>
      rw [hp] at hps
      rw [← hps]
      rfl
  | cons e u =>
      rw [hp] at hfront hps
      obtain rfl := (List.cons_prefix_cons.1 hfront).1
      rw [pieces, hcd, hps]
      rfl

/-- Pieces before a boundary are the pieces of the text before it. -/
theorem pieces_prefix {base : Nat} {t : Text} {ps qs : List Token}
    (h : pieces base t = ps ++ qs) : pieces base (content ps) = ps := by
  fun_induction pieces base t generalizing ps with
  | case1 =>
      obtain ⟨rfl, rfl⟩ := List.append_eq_nil_iff.1 h.symm
      rfl
  | case2 base c hc =>
      cases ps with
      | nil => rfl
      | cons p ps =>
          obtain ⟨rfl, hrest⟩ := List.cons.inj h
          obtain ⟨rfl, -⟩ := List.append_eq_nil_iff.1 hrest.symm
          simp [pieces, hc]
  | case3 base c hc =>
      cases ps with
      | nil => rfl
      | cons p ps =>
          obtain ⟨rfl, hrest⟩ := List.cons.inj h
          obtain ⟨rfl, -⟩ := List.append_eq_nil_iff.1 hrest.symm
          simp [pieces, hc, consText]
  | case4 base c d t hcd ih =>
      cases ps with
      | nil => rfl
      | cons p ps =>
          obtain ⟨rfl, hrest⟩ := List.cons.inj h
          simp [pieces, hcd, ih hrest]
  | case5 base c d t hcd hc ih =>
      cases ps with
      | nil => rfl
      | cons p ps =>
          obtain ⟨rfl, hrest⟩ := List.cons.inj h
          have hcontent : content ps ++ content qs = d :: t := by
            rw [← content_append]
            exact (congrArg content hrest).symm.trans (content_pieces ..)
          have hstep := pieces_cons_of_prefix (by simpa using hcd) (ih hrest)
            ⟨content qs, hcontent⟩
          rw [if_pos hc] at hstep
          exact hstep
  | case6 base c d t hcd hc ih =>
      cases ps with
      | nil => rfl
      | cons p ps =>
          -- The character is the first one of a text, or all of it.
          have hcontent := congrArg content h
          rw [content_consText, content_pieces] at hcontent
          rcases consText_cases c base (pieces (base + c.utf8Size) (d :: t))
            with ⟨u, offset, us, hus, hcons⟩ | ⟨hkind, hcons⟩
          · rw [hcons] at h
            obtain ⟨rfl, rfl⟩ := List.cons.inj h
            have hstep := pieces_cons_of_prefix (by simpa using hcd)
              (@ih (⟨.text, u, offset⟩ :: ps) hus)
              ⟨content qs, by simpa using hcontent.symm⟩
            rw [if_neg hc] at hstep
            exact hstep
          · rw [hcons] at h
            obtain ⟨rfl, hrest⟩ := List.cons.inj h
            have hstep := pieces_cons_of_prefix (by simpa using hcd)
              (ih hrest) ⟨content qs, by simpa using hcontent.symm⟩
            rw [if_neg hc] at hstep
            rw [content_cons, List.singleton_append, hstep]
            -- No text follows, or the character would have joined it.
            unfold consText
            split
            · rename_i u offset us
              exact absurd rfl (hkind _ _ hrest)
            · rfl

/-- Pieces between two boundaries are the pieces of the text between
them. -/
theorem pieces_infix {base : Nat} {t : Text} {ps qs rs : List Token}
    (h : pieces base t = ps ++ qs ++ rs) :
    pieces (base + (content ps).byteSize) (content qs) = qs := by
  rw [List.append_assoc] at h
  exact pieces_prefix (pieces_suffix h)

-- =============================================== characters that cut

/-- A delimiter that is no part of a longer one. -/
def Solitary (c : Char) : Prop :=
  isDelimiter c = true ∧ (∀ d, isDoubleDelimiter c d = false)
    ∧ ∀ d, isDoubleDelimiter d c = false

/-- Neither half of a pair cuts. -/
theorem not_solitary_of_isDoubleDelimiter {c d : Char}
    (h : isDoubleDelimiter c d = true) : ∀ x ∈ [c, d], ¬Solitary x := by
  intro x hx hsolitary
  rcases List.mem_cons.1 hx with rfl | hx
  · rw [hsolitary.2.1] at h
    cases h
  · obtain rfl := List.mem_singleton.1 hx
    rw [hsolitary.2.2] at h
    cases h

/-- A delimiter that is on neither side of any pair cuts by itself. -/
private theorem solitary_of_not_mem {c : Char} (hc : isDelimiter c = true)
    (hpair : c ∉ ['\r', '\n', '!', '=', '>', '<', '&', '|']) :
    Solitary c := by
  refine ⟨hc, fun d => ?_, fun d => ?_⟩
  · unfold isDoubleDelimiter
    split <;> simp_all
  · unfold isDoubleDelimiter
    split <;> simp_all

/-- A space cuts by itself, and so does a parenthesis. -/
theorem solitary_of_mem {c : Char} (h : c ∈ [' ', '(', ')']) :
    Solitary c := by
  simp only [List.mem_cons, List.not_mem_nil, or_false] at h
  rcases h with rfl | rfl | rfl <;>
    exact solitary_of_not_mem (by decide) (by decide)

theorem solitary_of_isQuoteMark {c : Char} (h : isQuoteMark c = true) :
    Solitary c := by
  have hc : c = '\'' ∨ c = '"' ∨ c = '\x60' ∨ c = '´' := by
    simpa [isQuoteMark, or_assoc] using h
  refine solitary_of_not_mem (by simp [isDelimiter, h]) ?_
  rcases hc with rfl | rfl | rfl | rfl <;> decide

theorem pieces_cons_of_solitary {c : Char} (hc : Solitary c) (base : Nat)
    (u : Text) :
    pieces base (c :: u)
      = ⟨.delimiter, [c], base⟩ :: pieces (base + c.utf8Size) u := by
  obtain ⟨hdel, hleft, -⟩ := hc
  cases u with
  | nil => simp [pieces, hdel]
  | cons d u => simp [pieces, hdel, hleft]

/-- A solitary character cuts: the text before it and the text after it
have the pieces that they have by themselves. -/
theorem pieces_append_cons {c : Char} (hc : Solitary c) (base : Nat)
    (t u : Text) :
    pieces base (t ++ c :: u)
      = pieces base t ++ ⟨.delimiter, [c], base + t.byteSize⟩
          :: pieces (base + t.byteSize + c.utf8Size) u := by
  obtain ⟨hdel, hleft, hright⟩ := id hc
  fun_induction pieces base t with
  | case1 base => simpa using pieces_cons_of_solitary hc base u
  | case2 base e he =>
      simp [pieces, hright, he, pieces_cons_of_solitary hc]
  | case3 base e he =>
      simp [pieces, hright, he, pieces_cons_of_solitary hc, consText]
  | case4 base d e t hde ih =>
      simp [pieces, hde, ih, Nat.add_assoc]
  | case5 base d e t hde hd ih =>
      rw [List.cons_append] at ih
      simp [pieces, hde, hd, ih, Nat.add_assoc]
  | case6 base d e t hde hd ih =>
      rw [List.cons_append] at ih
      have hcons : ∀ {qs : List Token},
          consText d base (pieces (base + d.utf8Size) (e :: t) ++ qs)
            = consText d base (pieces (base + d.utf8Size) (e :: t))
                ++ qs := by
        intro qs
        cases hps : pieces (base + d.utf8Size) (e :: t) with
        | nil =>
            have := congrArg content hps
            rw [content_pieces] at this
            cases this
        | cons p ps =>
            rw [List.cons_append]
            unfold consText
            split <;> simp_all
      simp [pieces, hde, hd, ih, hcons, Nat.add_assoc]

end Token
end FilterQuery
