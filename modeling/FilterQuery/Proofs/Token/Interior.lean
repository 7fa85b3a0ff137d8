/-
The tokens of a text and what is inside them. `tokenizeAt_eq_ok_iff_grouped`
is how all later laws open a tokenization: the tokens before groups are
joined, the literal that is left open, and what the group pass makes of
them.

Reading the contents of a group again finds nothing new. Between the
parentheses of a closed group there are the very tokens that the group was
joined from (`lexed_closed`), with the same offsets; behind the parenthesis
of an open one there are those up to the end of the text, and the quoted
stretch that is left open there (`lexed_opened`). Every group starts with a
parenthesis, so its contents are shorter than the text
(`length_interior_lt`).
-/
import FilterQuery.Proofs.Token.Groups

namespace FilterQuery

namespace Token

open Nesting

-- ======================================================= the open literal

/-- A literal that is left open is no parenthesis. -/
private theorem Opened.WellMarked.paren?_eq_none {last : Opened}
    (h : last.WellMarked) : ∀ t ∈ last.tokens, t.paren? = none := by
  obtain _ | ⟨quote, opened⟩ := last
  · exact fun t ht => absurd ht List.not_mem_nil
  · obtain ⟨-, v, hopened, -⟩ := h
    intro t ht
    obtain rfl := List.mem_singleton.1 ht
    rw [hopened]
    simp [paren?, isOpening, isClosing]

/-- So it changes no depth. -/
theorem Opened.WellMarked.level_append {last : Opened}
    (h : last.WellMarked) (d : Nat) (ts : List Token) :
    level paren? d (ts ++ last.tokens) = level paren? d ts := by
  have hlast : ∀ e, level paren? e last.tokens = some e := by
    intro e
    have hnone := h.paren?_eq_none
    obtain _ | ⟨quote, opened⟩ := last
    · rfl
    · exact level_cons_none (hnone opened (List.mem_singleton.2 rfl)) e []
  rw [Nesting.level_append]
  cases level paren? d ts with
  | none => rfl
  | some e => exact hlast e

/-- What stands from a parenthesis on ends with the open literal. -/
theorem Opened.WellMarked.split {last : Opened} (h : last.WellMarked)
    {ts xs ys : List Token} {p : Token} {side : Paren}
    (hp : p.paren? = some side) (hsplit : ts ++ last.tokens = xs ++ p :: ys) :
    ∃ zs, ys = zs ++ last.tokens ∧ ts = xs ++ p :: zs := by
  obtain _ | ⟨quote, opened⟩ := last
  · exact ⟨ys, (List.append_nil ys).symm, by simpa [tokens] using hsplit⟩
  · have hnone := h.paren?_eq_none opened (List.mem_singleton.2 rfl)
    rcases List.eq_nil_or_concat ys with rfl | ⟨zs, z, rfl⟩
    · obtain ⟨-, hlast⟩ := List.append_inj' hsplit rfl
      obtain rfl : opened = p := (List.cons.inj hlast).1
      rw [hnone] at hp
      cases hp
    · have hsplit' : ts ++ [opened] = (xs ++ p :: zs) ++ [z] := by
        simpa [tokens] using hsplit
      obtain ⟨hts, hlast⟩ := List.append_inj' hsplit' rfl
      obtain rfl : opened = z := (List.cons.inj hlast).1
      exact ⟨zs, by simp [tokens], hts⟩

/-- A group that is closed is closed before the open literal. -/
theorem Opened.WellMarked.split_group {last : Opened}
    (h : last.WellMarked) {ts as us bs : List Token} {o c : Token}
    (hc : c.isClosing = true)
    (hsplit : ts ++ last.tokens = as ++ o :: (us ++ c :: bs)) :
    ∃ zs, ts = as ++ o :: (us ++ c :: zs) := by
  have hsplit' : ts ++ last.tokens = (as ++ o :: us) ++ c :: bs := by
    simpa using hsplit
  obtain ⟨zs, -, rfl⟩ := h.split (paren?_eq_closing.2 hc) hsplit'
  exact ⟨zs, by simp⟩

-- ================================================== what groups are made of

/-- Every token that the pass puts out is one of its input that starts no
group, or a closed group, or in lenient mode an open one. -/
theorem Grouped.mem_cases {mode : Mode} {ts gs : List Token}
    (h : Grouped mode ts gs) : ∀ g ∈ gs,
      (g ∈ ts ∧ g.isOpening = false
        ∧ (mode = .strict → g.isClosing = false))
      ∨ (∃ as o us c bs, ts = as ++ o :: (us ++ c :: bs)
        ∧ g = grouped o (us ++ [c]) ∧ o.isOpening = true
        ∧ level paren? 0 us = some 0 ∧ c.isClosing = true)
      ∨ (mode = .lenient ∧ ∃ as o us k, ts = as ++ o :: us
        ∧ g = grouped o us ∧ o.isOpening = true
        ∧ level paren? 0 us = some k) := by
  -- What is found in a rest of the input is found in all of it.
  have lift : ∀ {xs ts : List Token} {g : Token},
      ((g ∈ ts ∧ g.isOpening = false
          ∧ (mode = .strict → g.isClosing = false))
        ∨ (∃ as o us c bs, ts = as ++ o :: (us ++ c :: bs)
          ∧ g = grouped o (us ++ [c]) ∧ o.isOpening = true
          ∧ level paren? 0 us = some 0 ∧ c.isClosing = true)
        ∨ (mode = .lenient ∧ ∃ as o us k, ts = as ++ o :: us
          ∧ g = grouped o us ∧ o.isOpening = true
          ∧ level paren? 0 us = some k)) →
      ((g ∈ xs ++ ts ∧ g.isOpening = false
          ∧ (mode = .strict → g.isClosing = false))
        ∨ (∃ as o us c bs, xs ++ ts = as ++ o :: (us ++ c :: bs)
          ∧ g = grouped o (us ++ [c]) ∧ o.isOpening = true
          ∧ level paren? 0 us = some 0 ∧ c.isClosing = true)
        ∨ (mode = .lenient ∧ ∃ as o us k, xs ++ ts = as ++ o :: us
          ∧ g = grouped o us ∧ o.isOpening = true
          ∧ level paren? 0 us = some k)) := by
    rintro xs ts g (⟨hmem, hg⟩ | ⟨as, o, us, c, bs, rfl, hg⟩
      | ⟨hm, as, o, us, k, rfl, hg⟩)
    · exact Or.inl ⟨List.mem_append_right _ hmem, hg⟩
    · exact Or.inr (Or.inl ⟨xs ++ as, o, us, c, bs, by simp, hg⟩)
    · exact Or.inr (Or.inr ⟨hm, xs ++ as, o, us, k, by simp, hg⟩)
  induction h with
  | nil => exact fun g hg => absurd hg List.not_mem_nil
  | @plain t ts gs ho hc h ih =>
      intro g hg
      rcases List.mem_cons.1 hg with rfl | hg
      · exact Or.inl ⟨List.mem_cons_self .., ho, hc⟩
      · exact @lift [t] _ _ (ih g hg)
  | @closed o c ts us gs ho hts hc h ih =>
      intro g hg
      rcases List.mem_cons.1 hg with rfl | hg
      · exact Or.inr (Or.inl ⟨[], o, ts, c, us, rfl, rfl, ho, hts, hc⟩)
      · have hsplit : o :: (ts ++ c :: us) = (o :: (ts ++ [c])) ++ us := by
          simp
        rw [hsplit]
        exact lift (ih g hg)
  | @opened o ts k hm ho hts =>
      intro g hg
      obtain rfl := List.mem_singleton.1 hg
      exact Or.inr (Or.inr ⟨hm, [], o, ts, k, rfl, rfl, ho, hts⟩)

/-- In strict mode only balanced tokens are joined. -/
theorem Grouped.balanced {ts gs : List Token} (h : Grouped .strict ts gs) :
    level paren? 0 ts = some 0 := by
  induction h with
  | nil => rfl
  | plain ho hc h ih =>
      rw [level_cons_none (paren?_eq_none.2 ⟨ho, hc rfl⟩)]
      exact ih
  | closed ho hts hc h ih =>
      rw [level_cons_opening (paren?_eq_opening.2 ho), level_append,
        level_add hts 1]
      rw [Option.bind_some]
      rw [level_cons_closing (paren?_eq_closing.2 hc)]
      exact ih
  | opened hm => cases hm

/-- Without an open group both modes join the same groups. -/
theorem Grouped.lenient {ts gs : List Token} (h : Grouped .strict ts gs) :
    Grouped .lenient ts gs := by
  induction h with
  | nil => exact .nil
  | plain ho hc h ih => exact .plain ho (fun hm => nomatch hm) ih
  | closed ho hts hc h ih => exact .closed ho hts hc ih
  | opened hm => cases hm

/-- The contents of a group are a stretch of its text. -/
theorem interior_sublist (t : Token) : t.interior.Sublist t.text :=
  (Text.dropTrailing_prefix _ _).sublist.trans
    (Text.dropLeading_suffix _ _).sublist

theorem interior_grouped {o : Token} (ho : o.isOpening = true)
    (ts : List Token) :
    (grouped o ts).interior = (content ts).dropTrailing ')' := by
  simp [interior, grouped, text_of_isOpening ho, Text.dropLeading]

/-- Between the parentheses of a closed group stand the tokens that it was
joined from. -/
theorem interior_closed {o c : Token} (ho : o.isOpening = true)
    (hc : c.isClosing = true) (ts : List Token) :
    (grouped o (ts ++ [c])).interior = content ts := by
  rw [interior_grouped ho]
  simp [text_of_isClosing hc, Text.dropTrailing_append_singleton]

-- =================================================== tokens of a whole text

theorem IsUngrouped.kind_ne_group {t : Token} (h : IsUngrouped t) :
    t.kind ≠ .group := by
  cases h with
  | piece h =>
      cases h with
      | text => simp
      | single => simp
      | double => simp
  | quoted => simp

section Whole

variable {mode : Mode} {base : Nat} {text : Text} {ts gs : List Token}
  {last : Opened}

/-- A text has tokens before groups unless a quote is open in it and that is
refused. -/
theorem ungrouped_eq_ok (h : lexed base text = (ts, last))
    (hm : mode = .lenient ∨ last = none) :
    ungrouped mode base text = .ok (ts ++ last.tokens) := by
  rw [ungrouped_eq, h]
  obtain _ | ⟨quote, opened⟩ := last
  · simp [quoteEnd, Opened.tokens]
  · obtain rfl := hm.resolve_right (by simp)
    simp [quoteEnd, Opened.tokens]

/-- No group is there before groups are joined. -/
theorem kind_ne_group_of_lexed (h : lexed base text = (ts, last)) :
    ∀ u ∈ ts ++ last.tokens, u.kind ≠ .group := by
  obtain ⟨hts, hlast⟩ := isUngrouped_of_mem_lexed h
  intro u hu
  rcases List.mem_append.1 hu with hu | hu
  · exact (hts u hu).kind_ne_group
  · obtain _ | ⟨quote, opened⟩ := last
    · exact absurd hu List.not_mem_nil
    · obtain rfl := List.mem_singleton.1 hu
      obtain ⟨-, v, hopened, -⟩ := hlast
      rw [hopened]
      simp

/-- A text has tokens exactly if no literal is left open in strict mode,
and the group pass reads what the quote pass leaves. -/
theorem tokenizeAt_eq_ok_iff_grouped :
    tokenizeAt mode base text = .ok gs
      ↔ ∃ ts last, lexed base text = (ts, last)
          ∧ (mode = .lenient ∨ last = none)
          ∧ Grouped mode (ts ++ last.tokens) gs := by
  rw [tokenizeAt_eq]
  constructor
  · intro h
    rcases hlexed : lexed base text with ⟨ts, last⟩
    have hm : mode = .lenient ∨ last = none := by
      cases mode with
      | lenient => exact Or.inl rfl
      | strict =>
          obtain _ | ⟨quote, opened⟩ := last
          · exact Or.inr rfl
          · rw [ungrouped_eq, hlexed] at h
            cases h
    rw [ungrouped_eq_ok hlexed hm] at h
    exact ⟨ts, last, rfl, hm, grouped_of_joinGroups h⟩
  · intro h
    obtain ⟨ts, last, hlexed, hm, hgs⟩ := h
    rw [ungrouped_eq_ok hlexed hm]
    exact joinGroups_of_grouped hgs

/-- In strict mode there is no literal left open. -/
theorem tokenizeAt_strict_eq_ok_iff :
    tokenizeAt .strict base text = .ok gs
      ↔ ∃ ts, lexed base text = (ts, none) ∧ Grouped .strict ts gs := by
  rw [tokenizeAt_eq_ok_iff_grouped]
  constructor
  · rintro ⟨ts, last, hlexed, hlast, hgs⟩
    obtain rfl := hlast.resolve_left (by simp)
    exact ⟨ts, hlexed, by simpa [Opened.tokens] using hgs⟩
  · rintro ⟨ts, hlexed, hgs⟩
    exact ⟨ts, none, hlexed, Or.inr rfl, by simpa [Opened.tokens]⟩

/-- The tokens of a text in strict mode are its tokens in lenient mode. -/
theorem tokenizeAt_lenient (h : tokenizeAt .strict base text = .ok gs) :
    tokenizeAt .lenient base text = .ok gs := by
  obtain ⟨ts, last, hlexed, -, hgs⟩ := tokenizeAt_eq_ok_iff_grouped.1 h
  exact tokenizeAt_eq_ok_iff_grouped.2
    ⟨ts, last, hlexed, Or.inl rfl, hgs.lenient⟩

/-- Every group of a text is joined from an opening parenthesis and tokens
that follow it. -/
theorem exists_grouped_of_mem (h : tokenizeAt mode base text = .ok gs)
    {g : Token} (hg : g ∈ gs) (hkind : g.kind = .group) :
    ∃ ts last as o us bs, lexed base text = (ts, last)
      ∧ ts ++ last.tokens = as ++ o :: (us ++ bs)
      ∧ o.isOpening = true ∧ g = grouped o us := by
  obtain ⟨ts, last, hlexed, -, hgs⟩ := tokenizeAt_eq_ok_iff_grouped.1 h
  rcases hgs.mem_cases g hg with ⟨hmem, -⟩
    | ⟨as, o, us, c, bs, hsplit, rfl, ho, -⟩
    | ⟨-, as, o, us, k, hsplit, rfl, ho, -⟩
  · exact absurd hkind (kind_ne_group_of_lexed hlexed g hmem)
  · exact ⟨ts, last, as, o, us ++ [c], bs, hlexed, by simp [hsplit], ho, rfl⟩
  · exact ⟨ts, last, as, o, us, [], hlexed, by simp [hsplit], ho, rfl⟩

/-- A group of a text starts with a parenthesis, so its contents are shorter
than it is. -/
theorem starts_of_mem_group (h : tokenizeAt mode base text = .ok gs)
    {g : Token} (hg : g ∈ gs) (hkind : g.kind = .group) :
    g.text.head? = some '(' ∧ g.interior.length < g.text.length
      ∧ g.text.length ≤ text.length := by
  obtain ⟨ts, last, as, o, us, bs, hlexed, hsplit, ho, rfl⟩ :=
    exists_grouped_of_mem h hg hkind
  have htext : (grouped o us).text = '(' :: content us := by
    simp [grouped, text_of_isOpening ho]
  have hwhole := content_lexed hlexed
  rw [← content_append, hsplit] at hwhole
  refine ⟨by rw [htext]; rfl, ?_, ?_⟩
  · have hdrop := Text.length_dropTrailing_le ')' (content us)
    rw [interior_grouped ho, htext, List.length_cons]
    omega
  · rw [htext, ← hwhole]
    simp only [content_append, content_cons, text_of_isOpening ho,
      List.length_append, List.length_cons, List.length_nil]
    omega

/-- The contents of a group are shorter than the text that it stands in. -/
theorem length_interior_lt (h : tokenizeAt mode base text = .ok gs)
    {g : Token} (hg : g ∈ gs) (hkind : g.kind = .group) :
    g.interior.length < text.length := by
  obtain ⟨-, hinterior, htext⟩ := starts_of_mem_group h hg hkind
  exact Nat.lt_of_lt_of_le hinterior htext

end Whole

/-- The tokens between the parentheses of a closed group. -/
theorem lexed_closed {base : Nat} {text : Text} {ts us vs : List Token}
    {o c : Token} {last : Opened}
    (h : lexed base text = (ts ++ o :: (us ++ c :: vs), last))
    (ho : o.isOpening = true) :
    lexed (o.offset + 1) (content us) = (us, none) := by
  have htiles := tiles_lexed h
  rw [List.append_assoc, List.cons_append] at htiles
  have hoffset := htiles.offset_eq
  have hsplit : ts ++ o :: (us ++ c :: vs)
      = (ts ++ [o]) ++ us ++ c :: vs := by simp
  rw [hsplit] at h
  have hinner := lexed_infix h
  rw [content_append, Text.byteSize_append, ← Nat.add_assoc,
    ← hoffset] at hinner
  simpa [text_of_isOpening ho, Char.utf8Size] using hinner

/-- The tokens behind an opening parenthesis, up to the end. -/
theorem lexed_opened {base : Nat} {text : Text} {ts us : List Token}
    {o : Token} {last : Opened}
    (h : lexed base text = (ts ++ o :: us, last))
    (ho : o.isOpening = true) :
    lexed (o.offset + 1) (content us ++ content last.tokens)
      = (us, last) := by
  have htiles := tiles_lexed h
  rw [List.append_assoc, List.cons_append] at htiles
  have hoffset := htiles.offset_eq
  have hsplit : ts ++ o :: us = (ts ++ [o]) ++ us := by simp
  rw [hsplit] at h
  have hinner := lexed_suffix h
  rw [content_append, Text.byteSize_append, ← Nat.add_assoc,
    ← hoffset] at hinner
  simpa [text_of_isOpening ho, Char.utf8Size] using hinner

end Token

end FilterQuery
