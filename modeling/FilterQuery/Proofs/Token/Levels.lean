/-
Reading groups level by level. The group pass keeps a group as one token,
and its contents are read again when the parser goes into it. Nothing is
gained or lost by that: the contents of a group have the tokens that the
whole text has between the two parentheses, at the same offsets
(`filter_within`), and going down through all levels leads back to the
tokens that the groups were joined from, each of them once
(`tokenizeAt_levels`).

Which tokens are between the parentheses of a group is told by their
offsets alone, since the tokens of a text tile it. What carries the descent
is that the contents of a closed group are balanced and read without an
open literal, so that the group pass has a result on them again.
-/
import FilterQuery.Proofs.Token.Interior

namespace FilterQuery
namespace Token

open Nesting

-- ================================================ between the parentheses

/-- A token behind the first character of a group and before its last
one. -/
def within (g t : Token) : Bool :=
  decide (g.offset < t.offset) && decide (t.stop < g.stop)

/-- Within a group is what lies between its two ends. -/
private theorem within_eq_true {g t : Token} :
    within g t = true ↔ g.offset < t.offset ∧ t.stop < g.stop := by
  simp [within]

private theorem within_eq_false {g t : Token}
    (h : t.offset ≤ g.offset ∨ g.stop ≤ t.stop) : within g t = false := by
  rw [Bool.eq_false_iff]
  intro hwithin
  have := within_eq_true.1 hwithin
  omega

private theorem stop_of_isOpening {o : Token} (ho : o.isOpening = true) :
    o.stop = o.offset + 1 := by
  simp [stop, text_of_isOpening ho, Char.utf8Size]

private theorem stop_of_isClosing {c : Token} (hc : c.isClosing = true) :
    c.stop = c.offset + 1 := by
  simp [stop, text_of_isClosing hc, Char.utf8Size]

private theorem offset_le_stop (t : Token) : t.offset ≤ t.stop :=
  Nat.le_add_right ..

/-- A group ends where its closing parenthesis ends. -/
theorem stop_grouped {base : Nat} {before us after : List Token}
    {o c : Token} (h : Tiles base (before ++ o :: (us ++ c :: after))) :
    (grouped o (us ++ [c])).stop = c.stop := by
  have hoffset := (tiles_append.1 h).2.2.offset_eq
  simp only [stop] at hoffset
  simp only [stop, grouped, content_append, content_cons, content_nil,
    Text.byteSize_append, Text.byteSize_nil, hoffset]
  omega

/-- Of all tokens those between the parentheses of a closed group are the
ones it was joined from. -/
theorem filter_within {base : Nat} {before us after : List Token}
    {o c : Token} (h : Tiles base (before ++ o :: (us ++ c :: after)))
    (ho : o.isOpening = true) (hc : c.isClosing = true) :
    (before ++ o :: (us ++ c :: after)).filter
        (within (grouped o (us ++ [c]))) = us := by
  have hstop := stop_grouped h
  -- Tokens do not overlap, so offsets tell what lies before the group, in it
  -- and behind it.
  have hbefore : ∀ t ∈ before,
      within (grouped o (us ++ [c])) t = false := by
    intro t ht
    obtain ⟨xs, ys, rfl⟩ := List.append_of_mem ht
    rw [List.append_assoc] at h
    have hle := Tiles.stop_le (t := t) (u := o) h (by simp)
    exact within_eq_false (Or.inl (Nat.le_trans (offset_le_stop t) hle))
  have hinner := (tiles_append.1 h).2
  have hwithin : ∀ t ∈ us, within (grouped o (us ++ [c])) t = true := by
    intro t ht
    have hstart := @Tiles.stop_le _ [] _ o t hinner
      (List.mem_append_left _ ht)
    obtain ⟨xs, ys, rfl⟩ := List.append_of_mem ht
    have hend := hinner.2
    rw [List.append_assoc] at hend
    have hle := Tiles.stop_le (t := t) (u := c) hend (by simp)
    rw [within_eq_true, hstop]
    rw [stop_of_isOpening ho] at hstart
    rw [stop_of_isClosing hc]
    exact ⟨hstart, Nat.lt_succ_of_le hle⟩
  have hafter : ∀ t ∈ c :: after,
      within (grouped o (us ++ [c])) t = false := by
    intro t ht
    rw [within_eq_false]
    rw [hstop]
    rcases List.mem_cons.1 ht with rfl | ht
    · exact Or.inr (Nat.le_refl _)
    · have hle := Tiles.stop_le hinner.2 ht
      exact Or.inr (Nat.le_trans hle (offset_le_stop t))
  have ho' : within (grouped o (us ++ [c])) o = false :=
    within_eq_false (Or.inl (Nat.le_refl _))
  rw [List.filter_append, List.filter_cons, ho', List.filter_append,
    List.filter_eq_nil_iff.2 (by simpa using hbefore),
    List.filter_eq_self.2 hwithin,
    List.filter_eq_nil_iff.2 (by simpa using hafter)]
  simp

-- ============================================================== one level

/-- The contents of a closed group: the tokens between its parentheses are
those of its interior, and the group pass has a result on them in either
mode. -/
theorem exists_grouped_interior {base : Nat} {text : Text}
    {before us after : List Token} {o c : Token} {last : Opened}
    (h : lexed base text = (before ++ o :: (us ++ c :: after), last))
    (ho : o.isOpening = true) (hus : level paren? 0 us = some 0)
    (hc : c.isClosing = true) :
    ∃ hs, Grouped .strict us hs
      ∧ ∀ mode, tokenizeAt mode (o.offset + 1)
          (grouped o (us ++ [c])).interior = .ok hs := by
  obtain ⟨hs, hhs⟩ := exists_grouped_strict hus
  have hstrict : tokenizeAt .strict (o.offset + 1) (content us) = .ok hs :=
    tokenizeAt_strict_eq_ok_iff.2 ⟨us, lexed_closed h ho, hhs⟩
  refine ⟨hs, hhs, fun mode => ?_⟩
  rw [interior_closed ho hc]
  cases mode with
  | strict => exact hstrict
  | lenient => exact tokenizeAt_lenient hstrict

-- ============================================================= all levels

/-- Tokens and what they come to if every group is opened, read again and
put back between its two parentheses, and the groups that this brings up
likewise. -/
inductive Unfolds (mode : Mode) : List Token → List Token → Prop where
  | nil : Unfolds mode [] []
  | plain {t : Token} {gs ts : List Token} (hkind : t.kind ≠ .group)
      (hgs : Unfolds mode gs ts) : Unfolds mode (t :: gs) (t :: ts)
  | group {g : Token} {gs hs us ts : List Token} (hkind : g.kind = .group)
      (hread : tokenizeAt mode (g.offset + 1) g.interior = .ok hs)
      (hhs : Unfolds mode hs us) (hgs : Unfolds mode gs ts) :
      Unfolds mode (g :: gs)
        (⟨.delimiter, ['('], g.offset⟩
          :: (us ++ ⟨.delimiter, [')'], g.stop - 1⟩ :: ts))

/-- There is one way to do that. -/
theorem Unfolds.eq {mode : Mode} {gs ts us : List Token}
    (h : Unfolds mode gs ts) (h' : Unfolds mode gs us) : ts = us := by
  induction h generalizing us with
  | nil =>
      cases h'
      rfl
  | plain hkind hgs ih =>
      cases h' with
      | plain _ hgs' => rw [ih hgs']
      | group hkind' => exact absurd hkind' hkind
  | group hkind hread hhs hgs ihInner ih =>
      cases h' with
      | plain hkind' => exact absurd hkind hkind'
      | group _ hread' hhs' hgs' =>
          obtain rfl := Except.ok.inj (hread.symm.trans hread')
          rw [ihInner hhs', ih hgs']

/-- An opening parenthesis is told by its offset alone. -/
private theorem eq_of_isOpening {o : Token} (ho : o.isOpening = true) :
    o = ⟨.delimiter, ['('], o.offset⟩ := by
  rw [← kind_of_isOpening ho, ← text_of_isOpening ho]

/-- A closing parenthesis is told by where it stops. -/
private theorem eq_of_isClosing {c : Token} (hc : c.isClosing = true) :
    c = ⟨.delimiter, [')'], c.stop - 1⟩ := by
  rw [stop_of_isClosing hc, Nat.add_sub_cancel, ← kind_of_isClosing hc,
    ← text_of_isClosing hc]

/-- Going down through the groups that were joined leads back to the tokens
they were joined from. -/
theorem Grouped.unfolds (mode : Mode) {base : Nat} {text : Text}
    {ts gs : List Token} (hlexed : lexed base text = (ts, none))
    (h : Grouped .strict ts gs) : Unfolds mode gs ts := by
  -- The contents of a group are fewer tokens than the text with it, and so
  -- is what comes after it.
  induction hn : ts.length using Nat.strongRecOn
    generalizing base text ts gs with
  | _ n ih =>
      subst hn
      cases h with
      | nil => exact .nil
      | @plain t ts gs ho hc h =>
          have hkind := kind_ne_group_of_lexed hlexed t (by simp)
          have hrest := @lexed_suffix base text [t] ts none hlexed
          exact .plain hkind (ih ts.length (by simp) hrest h rfl)
      | @closed o c us ts gs ho hus hc h =>
          obtain ⟨hs, hhs, hread⟩ :=
            @exists_grouped_interior base text [] us ts o c none hlexed ho hus
              hc
          have hinside := @lexed_closed base text [] us ts o c none hlexed ho
          have hfewer : us.length < (o :: (us ++ c :: ts)).length
              ∧ ts.length < (o :: (us ++ c :: ts)).length := by
            simp only [List.length_cons, List.length_append]
            omega
          have hinner := ih us.length hfewer.1 hinside hhs rfl
          have htiles : Tiles base ([] ++ o :: (us ++ c :: ts)) := by
            simpa [Opened.tokens] using tiles_lexed hlexed
          have hsplit : o :: (us ++ c :: ts) = (o :: (us ++ [c])) ++ ts := by
            simp
          rw [hsplit] at hlexed
          have hrest := ih ts.length hfewer.2 (lexed_suffix hlexed) h rfl
          have hunfolds := Unfolds.group (g := grouped o (us ++ [c])) rfl
            (hread mode) hinner hrest
          rw [stop_grouped htiles, ← eq_of_isClosing hc] at hunfolds
          rwa [show (grouped o (us ++ [c])).offset = o.offset from rfl,
            ← eq_of_isOpening ho] at hunfolds
      | opened hm => cases hm

/-- Reading the contents of a group again gives what the group pass makes of
the tokens that the text has between the parentheses, and going down through
all levels gives every token of the text once. -/
theorem tokenizeAt_levels {base : Nat} {text : Text} {gs : List Token}
    (h : tokenizeAt .strict base text = .ok gs) :
    ∃ ts, ungrouped .strict base text = .ok ts
      ∧ (∀ g ∈ gs, g.kind = .group →
          g.text = '(' :: (g.interior ++ [')'])
          ∧ ungrouped .strict (g.offset + 1) g.interior
              = .ok (ts.filter (within g))
          ∧ ∃ hs, joinGroups .strict none (ts.filter (within g)) = .ok hs
            ∧ ∀ mode, tokenizeAt mode (g.offset + 1) g.interior = .ok hs)
      ∧ ∀ mode us, Unfolds mode gs us ↔ us = ts := by
  obtain ⟨ts, hlexed, hgs⟩ := tokenizeAt_strict_eq_ok_iff.1 h
  have htiles : Tiles base ts := by
    simpa [Opened.tokens] using tiles_lexed hlexed
  refine ⟨ts, ungrouped_strict_eq_ok.2 hlexed, fun g hg hkind => ?_,
    fun mode us => ?_⟩
  · rcases hgs.mem_cases g hg with ⟨hmem, -⟩
      | ⟨before, o, us, c, after, rfl, rfl, ho, hus, hc⟩ | ⟨hm, -⟩
    · have hnone := kind_ne_group_of_lexed hlexed g
        (List.mem_append_left _ hmem)
      exact absurd hkind hnone
    · obtain ⟨hs, hhs, hread⟩ := exists_grouped_interior hlexed ho hus hc
      rw [filter_within htiles ho hc]
      refine ⟨?_, ?_, hs, joinGroups_of_grouped hhs, hread⟩
      · rw [interior_closed ho hc]
        simp [grouped, text_of_isOpening ho, text_of_isClosing hc]
      · have hinner := lexed_closed hlexed ho
        rw [interior_closed ho hc]
        exact ungrouped_strict_eq_ok.2 hinner
    · cases hm
  · have hunfolds := hgs.unfolds mode hlexed
    constructor
    · exact fun hus => hus.eq hunfolds
    · rintro rfl
      exact hunfolds

/-- A text that starts at offset 3, with a group in a group and parentheses
that are quoted. -/
theorem tokenizeAt_levels_nested :
    ∃ gs ts, tokenizeAt .strict 3 "x(´)´(\"é(\"))=(')')".toList = .ok gs
      ∧ ts.length = 11
      ∧ gs.map (·.offset) = [3, 4, 18, 19]
      ∧ (∀ g ∈ gs, g.kind = .group →
          ∃ hs, joinGroups .strict none (ts.filter (within g)) = .ok hs
            ∧ tokenizeAt .strict (g.offset + 1) g.interior = .ok hs)
      ∧ ∀ us, Unfolds .strict gs us ↔ us = ts := by
  have hgs : tokenizeAt .strict 3 "x(´)´(\"é(\"))=(')')".toList
      = .ok [⟨.text, ['x'], 3⟩, ⟨.group, "(´)´(\"é(\"))".toList, 4⟩,
          ⟨.delimiter, ['='], 18⟩, ⟨.group, "(')')".toList, 19⟩] := by
    rfl
  obtain ⟨ts, hts, hgroups, hunfolds⟩ := tokenizeAt_levels hgs
  obtain ⟨us, hus, hlength⟩ : ∃ us,
      ungrouped .strict 3 "x(´)´(\"é(\"))=(')')".toList = .ok us
        ∧ us.length = 11 := ⟨_, rfl, rfl⟩
  obtain rfl := Except.ok.inj (hts.symm.trans hus)
  refine ⟨_, ts, hgs, hlength, rfl, fun g hg hkind => ?_, hunfolds .strict⟩
  obtain ⟨-, -, hs, hjoined, hread⟩ := hgroups g hg hkind
  exact ⟨hs, hjoined, hread .strict⟩

end Token
end FilterQuery
