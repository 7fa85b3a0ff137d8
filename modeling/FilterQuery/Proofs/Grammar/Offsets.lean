/-
Where in a query a refused token stands. The contents of a group are read
as a text of their own, from an offset of their own, once for every level,
so the offset in an error has been put together on the way down.

A region is a text with the offset at which it starts. That one region
stands in another is transitive (`Region.Holds.trans`), and every step down
keeps to it: a token stands in the text that it is cut from, and the
contents of a group stand in the group (`Region.Encloses.holds`). So what
is found at the bottom stands in the whole query, whatever is above it.

The tokens of a region tile it, so two groups are apart or one is inside
the other. That makes the region that a token is cut from the smallest one
around it (`Region.Encloses.innermost`).
-/
import FilterQuery.Proofs.Filter.Outcomes

namespace FilterQuery

open Token

-- ================================================================ regions

/-- A text and the offset at which it starts: a query, or a part of one. -/
structure Region where
  base : Nat
  text : Text

namespace Region

/-- The offset just past the last character. -/
def stop (r : Region) : Nat := r.base + r.text.byteSize

/-- The part stands in the region, at the offset that it starts at. -/
def Holds (r part : Region) : Prop :=
  ∃ before after, r.text = before ++ part.text ++ after
    ∧ part.base = r.base + before.byteSize

variable {r s u : Region}

theorem Holds.refl (r : Region) : r.Holds r :=
  ⟨[], [], (List.append_nil _).symm, rfl⟩

theorem Holds.trans (hrs : r.Holds s) (hsu : s.Holds u) : r.Holds u := by
  obtain ⟨before, after, htext, hbase⟩ := hrs
  obtain ⟨before', after', htext', hbase'⟩ := hsu
  refine ⟨before ++ before', after' ++ after, ?_, ?_⟩
  · rw [htext, htext']
    simp only [List.append_assoc]
  · rw [hbase', hbase, Text.byteSize_append, Nat.add_assoc]

private theorem Holds.base_le (h : r.Holds s) : r.base ≤ s.base := by
  obtain ⟨before, -, -, hbase⟩ := h
  omega

private theorem Holds.stop_le (h : r.Holds s) : s.stop ≤ r.stop := by
  obtain ⟨before, after, htext, hbase⟩ := h
  unfold stop
  rw [htext, Text.byteSize_append, Text.byteSize_append]
  omega

end Region

namespace Token

/-- The region that a token takes. -/
def region (t : Token) : Region := ⟨t.offset, t.text⟩

/-- The region between the parentheses of a group. -/
def inside (t : Token) : Region := ⟨t.offset + 1, t.interior⟩

private theorem stop_region (t : Token) : t.region.stop = t.stop := rfl

/-- Two tokens of a tiling are the same or apart. -/
theorem Tiles.eq_or_apart {base : Nat} {ts : List Token} {t u : Token}
    (h : Tiles base ts) (ht : t ∈ ts) (hu : u ∈ ts) :
    t = u ∨ t.stop ≤ u.offset ∨ u.stop ≤ t.offset := by
  obtain ⟨before, after, rfl⟩ := List.append_of_mem ht
  rcases List.mem_append.1 hu with hu | hu
  · obtain ⟨before', between, rfl⟩ := List.append_of_mem hu
    rw [List.append_assoc] at h
    exact Or.inr (Or.inr (h.stop_le (by simp)))
  · rcases List.mem_cons.1 hu with rfl | hu
    · exact Or.inl rfl
    · exact Or.inr (Or.inl (h.stop_le hu))

end Token

-- =============================================================== the way down

namespace Region

variable {mode : Mode} {r s : Region} {ts : List Token}

/-- From a region into the contents of groups among its tokens, any number
of times. -/
inductive Encloses (mode : Mode) : Region → Region → Prop where
  | refl (r : Region) : Encloses mode r r
  | group {r s : Region} {ts : List Token} {g : Token}
      (hts : tokenizeAt mode r.base r.text = .ok ts) (hg : g ∈ ts)
      (hkind : g.kind = .group) (h : Encloses mode g.inside s) :
      Encloses mode r s

/-- A token stands in the region that it is cut from. -/
theorem holds_of_mem (hts : tokenizeAt mode r.base r.text = .ok ts)
    {t : Token} (ht : t ∈ ts) : r.Holds t.region := by
  have hseg := isSegmentation_of_tokenizeAt hts
  obtain ⟨before, after, rfl⟩ := List.append_of_mem ht
  refine ⟨content before, content after, ?_, hseg.tiles.offset_eq⟩
  rw [← hseg.covers]
  simp [region]

/-- A group starts with its parenthesis, whatever it ends with. -/
theorem holds_inside (hts : tokenizeAt mode r.base r.text = .ok ts)
    {g : Token} (hg : g ∈ ts) (hkind : g.kind = .group) :
    g.region.Holds g.inside := by
  obtain ⟨hstart, -⟩ := starts_of_mem_group hts hg hkind
  obtain ⟨v, hv⟩ := List.head?_eq_some_iff.1 hstart
  have hinterior : g.interior = Text.dropTrailing ')' v := by
    simp [Token.interior, hv, Text.dropLeading]
  obtain ⟨after, hafter⟩ := Text.dropTrailing_prefix ')' v
  refine ⟨['('], after, ?_, rfl⟩
  show g.text = ['('] ++ g.interior ++ after
  rw [hv, hinterior, List.append_assoc, hafter]
  rfl

/-- What is reached on the way down stands in what it is reached from. -/
theorem Encloses.holds (h : Encloses mode r s) : r.Holds s := by
  induction h with
  | refl r => exact .refl r
  | group hts hg hkind h ih =>
      exact ((holds_of_mem hts hg).trans (holds_inside hts hg hkind)).trans ih

/-- What is reached through a group lies behind its parenthesis. -/
theorem Encloses.within {g : Token}
    (hts : tokenizeAt mode r.base r.text = .ok ts) (hg : g ∈ ts)
    (hkind : g.kind = .group) (h : Encloses mode g.inside s) :
    g.offset < s.base ∧ s.stop ≤ g.stop := by
  have hbase := h.holds.base_le
  have hstop := h.holds.stop_le
  have hinside := (holds_inside hts hg hkind).stop_le
  rw [stop_region] at hinside
  constructor
  · exact hbase
  · exact Nat.le_trans hstop hinside

/-- Of all regions on the ways down from one, the region that a token is
cut from is the innermost around it. -/
theorem Encloses.innermost {u : Region} {t : Token}
    (hs : Encloses mode r s) (hts : tokenizeAt mode s.base s.text = .ok ts)
    (ht : t ∈ ts) (hne : t.isBlank = false) (hu : Encloses mode r u)
    (hbase : u.base ≤ t.offset) (hstop : t.stop ≤ u.stop) :
    Encloses mode u s := by
  have hlong : t.offset < t.stop := by
    obtain ⟨offset, c, v, hoffset, htext⟩ :
        ∃ offset c v, t.offset = offset ∧ t.text = c :: v := by
      cases htext : t.text with
      | nil => simp [isBlank, Text.isBlank, htext] at hne
      | cons c v => exact ⟨_, c, v, rfl, rfl⟩
    have hsize := c.utf8Size_pos
    simp only [Token.stop, htext, Text.byteSize_cons]
    omega
  induction hs with
  | refl r =>
      cases hu with
      | refl => exact .refl _
      | group hgs hg hkind hu =>
          -- The token would lie behind the parenthesis of a group beside it,
          -- or behind its own.
          exfalso
          have hwithin := hu.within hgs hg hkind
          rw [hts] at hgs
          obtain rfl := Except.ok.inj hgs
          have htiles := (isSegmentation_of_tokenizeAt hts).tiles
          rcases htiles.eq_or_apart ht hg with rfl | happart
          · omega
          · omega
  | @group r s hs g hhs hg hkind h ih =>
      have hinner := (h.holds.trans (holds_of_mem hts ht))
      have hbase' := hinner.base_le
      have hstop' := hinner.stop_le
      have hwithin := h.within hhs hg hkind
      cases hu with
      | refl => exact .group hhs hg hkind h
      | @group _ _ gs g' hgs hg' hkind' hu =>
          have hwithin' := hu.within hgs hg' hkind'
          rw [hhs] at hgs
          obtain rfl := Except.ok.inj hgs
          have htiles := (isSegmentation_of_tokenizeAt hhs).tiles
          have hheld := (holds_of_mem hts ht).base_le
          have hheld' := (holds_of_mem hts ht).stop_le
          rw [stop_region] at hheld'
          have hoffset : t.region.base = t.offset := rfl
          rcases htiles.eq_or_apart hg hg' with rfl | happart
          · exact ih hts hu
          · omega

end Region

-- ============================================================== the refusal

namespace Node

open Grammar

/-- A token that does not fit is one of the region at hand, or of one
further down. -/
theorem exists_region_of_parseAt {mode : Mode} {base : Nat}
    {text found : Text} {expected : Expected} {offset : Nat}
    (h : parseAt mode base text
      = .error (.unexpectedToken found expected offset)) :
    ∃ r ts t, Region.Encloses mode ⟨base, text⟩ r
      ∧ tokenizeAt mode r.base r.text = .ok ts ∧ t ∈ ts
      ∧ t.isBlank = false ∧ t.text = found ∧ t.offset = offset := by
  induction base, text using contents_induction mode with
  | step base text ih =>
      rw [parseAt_eq] at h
      cases hts : tokenizeAt mode base text with
      | error e =>
          rw [hts] at h
          obtain rfl := Except.error.inj h
          cases (isLexical_of_tokenizeAt hts).2
      | ok ts =>
          rw [hts] at h
          have h : ofTokens mode ts
              = .error (.unexpectedToken found expected offset) := h
          have hmem : ∀ {t}, t ∈ ts.filter (!·.isBlank) →
              t ∈ ts ∧ t.isBlank = false := by
            intro t ht
            simpa using List.mem_filter.1 ht
          -- A token of this text is refused, or something within one of its
          -- groups.
          rcases fillFrom_eq_error h
            with ⟨t, ht, expected', he⟩ | ⟨expected', he⟩ | ⟨g, hg, hkind, hc⟩
          · obtain ⟨rfl, -, rfl⟩ := QueryError.unexpectedToken.inj he
            obtain ⟨ht, hne⟩ := hmem ht
            exact ⟨⟨base, text⟩, ts, t, .refl _, hts, ht, hne, rfl, rfl⟩
          · cases he
          · obtain ⟨hg, -⟩ := hmem hg
            obtain ⟨r, us, t, hr, ht⟩ := ih ts hts g hg hkind hc
            exact ⟨r, us, t, .group hts hg hkind hr, ht⟩

end Node

namespace Filter

/-- A query that is refused for a token has that token at the offset of the
error, counted in bytes from its start. The token is a whole one of the
innermost group around it, or of the query if there is none, and it is not
blank. -/
theorem unexpectedToken_at_offset {mode : Mode} {query found : Text}
    {expected : Expected} {offset : Nat}
    (h : Node.parse mode query
          = .error (.unexpectedToken found expected offset)
        ∨ ∃ f : Filter, f.mode = mode ∧ f.compileQuery query
          = .error (.unexpectedToken found expected offset)) :
    (∃ before after, query = before ++ found ++ after
        ∧ before.byteSize = offset)
      ∧ ∃ r ts t, Region.Encloses mode ⟨0, query⟩ r
        ∧ tokenizeAt mode r.base r.text = .ok ts ∧ t ∈ ts
        ∧ t.isBlank = false ∧ t.text = found ∧ t.offset = offset
        ∧ ∀ u, Region.Encloses mode ⟨0, query⟩ u → u.base ≤ offset →
            offset + found.byteSize ≤ u.stop → Region.Encloses mode u r := by
  have hparse : Node.parse mode query
      = .error (.unexpectedToken found expected offset) := by
    rcases h with h | ⟨f, rfl, h⟩
    · exact h
    · cases hns : Node.parse f.mode query with
      | error e =>
          rw [compileQuery_of_parse_error hns] at h
          rw [Except.error.inj h]
      | ok ns =>
          rw [compileQuery_of_parse hns] at h
          cases isSemantic_of_compile (Node.fits_of_parseAt hns) h
  obtain ⟨r, ts, t, hr, hts, ht, hne, rfl, rfl⟩ :=
    Node.exists_region_of_parseAt hparse
  constructor
  · obtain ⟨before, after, hquery, hoffset⟩ :=
      hr.holds.trans (Region.holds_of_mem hts ht)
    refine ⟨before, after, hquery, ?_⟩
    rw [show t.offset = 0 + before.byteSize from hoffset, Nat.zero_add]
  · refine ⟨r, ts, t, hr, hts, ht, hne, rfl, rfl, ?_⟩
    intro u hu hbase hstop
    exact hr.innermost hts ht hne hu hbase hstop

/-- Two groups deep, behind blanks, characters of two bytes and a quoted
parenthesis. -/
theorem unexpectedToken_at_offset_nested :
    let query : Text := "é = 'ü)' OR ( \t(ß ISNULL == 1))".toList
    Node.parse .strict query
        = .error (.unexpectedToken ['='] .bind 28)
      ∧ ∃ before after, query = before ++ ['='] ++ after
          ∧ before.byteSize = 28 := by
  intro query
  have hparse : Node.parse .strict query
      = .error (.unexpectedToken ['='] .bind 28) := by
    rw [← refusal_eq_some_iff]
    decide +kernel
  exact ⟨hparse, (unexpectedToken_at_offset (Or.inl hparse)).1⟩

end Filter
end FilterQuery
