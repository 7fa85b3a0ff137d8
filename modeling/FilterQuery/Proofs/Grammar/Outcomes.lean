/-
What reading a text comes to, in either mode. Where cutting it into tokens
fails, the error is a lexical one. Where that succeeds, the contents of all
groups have tokens too, so that whatever goes wrong further inside is a
token that does not fit or an end that comes too early; and if nothing
goes wrong, every node fits the slot that it fills.

Strict mode is the smaller one. What it accepts as tokens is the same in
lenient mode, group by group, and then so is all that is made of them.
-/
import FilterQuery.Proofs.Grammar.Acceptance
import FilterQuery.Proofs.Token.Segmentation

namespace FilterQuery

-- =============================================================== the slots

namespace Grammar

variable {contents : Token → Except QueryError (List Node)}

theorem kind_of_reading {t : Token} (h : Reading.ofToken t = .group) :
    t.kind = .group :=
  Classical.byContradiction fun hkind => reading_ne_group hkind h

/-- A slot refuses a token that does not fit, or else the contents of a
group are refused. -/
theorem fill_eq_error {slot : Slot} {t : Token} {e : QueryError}
    (h : slot.fill contents t = .error e) :
    e = .unexpectedToken t.text slot.expected t.offset
      ∨ t.kind = .group ∧ contents t = .error e := by
  have hgroup : ∀ {g : List Node → Node × Slot},
      (do let children ← contents t; return g children) = .error e →
        contents t = .error e := by
    intro g hg
    rwa [← refusal_eq_some_iff, refusal_map, refusal_eq_some_iff] at hg
  unfold Slot.fill at h
  split at h
  case h_1 hr => exact Or.inr ⟨kind_of_reading hr, hgroup h⟩
  case h_2 hr => exact Or.inr ⟨kind_of_reading hr, hgroup h⟩
  case h_3 => cases h
  case h_4 => cases h
  case h_5 op hr =>
    split at h
    · cases h
    · split at h
      · cases h
      · exact Or.inl (Except.error.inj h).symm
  case h_6 => cases h
  case h_7 op hr =>
    split at h
    · cases h
    · exact Or.inl (Except.error.inj h).symm
  case h_8 => exact Or.inl (Except.error.inj h).symm

/-- From a slot on, tokens are refused because one of them does not fit,
because the end comes too early, or because the contents of a group are
refused. -/
theorem fillFrom_eq_error {slot : Slot} {ts : List Token} {e : QueryError}
    (h : fillFrom contents slot ts = .error e) :
    (∃ t ∈ ts, ∃ expected, e = .unexpectedToken t.text expected t.offset)
      ∨ (∃ expected, e = .incomplete expected)
      ∨ ∃ t ∈ ts, t.kind = .group ∧ contents t = .error e := by
  induction ts generalizing slot with
  | nil =>
      unfold fillFrom at h
      split at h
      · cases h
      · exact Or.inr (Or.inl ⟨_, (Except.error.inj h).symm⟩)
  | cons t ts ih =>
      have ht : t ∈ t :: ts := List.mem_cons_self ..
      unfold fillFrom at h
      cases hfill : slot.fill contents t with
      | error e' =>
          rw [hfill] at h
          obtain rfl := Except.error.inj h
          rcases fill_eq_error hfill with he | hgroup
          · exact Or.inl ⟨t, ht, _, he⟩
          · exact Or.inr (Or.inr ⟨t, ht, hgroup⟩)
      | ok filled =>
          obtain ⟨n, next⟩ := filled
          rw [hfill] at h
          have hrest : fillFrom contents next ts = .error e := by
            rw [← refusal_eq_some_iff] at h ⊢
            rw [← h]
            exact (refusal_map _ (n :: ·)).symm
          rcases ih hrest with ⟨u, hu, he⟩ | hend | ⟨u, hu, hgroup⟩
          · exact Or.inl ⟨u, List.mem_cons_of_mem _ hu, he⟩
          · exact Or.inr (Or.inl hend)
          · exact Or.inr (Or.inr ⟨u, List.mem_cons_of_mem _ hu, hgroup⟩)

/-- What is wrong with the tokens themselves is structural; any other fault
is one of the contents of a group. -/
theorem isStructural_or_contents {slot : Slot} {ts : List Token}
    {e : QueryError} (h : fillFrom contents slot ts = .error e) :
    e.isStructural = true
      ∨ ∃ t ∈ ts, t.kind = .group ∧ contents t = .error e := by
  rcases fillFrom_eq_error h with
    ⟨t, -, expected, rfl⟩ | ⟨expected, rfl⟩ | hgroup
  · exact Or.inl rfl
  · exact Or.inl rfl
  · exact Or.inr hgroup

/-- The node that fills a slot fits there, if the contents of groups are
queries. -/
theorem fits_of_fill {slot next : Slot} {t : Token} {n : Node}
    {ns : List Node} (h : slot.fill contents t = .ok (n, next))
    (hc : t.kind = .group → ∀ children,
      contents t = .ok children → Fits .start children)
    (hns : Fits next ns) : Fits slot (n :: ns) := by
  cases hr : Reading.ofToken t with
  | group =>
      have hkind := kind_of_reading hr
      obtain ⟨hslot, rfl, children, hchildren, rfl⟩ :=
        (fill_group_eq_ok hkind).1 h
      exact .group hslot (hc hkind children hchildren) hns
  | word =>
      rcases (fill_word_eq_ok hr).1 h
        with ⟨hslot, rfl, rfl⟩ | ⟨rfl, rfl, rfl⟩
      · exact .column hslot hns
      · exact .value hns
  | operator op =>
      obtain ⟨rfl, hslot⟩ := (fill_operator_eq_ok hr).1 h
      rcases hslot with ⟨rfl, hop, rfl⟩ | ⟨rfl, hop, hn, rfl⟩
        | ⟨rfl, hop, rfl⟩
      · exact .nullCheck hop hns
      · exact .comparison hop hn hns
      · exact .bind hop hns

private theorem fits_of_fillFrom {slot : Slot} {ts : List Token}
    {ns : List Node} (h : fillFrom contents slot ts = .ok ns)
    (hc : ∀ t ∈ ts, t.kind = .group → ∀ children,
      contents t = .ok children → Fits .start children) :
    Fits slot ns := by
  induction ts generalizing slot ns with
  | nil =>
      obtain ⟨hslot, rfl⟩ := fillFrom_nil_eq_ok.1 h
      exact .done hslot
  | cons t ts ih =>
      obtain ⟨n, next, rest, hfill, hrest, rfl⟩ := fillFrom_cons_eq_ok.1 h
      exact fits_of_fill hfill (hc t (List.mem_cons_self ..))
        (ih hrest fun u hu => hc u (List.mem_cons_of_mem _ hu))

end Grammar

-- ============================================================== the tokens

namespace Token

variable {mode : Mode} {base : Nat} {text : Text} {ts gs : List Token}
  {e : QueryError}

/-- Only in strict mode a text is refused, and for a quote or a
parenthesis. -/
theorem isLexical_of_tokenizeAt (h : tokenizeAt mode base text = .error e) :
    mode = .strict ∧ e.isLexical = true := by
  cases mode with
  | lenient =>
      obtain ⟨ts, hts⟩ := exists_tokenizeAt_lenient base text
      rw [hts] at h
      cases h
  | strict =>
      refine ⟨rfl, ?_⟩
      rw [← refusal_eq_some_iff, refusal_tokenizeAt] at h
      unfold fault? at h
      split at h
      · obtain rfl := Option.some.inj h
        rfl
      · obtain ⟨pos, -, rfl⟩ := Option.map_eq_some_iff.1 h
        rfl

/-- Where a text has tokens, so have the contents of its groups. -/
theorem exists_tokenizeAt_interior (h : tokenizeAt mode base text = .ok gs)
    {g : Token} (hg : g ∈ gs) (hgroup : g.kind = .group) :
    ∃ hs, tokenizeAt mode (g.offset + 1) g.interior = .ok hs := by
  cases mode with
  | lenient => exact exists_tokenizeAt_lenient _ _
  | strict =>
      obtain ⟨ts, last, hlexed, -, hgs⟩ := tokenizeAt_eq_ok_iff_grouped.1 h
      obtain ⟨us, last', k, hinterior, hk, hm⟩ :=
        lexed_interior hlexed hgs hg hgroup
      obtain ⟨rfl, rfl⟩ := hm.resolve_left (by simp)
      obtain ⟨hs, hhs⟩ := exists_grouped_strict hk
      exact ⟨hs, tokenizeAt_strict_eq_ok_iff.2 ⟨us, hinterior, hhs⟩⟩

end Token

-- =============================================================== the nodes

namespace Node

open Grammar Token

variable {mode : Mode} {base : Nat} {text : Text}

/-- What a text is parsed into is a query, in either mode. -/
theorem fits_of_parseAt {ns : List Node}
    (h : parseAt mode base text = .ok ns) : Fits .start ns := by
  induction base, text using contents_induction mode
    generalizing ns with
  | step base text ih =>
      rw [parseAt_eq] at h
      cases hgs : tokenizeAt mode base text with
      | error e =>
          rw [hgs] at h
          cases h
      | ok gs =>
          rw [hgs] at h
          refine fits_of_fillFrom h fun g hg hgroup children hchildren => ?_
          exact ih gs hgs g (List.mem_filter.1 hg).1 hgroup hchildren

/-- A text that has tokens is never refused for a quote or a parenthesis,
however deep its groups are. -/
theorem isStructural_of_parseAt {gs : List Token} {e : QueryError}
    (hgs : tokenizeAt mode base text = .ok gs)
    (h : parseAt mode base text = .error e) : e.isStructural = true := by
  induction base, text using contents_induction mode
    generalizing gs with
  | step base text ih =>
      rw [parseAt_eq, hgs] at h
      rcases isStructural_or_contents h with he | ⟨g, hg, hgroup, hcontents⟩
      · exact he
      · have hmem := (List.mem_filter.1 hg).1
        obtain ⟨hs, hhs⟩ := exists_tokenizeAt_interior hgs hmem hgroup
        exact ih gs hgs g hmem hgroup hhs hcontents

/-- A text that has tokens in strict mode is parsed in lenient mode as it is
in strict mode, be it into nodes or an error. -/
theorem parseAt_lenient {gs : List Token}
    (hgs : tokenizeAt .strict base text = .ok gs) :
    parseAt .lenient base text = parseAt .strict base text := by
  induction base, text using contents_induction .strict
    generalizing gs with
  | step base text ih =>
      rw [parseAt_eq, parseAt_eq, hgs, tokenizeAt_lenient hgs]
      refine fillFrom_congr (fun g hg hgroup => ?_) _
      have hmem := (List.mem_filter.1 hg).1
      obtain ⟨hs, hhs⟩ := exists_tokenizeAt_interior hgs hmem hgroup
      exact ih gs hgs g hmem hgroup hhs

/-- What the parser refuses in lenient mode it refuses for its structure,
also where it starts from a list of tokens. -/
theorem isStructural_of_ofTokens {ts : List Token} {e : QueryError}
    (h : ofTokens .lenient ts = .error e) : e.isStructural = true := by
  rcases isStructural_or_contents h with he | ⟨g, -, -, hcontents⟩
  · exact he
  · obtain ⟨hs, hhs⟩ := exists_tokenizeAt_lenient (g.offset + 1) g.interior
    exact isStructural_of_parseAt hhs hcontents

end Node
end FilterQuery
