/-
Tokens are the one segmentation of a text by longest match, quotes and
groups taken whole. `Stretch` says which stretch of a text may stand as a
token, by its own characters and by what follows it, and not by the passes
that find it; a segmentation is a tiling by such stretches.

Two inductions over the tokens carry the theorem. The first token of a
text is a stretch, and the tokens after it are those of what follows
(`tokenizeAt_cons`), so what the tokenizer returns is a segmentation. Of
two stretches that start at one place neither is longer than the other
(`Stretch.eq_of_append_eq`), so there is no second one.
-/
import FilterQuery.Proofs.Token.Balance
import FilterQuery.Proofs.Token.Interior
import FilterQuery.Proofs.Token.LongestMatch
import FilterQuery.Proofs.Token.Scan

namespace FilterQuery
namespace Token

open Nesting

-- ============================================================== stretches

/-- A stretch of text that is a token of the kind, where `rest` follows
it. -/
inductive Stretch (mode : Mode) : Kind → Text → Text → Prop where
  /-- Text up to the next place where a delimiter starts. -/
  | text {t rest : Text} (h : IsRun t rest) : Stretch mode .text t rest
  /-- A quoted stretch ends with the next mark of its kind. -/
  | quoted {quote : Char} {v rest : Text} (hq : isQuoteMark quote = true)
      (hv : quote ∉ v) : Stretch mode .quoted (quote :: (v ++ [quote])) rest
  /-- Without one it runs to the end of the text, in lenient mode. -/
  | quotedOpen {quote : Char} {v : Text} (hm : mode = .lenient)
      (hq : isQuoteMark quote = true) (hv : quote ∉ v) :
      Stretch mode .quoted (quote :: v) []
  /-- A group ends with the parenthesis that closes it: between the two
  everything is closed that is opened, and nothing else is. -/
  | group {v rest : Text} (hv : scan v = some ⟨none, 0⟩) :
      Stretch mode .group ('(' :: (v ++ [')'])) rest
  /-- Without one it runs to the end of the text, in lenient mode. -/
  | groupOpen {v : Text} {s : Scan} (hm : mode = .lenient)
      (hv : scan v = some s) : Stretch mode .group ('(' :: v) []
  /-- The longest delimiter at its place, if it starts no quoted stretch
  and no group; in strict mode it closes no group either. -/
  | delimiter {d rest : Text} (h : IsLongest d rest)
      (hq : ∀ quote, isQuoteMark quote = true → d ≠ [quote])
      (ho : d ≠ ['(']) (hc : mode = .strict → d ≠ [')']) :
      Stretch mode .delimiter d rest

/-- Stretches that are not empty, that follow each other without gap or
overlap from the offset of the text on, and that cover it. -/
structure IsSegmentation (mode : Mode) (base : Nat) (text : Text)
    (ts : List Token) : Prop where
  covers : content ts = text
  tiles : Tiles base ts
  ne_nil : ∀ t ∈ ts, t.text ≠ []
  stretch : ∀ before t after, ts = before ++ t :: after →
    Stretch mode t.kind t.text (content after)

variable {mode : Mode} {base : Nat} {text : Text} {gs : List Token}

private theorem Stretch.ne_nil {kind : Kind} {t rest : Text}
    (h : Stretch mode kind t rest) : t ≠ [] := by
  cases h with
  | text h => exact h.1
  | delimiter h => exact h.ne_nil
  | quoted | quotedOpen | group | groupOpen => simp

-- ======================================================== the first token

private theorem IsPiece.ne_nil {t : Token} (h : IsPiece t) : t.text ≠ [] := by
  cases h with
  | text hne => exact hne
  | single | double => simp

/-- The first token before groups are joined: a piece that is no quote
mark, or a stretch between two marks. -/
theorem lexed_cons {t : Token} {ts : List Token} {last : Opened}
    (h : lexed base text = (t :: ts, last)) :
    t.quoteMark? = none
        ∧ IsCut t.kind t.text (content ts ++ content last.tokens)
      ∨ ∃ quote v, isQuoteMark quote = true ∧ quote ∉ v
        ∧ t.kind = .quoted ∧ t.text = quote :: (v ++ [quote]) := by
  have ht := (isUngrouped_of_mem_lexed h).1 t (List.mem_cons_self ..)
  cases ht with
  | @quoted quote v offset hq hv => exact Or.inr ⟨quote, v, hq, hv, rfl, rfl⟩
  | piece hpiece hmark =>
      refine Or.inl ⟨hmark, ?_⟩
      have htext := content_lexed h
      unfold lexed at h
      cases hps : pieces base text with
      | nil => rw [hps] at h; cases h
      | cons p ps =>
          rw [hps, quoteRun_cons] at h
          cases hp : p.quoteMark? with
          | none =>
              rw [quoteStep_plain hp] at h
              change (p :: (quoteRun none ps).1, (quoteRun none ps).2) = _ at h
              obtain ⟨hout, rfl⟩ := Prod.mk.inj h
              obtain ⟨rfl, rfl⟩ := List.cons.inj hout
              rw [content_quoteRun none ps]
              exact isCut_pieces hps
          | some quote =>
              -- The text starts with a mark, which no other piece holds.
              obtain ⟨-, hquote, hq⟩ := quoteMark?_eq_some.1 hp
              have hstart := content_pieces base text
              rw [hps, content_cons, hquote, ← htext, content_cons] at hstart
              obtain ⟨c, u, htu⟩ := List.exists_cons_of_ne_nil hpiece.ne_nil
              rw [htu] at hstart
              obtain ⟨rfl, -⟩ := List.cons.inj hstart
              exact absurd (htu ▸ List.mem_cons_self ..)
                (hpiece.mark_not_mem hq (by simp [hmark]))

/-- A token that is left to stand for itself is a stretch. -/
theorem stretch_of_plain {t : Token} {ts : List Token} {last : Opened}
    (h : lexed base text = (t :: ts, last)) (ho : t.isOpening = false)
    (hc : mode = .strict → t.isClosing = false) :
    Stretch mode t.kind t.text (content ts ++ content last.tokens) := by
  rcases lexed_cons h with ⟨hmark, hcut⟩ | ⟨quote, v, hq, hv, hkind, htext⟩
  · obtain ⟨kind, u, offset⟩ := t
    cases hcut with
    | run hrun => exact .text hrun
    | delimiter hlongest =>
        refine .delimiter hlongest (fun quote hq hu => ?_) (fun hu => ?_)
          fun hm hu => ?_
        · rw [quoteMark?_eq_some.2 ⟨rfl, hu, hq⟩] at hmark
          cases hmark
        · obtain rfl : u = ['('] := hu
          cases ho
        · obtain rfl : u = [')'] := hu
          cases hc hm
  · rw [hkind, htext]
    exact .quoted hq hv

/-- The first token is a stretch, and the tokens after it are those of the
text that follows. -/
theorem tokenizeAt_cons {g : Token}
    (h : tokenizeAt mode base text = .ok (g :: gs)) :
    Stretch mode g.kind g.text (content gs)
      ∧ tokenizeAt mode g.stop (content gs) = .ok gs := by
  obtain ⟨ts, last, hlexed, hm, hgs⟩ := tokenizeAt_eq_ok_iff_grouped.1 h
  have hlast := (isUngrouped_of_mem_lexed hlexed).2
  have hstart : g.offset = base :=
    (tiles_grouped hgs (tiles_lexed hlexed)).1
  have hrest : ∀ xs ys, ts = xs ++ ys → g.text = content xs →
      Grouped mode (ys ++ last.tokens) gs →
        tokenizeAt mode g.stop (content gs) = .ok gs := by
    intro xs ys hsplit htext hys
    refine tokenizeAt_eq_ok_iff_grouped.2 ⟨ys, last, ?_, hm, hys⟩
    rw [content_grouped hys, content_append, stop, hstart, htext]
    exact lexed_suffix (hsplit ▸ hlexed)
  generalize hin : ts ++ last.tokens = input at hgs
  cases hgs with
  | plain ho hc hgs =>
      cases ts with
      | nil =>
          -- Only the open literal is left.
          obtain _ | ⟨quote, opened⟩ := last
          · cases hin
          · obtain ⟨rfl, rfl⟩ := List.cons.inj hin
            cases hgs
            obtain ⟨hq, v, hopened, hv⟩ := hlast
            refine ⟨?_, rfl⟩
            rw [hopened]
            exact .quotedOpen (hm.resolve_right (by simp)) hq hv
      | cons t ts =>
          rw [List.cons_append] at hin
          obtain ⟨rfl, rfl⟩ := List.cons.inj hin
          refine ⟨?_, hrest [t] ts rfl (by simp) hgs⟩
          rw [content_grouped hgs, content_append]
          exact stretch_of_plain hlexed ho hc
  | @closed o c us vs gs ho hus hc hgs =>
      obtain ⟨zs, rfl⟩ :=
        @Opened.WellMarked.split_group _ hlast _ [] us vs o c hc hin
      have hvs : zs ++ last.tokens = vs := by simpa using hin
      subst hvs
      have hscan : scan (content us) = some ⟨none, 0⟩ := by
        rw [scan_eq (@lexed_closed _ _ [] _ _ _ _ _ hlexed ho), hus]
        rfl
      refine ⟨?_, hrest (o :: (us ++ [c])) zs (by simp) rfl hgs⟩
      simpa [grouped, text_of_isOpening ho, text_of_isClosing hc]
        using Stretch.group hscan
  | @opened o us k hmode ho hus =>
      obtain ⟨zs, rfl, rfl⟩ :=
        @Opened.WellMarked.split _ hlast _ [] _ _ _
          (paren?_eq_opening.2 ho) hin
      rw [hlast.level_append] at hus
      have hscan := scan_eq (@lexed_opened _ _ [] _ _ _ hlexed ho)
      rw [hus] at hscan
      refine ⟨?_, rfl⟩
      simpa [grouped, text_of_isOpening ho] using Stretch.groupOpen hmode hscan

/-- What the tokenizer returns is a segmentation. -/
theorem isSegmentation_of_tokenizeAt
    (h : tokenizeAt mode base text = .ok gs) :
    IsSegmentation mode base text gs := by
  have hstretch : ∀ before t after, gs = before ++ t :: after →
      Stretch mode t.kind t.text (content after) := by
    intro before t after hsplit
    induction before generalizing base text gs with
    | nil =>
        subst hsplit
        exact (tokenizeAt_cons h).1
    | cons g before ih =>
        subst hsplit
        exact ih (tokenizeAt_cons h).2 rfl
  obtain ⟨ts, last, hlexed, -, hgs⟩ := tokenizeAt_eq_ok_iff_grouped.1 h
  refine ⟨?_, tiles_grouped hgs (tiles_lexed hlexed), ?_, hstretch⟩
  · rw [content_grouped hgs, content_append]
    exact content_lexed hlexed
  · intro t ht
    obtain ⟨before, after, hsplit⟩ := List.append_of_mem ht
    exact (hstretch before t after hsplit).ne_nil

-- ========================================================== only one kind

instance (t : Text) : Decidable (StartsDelimiter t) :=
  inferInstanceAs (Decidable (∃ d ∈ delimiters, d <+: t))

/-- The kind of the token that starts a text. -/
def kindAt : Text → Kind
  | [] => .text
  | c :: t =>
      if isQuoteMark c then .quoted
      else if c = '(' then .group
      else if StartsDelimiter (c :: t) then .delimiter
      else .text

/-- No delimiter goes on after a solitary character. -/
theorem IsLongest.eq_singleton {c : Char} {d rest t : Text}
    (h : IsLongest d rest) (hc : Solitary c) (ht : d ++ rest = c :: t) :
    d = [c] := by
  rcases mem_delimiters.1 h.1 with ⟨x, rfl, -⟩ | ⟨x, y, rfl, hxy⟩
  · obtain ⟨rfl, -⟩ := List.cons.inj ht
    rfl
  · obtain ⟨rfl, -⟩ := List.cons.inj ht
    rw [hc.2.1] at hxy
    cases hxy

theorem Stretch.kind_eq {kind : Kind} {t rest : Text}
    (h : Stretch mode kind t rest) : kind = kindAt (t ++ rest) := by
  have hopening : isQuoteMark '(' = false := by decide
  cases h with
  | text h =>
      have hstart := h.2.1 [] t rfl h.1
      cases hu : t ++ rest with
      | nil => rfl
      | cons c u =>
          rw [hu] at hstart
          have hc : isDelimiter c = false := by
            simpa using fun hc => hstart (startsDelimiter_cons.2 (Or.inl hc))
          have hq : isQuoteMark c = false := by
            rw [isDelimiter, Bool.or_eq_false_iff] at hc
            exact hc.1
          have ho : c ≠ '(' := by
            rintro rfl
            cases hc
          simp [kindAt, hq, ho, hstart]
  | quoted hq => simp [kindAt, hq]
  | quotedOpen hm hq => simp [kindAt, hq]
  | group => simp [kindAt, hopening]
  | groupOpen => simp [kindAt, hopening]
  | delimiter h hq ho hc =>
      have hstart := h.startsDelimiter
      cases hu : t ++ rest with
      | nil => exact absurd (List.append_eq_nil_iff.1 hu).1 h.ne_nil
      | cons c u =>
          rw [hu] at hstart
          -- A mark would be a delimiter of its own, and so would a
          -- parenthesis.
          have hc : isQuoteMark c = false := by
            cases hc : isQuoteMark c with
            | false => rfl
            | true =>
                exact absurd (h.eq_singleton (solitary_of_isQuoteMark hc) hu)
                  (hq c hc)
          have hne : c ≠ '(' := by
            rintro rfl
            exact ho (h.eq_singleton (solitary_of_mem (by simp)) hu)
          simp [kindAt, hc, hne, hstart]

-- ======================================================== only one length

/-- A group is over where it is closed. -/
theorem scan_append_closing {v : Text} (h : scan v = some ⟨none, 0⟩)
    (w : Text) : scan (v ++ ')' :: w) = none := by
  unfold scan at h ⊢
  rw [Scan.run_append, h]
  rfl

/-- A stretch that goes on after a stretch of the same kind goes on with
nothing. -/
theorem Stretch.eq_nil_of_append {kind : Kind} {t w rest : Text}
    (h : Stretch mode kind t (w ++ rest))
    (h' : Stretch mode kind (t ++ w) rest) : w = [] := by
  generalize ht' : t ++ w = t' at h'
  generalize hr : w ++ rest = r at h
  cases h with
  | text h =>
      cases h' with
      | text h' =>
          subst hr ht'
          refine Classical.byContradiction fun hw => ?_
          refine h'.2.1 t w rfl hw ?_
          exact h.2.2.resolve_left (by simp [hw])
  | delimiter h =>
      cases h' with
      | delimiter h' =>
          subst hr ht'
          -- The shorter one was the longest delimiter already.
          have hlength := h.2 _ h'.1 (by simp)
          rw [List.length_append] at hlength
          exact List.eq_nil_of_length_eq_zero (by omega)
  | quotedOpen | groupOpen => exact (List.append_eq_nil_iff.1 hr).1
  | @quoted quote v _ hq hv =>
      -- A literal holds no mark of its own, so it ends at the first one.
      have hend : ∀ u, quote :: (v ++ [quote]) ++ w = u →
          ∃ u', u = quote :: u' ∧ v ++ quote :: w = u' := by
        rintro u rfl
        exact ⟨_, by simp, rfl⟩
      cases h' with
      | @quoted quote' v' _ hq' hv' =>
          obtain ⟨u', hu, hv⟩ := hend _ ht'
          obtain ⟨rfl, rfl⟩ := List.cons.inj hu
          rcases Lists.append_cons_eq_concat hv with ⟨-, -, hw⟩ | ⟨w', rfl, -⟩
          · exact hw
          · exact absurd (by simp) hv'
      | @quotedOpen quote' v' _ hq' hv' =>
          obtain ⟨u', hu, rfl⟩ := hend _ ht'
          obtain ⟨rfl, rfl⟩ := List.cons.inj hu
          exact absurd (by simp) hv'
  | @group v _ hv =>
      have hend : ∀ u, '(' :: (v ++ [')']) ++ w = '(' :: u →
          v ++ ')' :: w = u := by
        intro u hu
        simpa using hu
      cases h' with
      | @group v' _ hv' =>
          rcases Lists.append_cons_eq_concat (hend _ ht') with
            ⟨-, -, hw⟩ | ⟨w', rfl, -⟩
          · exact hw
          · rw [scan_append_closing hv] at hv'
            cases hv'
      | groupOpen hm hv' =>
          rw [← hend _ ht', scan_append_closing hv] at hv'
          cases hv'

/-- At one place in a text there is one stretch. -/
theorem Stretch.eq_of_append_eq {kind kind' : Kind} {t t' rest rest' : Text}
    (h : Stretch mode kind t rest) (h' : Stretch mode kind' t' rest')
    (heq : t ++ rest = t' ++ rest') : kind = kind' ∧ t = t' := by
  obtain rfl : kind = kind' := by rw [h.kind_eq, h'.kind_eq, heq]
  refine ⟨rfl, ?_⟩
  rcases List.append_eq_append_iff.1 heq with ⟨w, rfl, rfl⟩ | ⟨w, rfl, rfl⟩
  · obtain rfl := h.eq_nil_of_append h'
    simp
  · obtain rfl := h'.eq_nil_of_append h
    simp

theorem IsSegmentation.tail {t : Token}
    (h : IsSegmentation mode base text (t :: gs)) :
    IsSegmentation mode t.stop (content gs) gs where
  covers := rfl
  tiles := h.tiles.2
  ne_nil u hu := h.ne_nil u (List.mem_cons_of_mem _ hu)
  stretch before u after hsplit :=
    h.stretch (t :: before) u after (congrArg (t :: ·) hsplit)

/-- A text has one segmentation at most. -/
theorem IsSegmentation.unique {ts us : List Token}
    (hts : IsSegmentation mode base text ts)
    (hus : IsSegmentation mode base text us) : ts = us := by
  induction ts generalizing base text us with
  | nil =>
      cases us with
      | nil => rfl
      | cons u us =>
          have hcontent := hus.covers.trans hts.covers.symm
          exact absurd (List.append_eq_nil_iff.1 hcontent).1
            (hus.ne_nil u (List.mem_cons_self ..))
  | cons t ts ih =>
      cases us with
      | nil =>
          have hcontent := hts.covers.trans hus.covers.symm
          exact absurd (List.append_eq_nil_iff.1 hcontent).1
            (hts.ne_nil t (List.mem_cons_self ..))
      | cons u us =>
          have hcontent := hts.covers.trans hus.covers.symm
          obtain ⟨hkind, htext⟩ :=
            (hts.stretch [] t ts rfl).eq_of_append_eq
              (hus.stretch [] u us rfl) hcontent
          have hoffset : t.offset = u.offset :=
            hts.tiles.1.trans hus.tiles.1.symm
          obtain rfl : t = u := by
            cases t
            cases u
            simp only [mk.injEq]
            exact ⟨hkind, htext, hoffset⟩
          have hrest : content ts = content us :=
            List.append_cancel_left hcontent
          rw [ih hts.tail (hrest ▸ hus.tail)]

-- ================================================== every text has one

/-- In lenient mode every text has tokens. -/
theorem exists_tokenizeAt_lenient (base : Nat) (text : Text) :
    ∃ ts, tokenizeAt .lenient base text = .ok ts := by
  rcases hlexed : lexed base text with ⟨ts, last⟩
  rw [← refusal_eq_none_iff, tokenizeAt_eq,
    ungrouped_eq_ok hlexed (Or.inl rfl)]
  exact refusal_joinGroups (startsAt_none 0) _

/-- A text that leaves nothing open, and closes nothing else, has tokens in
either mode. -/
theorem exists_tokenizeAt_of_scan (h : scan text = some ⟨none, 0⟩)
    (mode : Mode) (base : Nat) :
    ∃ ts, tokenizeAt mode base text = .ok ts := by
  rcases hlexed : lexed base text with ⟨ts, last⟩
  rw [scan_eq hlexed] at h
  obtain ⟨k, hk, hscan⟩ := Option.map_eq_some_iff.1 h
  obtain ⟨hlast, rfl⟩ := Scan.mk.inj hscan
  obtain rfl := Option.map_eq_none_iff.1 hlast
  obtain ⟨gs, hgs⟩ : ∃ gs, Grouped mode ts gs :=
    exists_grouped hk (Or.inl rfl)
  exact ⟨gs, tokenizeAt_eq_ok_iff_grouped.2
    ⟨ts, none, hlexed, Or.inr rfl, by simpa [Opened.tokens] using hgs⟩⟩

private theorem IsRun.not_solitary {t rest : Text} (h : IsRun t rest) :
    ∀ c ∈ t, ¬Solitary c := by
  intro c hc hsolitary
  obtain ⟨u, v, rfl⟩ := List.append_of_mem hc
  refine h.2.1 u (c :: v) rfl (by simp) ?_
  exact startsDelimiter_cons.2 (Or.inl hsolitary.1)

/-- In strict mode a stretch leaves nothing open. -/
theorem Stretch.scan_eq {kind : Kind} {t rest : Text}
    (h : Stretch .strict kind t rest) : scan t = some ⟨none, 0⟩ := by
  -- What is outside quotes tells what is left open.
  have hscan : ∀ {ps}, unquoted none 0 t = (ps, none) →
      level side? 0 ps = some 0 → scan t = some ⟨none, 0⟩ := by
    intro ps hps hlevel
    have hrun := Scan.run_unquoted none 0 0 t
    rw [hps, hlevel] at hrun
    exact hrun
  cases h with
  | text h => exact hscan (unquoted_of_not_solitary h.not_solitary 0) rfl
  | quotedOpen hm => cases hm
  | groupOpen hm => cases hm
  | @quoted quote v rest hq hv =>
      refine @hscan [] ?_ rfl
      rw [unquoted_cons, unquotedStep_mark hq, unquoted_append,
        unquoted_inside hv, unquoted_singleton]
      simp [unquotedStep]
  | @group v rest hv =>
      -- Inside of the group everything is one deeper.
      have hinside : Scan.run ⟨none, 1⟩ v = some ⟨none, 1⟩ :=
        Scan.run_add hv 1
      unfold scan
      rw [Scan.run_cons]
      show Scan.run ⟨none, 1⟩ (v ++ [')']) = some ⟨none, 0⟩
      rw [Scan.run_append, hinside]
      rfl
  | delimiter h hq ho hc =>
      rcases mem_delimiters.1 h.1 with ⟨c, rfl, hc'⟩ | ⟨c, d, rfl, hcd⟩
      · refine @hscan [] ?_ rfl
        have hq : isQuoteMark c = false := by
          simpa using fun hq' => hq c hq' rfl
        have ho : c ≠ '(' := fun ho' => ho (by rw [ho'])
        have hc : c ≠ ')' := fun hc' => hc rfl (by rw [hc'])
        simp [unquoted, unquotedStep, hq, parenOf?, ho, hc]
      · have hnot := not_solitary_of_isDoubleDelimiter hcd
        exact hscan (unquoted_of_not_solitary hnot 0) rfl

theorem IsSegmentation.scan_eq {ts : List Token}
    (h : IsSegmentation .strict base text ts) :
    scan text = some ⟨none, 0⟩ := by
  induction ts generalizing base text with
  | nil =>
      rw [← h.covers]
      rfl
  | cons t ts ih =>
      have hfirst := (h.stretch [] t ts rfl).scan_eq
      have hrest := ih h.tail
      unfold scan at hfirst hrest ⊢
      rw [← h.covers, content_cons, Scan.run_append, hfirst]
      exact hrest

/-- The tokens of a text are its segmentation, and it has no other; in
strict mode a text without one is refused. In lenient mode every text has
tokens. -/
theorem tokenizeAt_eq_ok_iff_isSegmentation (mode : Mode) (base : Nat)
    (text : Text) :
    (∀ ts, tokenizeAt mode base text = .ok ts
        ↔ IsSegmentation mode base text ts)
      ∧ (∀ ts us, IsSegmentation mode base text ts →
          IsSegmentation mode base text us → ts = us)
      ∧ ∃ ts, tokenizeAt .lenient base text = .ok ts := by
  refine ⟨fun ts => ⟨isSegmentation_of_tokenizeAt, fun h => ?_⟩,
    fun ts us hts hus => hts.unique hus,
    exists_tokenizeAt_lenient base text⟩
  have hexists : ∃ us, tokenizeAt mode base text = .ok us := by
    cases mode with
    | strict => exact exists_tokenizeAt_of_scan h.scan_eq .strict base
    | lenient => exact exists_tokenizeAt_lenient base text
  obtain ⟨us, hus⟩ := hexists
  rw [h.unique (isSegmentation_of_tokenizeAt hus)]
  exact hus

/-- Marks and parentheses inside each other, pairs side by side, and open
ends of both kinds. -/
example :
    tokenizeAt .lenient 3 "´(´!==(')'(\"é".toList
      = .ok [⟨.quoted, "´(´".toList, 3⟩, ⟨.delimiter, "!=".toList, 8⟩,
          ⟨.delimiter, "=".toList, 10⟩, ⟨.group, "(')'(\"é".toList, 11⟩] := by
  rfl

end Token
end FilterQuery
