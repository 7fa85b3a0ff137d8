/-
The print of tokens, read back. Each token that is not blank is printed
with its offset and its kind before its text, and between two of them
stands a line feed. A line is read by cutting it at its first two tabs.

The text of a quoted token or of a group is printed as it is, whatever is in
it. So a line feed in such a text is one more line in print, and the lines
are one for each token exactly where no token has a line feed in its text
(`map_tokenOf?_lines_iff`). No other kind of token can have one: it would be
a delimiter, and blank.

The print of other tokens is different even so (`Delimited.eq`). A token
without a line feed in its text ends at the next line feed of the print. A
quoted token and a group say themselves where they end, and only the last
token can leave this open.
-/
import FilterQuery.Proofs.Invocation.Overrides
import FilterQuery.Proofs.Token.Segmentation

namespace FilterQuery

namespace Text

-- ================================================================== lines

/-- The lines of a text; an empty text has none. -/
def lines (t : Text) : List Text := if t = [] then [] else t.splitOn '\n'

/-- What stands before the first such character, and what after it. -/
def cut? (c : Char) : Text → Option (Text × Text)
  | [] => none
  | d :: t =>
      if d = c then some ([], t)
      else (cut? c t).map fun (u, v) => (d :: u, v)

private theorem cut?_append {c : Char} {u : Text} (h : c ∉ u) (v : Text) :
    cut? c (u ++ c :: v) = some (u, v) := by
  induction u with
  | nil => exact if_pos rfl
  | cons d u ih =>
      obtain ⟨hd, hu⟩ := not_or.1 (mt List.mem_cons.2 h)
      rw [List.cons_append, cut?, if_neg (Ne.symm hd), ih hu, Option.map_some]

end Text

namespace Token

/-- A stretch that is not blank has a line feed in it only if it is quoted
or a group. -/
theorem Stretch.newline_not_mem {mode : Mode} {kind : Kind} {t rest : Text}
    (h : Stretch mode kind t rest) (hblank : t.isBlank = false)
    (hkind : kind = .text ∨ kind = .delimiter) : '\n' ∉ t := by
  cases h with
  | text h =>
      intro hmem
      obtain ⟨u, v, rfl⟩ := List.append_of_mem hmem
      exact h.2.1 u ('\n' :: v) rfl (by simp)
        (startsDelimiter_cons.2 (Or.inl rfl))
  | delimiter h =>
      have hblanks : ∀ d ∈ delimiters, '\n' ∈ d → d.isBlank = true := by
        decide
      intro hmem
      rw [hblanks t h.1 hmem] at hblank
      cases hblank
  | quoted | quotedOpen | group | groupOpen => simp at hkind

end Token

namespace Invocation

open Token

-- =============================================================== one token

/-- The number that a text spells in decimal digits. -/
def offsetOf? (digits : Text) : Option Nat :=
  if digits.isDigits then some (Nat.ofDigitChars 10 digits 0) else none

/-- The kind with a name. -/
def kindOf? (name : Text) : Option Kind :=
  [Kind.text, .delimiter, .quoted, .group].find? (·.name == name)

/-- The token that a line is the print of: the line is cut at its first two
tabs. -/
def tokenOf? (line : Text) : Option Token := do
  let (digits, fields) ← line.cut? '\t'
  let (name, text) ← fields.cut? '\t'
  let offset ← offsetOf? digits
  let kind ← kindOf? name
  return ⟨kind, text, offset⟩

private theorem offsetOf?_ofNat (n : Nat) :
    offsetOf? (Text.ofNat n) = some n := by
  rw [offsetOf?, if_pos (Text.isDigits_ofNat n), Text.ofDigitChars_ofNat]

private theorem tokenLine_eq (t : Token) :
    tokenLine t
      = Text.ofNat t.offset ++ '\t' :: (t.kind.name ++ '\t' :: t.text) := by
  simp [tokenLine]

/-- A token is read from its line, whatever is in its text. -/
theorem tokenOf?_tokenLine (t : Token) : tokenOf? (tokenLine t) = some t := by
  have hname : '\t' ∉ t.kind.name := by cases t.kind <;> decide
  have hkind : kindOf? t.kind.name = some t.kind := by
    cases t.kind <;> decide
  have hdigits :=
    Text.cut?_append (Text.not_mem_ofNat (c := '\t') rfl t.offset)
  simp [tokenOf?, tokenLine_eq, hdigits, Text.cut?_append hname,
    offsetOf?_ofNat, hkind]

/-- Whatever goes on after the line of a token goes on in its text. -/
theorem tokenOf?_append (t : Token) (u : Text) :
    tokenOf? (tokenLine t ++ u) = some { t with text := t.text ++ u } := by
  rw [← tokenOf?_tokenLine { t with text := t.text ++ u }]
  simp [tokenLine_eq]

/-- The line feeds of a line are those of the text in it. -/
theorem count_tokenLine (t : Token) :
    (tokenLine t).count '\n' = t.text.count '\n' := by
  have hoffset : (Text.ofNat t.offset).count '\n' = 0 :=
    List.count_eq_zero.2 (Text.not_mem_ofNat rfl t.offset)
  have hname : t.kind.name.count '\n' = 0 := by cases t.kind <;> decide
  rw [tokenLine_eq, List.count_append, hoffset,
    List.count_cons_of_ne (by decide), List.count_append, hname,
    List.count_cons_of_ne (by decide), Nat.zero_add, Nat.zero_add]

-- ============================================================== all tokens

/-- The tokens that are printed. -/
def listed (ts : List Token) : List Token := ts.filter (!·.isBlank)

/-- What is printed after the line of a token. -/
def followed (us : List Token) : Text :=
  us.flatMap fun t => '\n' :: tokenLine t

private theorem tokenLine_ne_nil (t : Token) : tokenLine t ≠ [] := by
  simp [tokenLine]

private theorem tokenLines_nil {ts : List Token} (h : listed ts = []) :
    tokenLines ts = [] := by
  change Text.join ['\n'] ((listed ts).map tokenLine) = []
  rw [h]
  rfl

private theorem tokenLines_cons {ts us : List Token} {t : Token}
    (h : listed ts = t :: us) :
    tokenLines ts = tokenLine t ++ followed us := by
  change Text.join ['\n'] ((listed ts).map tokenLine) = _
  rw [h]
  simp [Text.join, followed, List.flatMap_map]

private theorem splitOn_followed (t : Token) (us : List Token) :
    (tokenLine t ++ followed us).splitOn '\n'
      = (t :: us).flatMap fun t => (tokenLine t).splitOn '\n' := by
  induction us generalizing t with
  | nil => simp [followed]
  | cons u us ih =>
      change (tokenLine t ++ '\n' :: (tokenLine u ++ followed us)).splitOn
        '\n' = _
      rw [List.splitOn_append_cons_self, ih]
      rfl

/-- The lines in print are those of each token, in order. -/
theorem lines_tokenLines (ts : List Token) :
    (tokenLines ts).lines
      = (listed ts).flatMap fun t => (tokenLine t).splitOn '\n' := by
  cases hts : listed ts with
  | nil =>
      rw [tokenLines_nil hts]
      rfl
  | cons t us =>
      have hne : tokenLine t ++ followed us ≠ [] := by
        simp [tokenLine_ne_nil]
      rw [tokenLines_cons hts, Text.lines, if_neg hne, splitOn_followed]

/-- There are as many lines as tokens in print and line feeds in their
texts. -/
theorem length_lines_tokenLines (ts : List Token) :
    (tokenLines ts).lines.length
      = (listed ts).length + ((listed ts).flatMap (·.text)).count '\n' := by
  rw [lines_tokenLines]
  induction listed ts with
  | nil => rfl
  | cons t us ih =>
      rw [List.flatMap_cons, List.length_append, ih, Lists.length_splitOn,
        count_tokenLine, List.length_cons, List.flatMap_cons,
        List.count_append]
      omega

/-- The lines are the tokens in print, one for each, exactly where none of
these has a line feed in its text. -/
theorem map_tokenOf?_lines_iff (ts : List Token) :
    (tokenLines ts).lines.map tokenOf? = (listed ts).map some
      ↔ ∀ t ∈ listed ts, '\n' ∉ t.text := by
  constructor
  · intro h
    have hlength := congrArg List.length h
    rw [List.length_map, List.length_map, length_lines_tokenLines] at hlength
    have hcount : ((listed ts).flatMap (·.text)).count '\n' = 0 := by omega
    intro t ht hnewline
    exact List.count_eq_zero.1 hcount (List.mem_flatMap.2 ⟨t, ht, hnewline⟩)
  · intro h
    have hline : ∀ t ∈ listed ts,
        (tokenLine t).splitOn '\n' = [tokenLine t] := by
      intro t ht
      apply List.splitOn_eq_singleton
      rw [← List.count_eq_zero, count_tokenLine]
      exact List.count_eq_zero.2 (h t ht)
    rw [lines_tokenLines, List.flatMap_congr hline, ← List.map_eq_flatMap,
      List.map_map]
    exact List.map_congr_left fun t _ => tokenOf?_tokenLine t

-- ======================================================= where tokens end

/-- The text of a token says where it ends, where `rest` follows it. -/
def EndsBefore (kind : Kind) (t rest : Text) : Prop :=
  match kind with
  | .text | .delimiter => '\n' ∉ t
  | .quoted | .group => Stretch .lenient kind t rest

/-- Each of the tokens ends before what is printed after it. -/
def Delimited : List Token → Prop
  | [] => True
  | t :: us => EndsBefore t.kind t.text (followed us) ∧ Delimited us

/-- Here a line of a text ends, or the text itself. -/
def LineEnds (rest : Text) : Prop := rest = [] ∨ ∃ u, rest = '\n' :: u

private theorem lineEnds_followed (us : List Token) :
    LineEnds (followed us) := by
  cases us with
  | nil => exact Or.inl rfl
  | cons t us => exact Or.inr ⟨_, rfl⟩

private theorem followed_listed (ts : List Token) :
    followed (listed ts)
      = if tokenLines ts = [] then [] else '\n' :: tokenLines ts := by
  cases hts : listed ts with
  | nil =>
      rw [if_pos (tokenLines_nil hts)]
      rfl
  | cons t us =>
      rw [tokenLines_cons hts, if_neg (by simp [tokenLine_ne_nil])]
      rfl

/-- A text has one first line. -/
theorem LineEnds.eq_of_append_eq {t t' r r' : Text} (hr : LineEnds r)
    (hr' : LineEnds r') (ht : '\n' ∉ t) (ht' : '\n' ∉ t')
    (h : t ++ r = t' ++ r') : t = t' := by
  have hline : ∀ {t r : Text}, '\n' ∉ t → LineEnds r →
      (t ++ r).takeWhile (· != '\n') = t := by
    intro t r ht hr
    have hall : ∀ c ∈ t, (c != '\n') = true := by
      intro c hc
      exact bne_iff_ne.2 (ne_of_mem_of_not_mem hc ht)
    rw [List.takeWhile_append_of_pos hall]
    obtain rfl | ⟨u, rfl⟩ := hr <;> simp
  rw [← hline ht hr, h, hline ht' hr']

/-- Of two texts of one kind of token, each of which says where it ends,
neither goes on where the other ends. -/
theorem EndsBefore.eq_of_append_eq {kind : Kind} {t t' r r' : Text}
    (ht : EndsBefore kind t r) (ht' : EndsBefore kind t' r')
    (hr : LineEnds r) (hr' : LineEnds r') (h : t ++ r = t' ++ r') :
    t = t' := by
  cases kind with
  | text | delimiter => exact hr.eq_of_append_eq hr' ht ht' h
  | quoted | group => exact (Stretch.eq_of_append_eq ht ht' h).2

/-- Delimited tokens are printed like no others. -/
theorem Delimited.eq {ts us : List Token} (hts : Delimited ts)
    (hus : Delimited us) (h : followed ts = followed us) : ts = us := by
  induction ts generalizing us with
  | nil =>
      cases us with
      | nil => rfl
      | cons u us => cases h
  | cons t ts ih =>
      cases us with
      | nil => cases h
      | cons u us =>
          have hlines : tokenLine t ++ followed ts
              = tokenLine u ++ followed us := (List.cons.inj h).2
          have htokens := congrArg tokenOf? hlines
          rw [tokenOf?_append, tokenOf?_append] at htokens
          obtain ⟨hkind, hrest, hoffset⟩ :=
            Token.mk.inj (Option.some.inj htokens)
          have htext := hts.1.eq_of_append_eq (hkind ▸ hus.1)
            (lineEnds_followed ts) (lineEnds_followed us) hrest
          obtain rfl : t = u := by
            cases t
            cases u
            simp only [Token.mk.injEq]
            exact ⟨hkind, htext, hoffset⟩
          rw [ih hts.2 hus.2 (List.append_cancel_left hrest)]

-- ============================================================ of a query

variable {mode : Mode} {base : Nat} {text : Text}

/-- A stretch says where it ends, whatever is printed after it, if nothing
is printed after the end of the query. -/
theorem endsBefore_of_stretch {kind : Kind} {t rest r : Text}
    (h : Stretch mode kind t rest) (hblank : t.isBlank = false)
    (hlast : rest = [] → r = []) : EndsBefore kind t r := by
  cases kind with
  | text => exact h.newline_not_mem hblank (Or.inl rfl)
  | delimiter => exact h.newline_not_mem hblank (Or.inr rfl)
  | quoted =>
      cases h with
      | quoted hq hv => exact Stretch.quoted hq hv
      | quotedOpen hm hq hv =>
          rw [hlast rfl]
          exact Stretch.quotedOpen rfl hq hv
  | group =>
      cases h with
      | group hv => exact Stretch.group hv
      | groupOpen hm hv =>
          rw [hlast rfl]
          exact Stretch.groupOpen rfl hv

/-- The tokens of a query are delimited in print: one that is left open is
the last. -/
theorem delimited_listed {ts : List Token}
    (h : IsSegmentation mode base text ts) : Delimited (listed ts) := by
  induction ts generalizing base text with
  | nil => trivial
  | cons t ts ih =>
      have hrest := ih h.tail
      cases hblank : t.isBlank with
      | true =>
          rw [listed, List.filter_cons_of_neg (by simp [hblank])]
          exact hrest
      | false =>
          have hlast : content ts = [] → followed (listed ts) = [] := by
            intro hcontent
            cases ts with
            | nil => rfl
            | cons u us =>
                exact absurd (List.append_eq_nil_iff.1 hcontent).1
                  (h.ne_nil u (by simp))
          rw [listed, List.filter_cons_of_pos (by simp [hblank])]
          exact ⟨endsBefore_of_stretch (h.stretch [] t ts rfl) hblank hlast,
            hrest⟩

/-- Where a query has tokens, its print has the lines of each token that is
not blank, in order. These are one for each, and give back its offset, its
kind and its text when cut at the first two tabs, exactly where none of these
tokens has a line feed in its text; only a quoted token or a group can have
one. Whatever is in them, no other tokens of a query are printed alike. -/
theorem run_tokens_lines {i : Invocation} {content : Option Text}
    {s : Schema} {ts : List Token}
    (h : Schema.ofFile i.schema content = .ok s)
    (hcommand : i.command = .tokens)
    (htokens : Token.tokenize (i.mode s) i.query = .ok ts) :
    i.run content = .ok (tokenLines ts)
      ∧ (tokenLines ts).lines
        = (listed ts).flatMap (fun t => (tokenLine t).splitOn '\n')
      ∧ ((tokenLines ts).lines.map tokenOf? = (listed ts).map some
          ↔ ∀ t ∈ listed ts, '\n' ∉ t.text)
      ∧ (∀ t ∈ listed ts, '\n' ∈ t.text →
          t.kind = .quoted ∨ t.kind = .group)
      ∧ ∀ mode query us, Token.tokenize mode query = .ok us →
          tokenLines us = tokenLines ts → listed us = listed ts := by
  have hts := isSegmentation_of_tokenizeAt htokens
  refine ⟨?_, lines_tokenLines ts, map_tokenOf?_lines_iff ts, ?_, ?_⟩
  · rw [run_tokens h hcommand, htokens]
  · intro t ht hnewline
    obtain ⟨hmem, hblank⟩ := List.mem_filter.1 ht
    obtain ⟨before, after, hsplit⟩ := List.append_of_mem hmem
    -- Only white space and quoted stretches hold line feeds, by themselves or
    -- in a group.
    have hplain := (hts.stretch before t after hsplit).newline_not_mem
      (by simpa [isBlank] using hblank)
    cases hkind : t.kind with
    | text => exact absurd hnewline (hplain (Or.inl hkind))
    | delimiter => exact absurd hnewline (hplain (Or.inr hkind))
    | quoted => exact Or.inl rfl
    | group => exact Or.inr rfl
  · intro mode query us hus hprint
    have hus := isSegmentation_of_tokenizeAt hus
    refine (delimited_listed hus).eq (delimited_listed hts) ?_
    rw [followed_listed, followed_listed, hprint]

/-- One token on two lines, which are not read as that token. -/
theorem run_tokens_lines_quoted :
    let query : Text := "'x\ny'".toList
    let i : Invocation :=
      { schema := "a.json".toList, command := .tokens, query }
    let printed : Text := "0\tQuoted\t'x\ny'".toList
    i.run (some "\x7b\"fields\": []\x7d".toList) = .ok printed
      ∧ Token.tokenize .strict query = .ok [⟨.quoted, query, 0⟩]
      ∧ printed.lines = ["0\tQuoted\t'x".toList, "y'".toList]
      ∧ printed.lines.map tokenOf? ≠ [some ⟨.quoted, query, 0⟩] := by
  intro query i printed
  have htokens : Token.tokenize .strict query
      = .ok [⟨.quoted, query, 0⟩] := rfl
  have hprinted : tokenLines [⟨.quoted, query, 0⟩] = printed := by decide
  obtain ⟨hrun, -, hlines, -⟩ :=
    @run_tokens_lines i (some "\x7b\"fields\": []\x7d".toList)
      { fields := [] } _ rfl rfl htokens
  rw [hprinted] at hrun hlines
  refine ⟨hrun, htokens, by decide, fun hread => ?_⟩
  exact hlines.1 hread _ (List.mem_singleton_self _) (by decide)

end Invocation
end FilterQuery
