/-
Scanning in flow collections, on one line and without white space. There
the scanner is far simpler than it is in general: indentation does not
count, and no place is bound to be a key, so candidates that grow old are
given up without harm. What is left to know of a scanner is its `Spot`: how
deep it is, whether a key may start, what is left to read, and the tokens.

`Leads` says that scanning gets from one spot to another in steps that each
take at least a character, whatever else the scanner holds. There is one
lemma for each sign of a flow collection, one for each kind of scalar, and
one for a key with its colon: it takes two rounds, in which the candidate
must not expire, so the key may not be too long.
-/
import FilterQuery.Proofs.Yaml.Scalars
import FilterQuery.Yaml.Scanner

namespace FilterQuery
namespace Yaml
namespace Scanner

-- ================================================================ spots

/-- A candidate that need not be a key. -/
def IsOptional (k : Option Candidate) : Prop :=
  ∀ c, k = some c → c.required = false

/-- What there is to know of a scanner in flow collections. -/
structure Spot where
  /-- How many collections are around. -/
  depth : Nat
  keyAllowed : Bool
  rest : Text
  tokens : List Token

/-- The scanner has come to the spot. -/
structure At (s : Scanner) (p : Spot) : Prop where
  rest : s.cursor.rest = p.rest
  tokens : s.tokens = p.tokens
  depth : s.waiting.length = p.depth
  keyAllowed : s.keyAllowed = p.keyAllowed
  level : s.level = none
  outer : s.outer = []
  candidate : IsOptional s.candidate
  waiting : ∀ k ∈ s.waiting, IsOptional k
  running : Token.streamEnd ∉ s.tokens

variable {s : Scanner} {p q : Spot} {c : Char} {t : Text}

-- ============================================================ candidates

/-- Where there is no candidate, none has to be a key. -/
private theorem isOptional_none : IsOptional none := by
  intro c h
  cases h

/-- A candidate that need not be a key stays or goes. -/
private theorem expire_of_isOptional {k : Option Candidate} (h : IsOptional k)
    (m : Mark) : ∃ k', expire m k = some k' ∧ IsOptional k' := by
  cases k with
  | none => exact ⟨none, rfl, h⟩
  | some c =>
      by_cases hold : c.mark.line < m.line ∨ c.mark.index + 1024 < m.index
      · refine ⟨none, ?_, isOptional_none⟩
        rw [expire, if_pos hold, h c rfl]
        rfl
      · exact ⟨some c, if_neg hold, h⟩

/-- So it is with the candidates of all the collections around. -/
private theorem mapM_expire {ks : List (Option Candidate)}
    (h : ∀ k ∈ ks, IsOptional k) (m : Mark) :
    ∃ ks', ks.mapM (expire m) = some ks' ∧ ks'.length = ks.length
      ∧ ∀ k ∈ ks', IsOptional k := by
  induction ks with
  | nil => exact ⟨[], rfl, rfl, h⟩
  | cons k ks ih =>
      obtain ⟨k', hk', hoptional⟩ :=
        expire_of_isOptional (h k (List.mem_cons_self ..)) m
      obtain ⟨ks', hks', hlength, hall⟩ :=
        ih fun j hj => h j (List.mem_cons_of_mem _ hj)
      refine ⟨k' :: ks', ?_, by rw [List.length_cons, hlength]; rfl, ?_⟩
      · rw [List.mapM_cons, hk', hks']
        rfl
      · intro j hj
        rcases List.mem_cons.1 hj with rfl | hj
        · exact hoptional
        · exact hall j hj

/-- Giving up old candidates changes no spot. A candidate of the same line
that is near enough stays. -/
theorem At.expireAll (h : At s p) :
    ∃ s', s.expireAll = some s' ∧ At s' p ∧ s'.cursor = s.cursor
      ∧ ∀ k, s.candidate = some k → s.cursor.mark.line ≤ k.mark.line →
        s.cursor.mark.index ≤ k.mark.index + 1024 →
        s'.candidate = some k := by
  obtain ⟨k', hk', hoptional⟩ :=
    expire_of_isOptional h.candidate s.cursor.mark
  obtain ⟨ks', hks', hlength, hall⟩ := mapM_expire h.waiting s.cursor.mark
  refine ⟨{ s with candidate := k', waiting := ks' }, ?_, ?_, rfl, ?_⟩
  · simp only [Scanner.expireAll, hk', hks']
    rfl
  · exact ⟨h.rest, h.tokens, hlength.trans h.depth, h.keyAllowed, h.level,
      h.outer, hoptional, hall, h.running⟩
  · intro k hk hline hindex
    -- It is on this line, and not too far back.
    have hstays : expire s.cursor.mark (some k) = some (some k) := by
      unfold expire
      exact if_neg (by omega)
    rw [hk, hstays] at hk'
    exact (Option.some.inj hk').symm

/-- No candidate is missed where none has to be a key. -/
private theorem At.dropCandidate (h : At s p) :
    s.dropCandidate = some { s with candidate := none } := by
  have hnot : s.candidate.any (·.required) = false := by
    cases hk : s.candidate with
    | none => rfl
    | some k => exact h.candidate k hk
  unfold Scanner.dropCandidate
  rw [hnot]
  rfl

/-- Where a key may start, what comes next is a candidate. -/
theorem At.saveCandidate (h : At s p) :
    ∃ s', s.saveCandidate = some s' ∧ At s' p ∧ s'.cursor = s.cursor
      ∧ (p.keyAllowed = true → s'.candidate
          = some ⟨p.tokens.length, s.cursor.mark, false⟩) := by
  unfold Scanner.saveCandidate
  cases hallowed : s.keyAllowed with
  | false =>
      refine ⟨s, rfl, h, rfl, ?_⟩
      intro hp
      rw [← h.keyAllowed, hallowed] at hp
      cases hp
  | true =>
      -- A key is required at the column of a block collection only.
      have hrequired : (!s.inFlow && s.level == some s.column) = false := by
        rw [h.level]
        exact Bool.and_false _
      refine ⟨{ s with
        candidate := some ⟨s.tokens.length, s.cursor.mark, false⟩ }, ?_, ?_,
        rfl, ?_⟩
      · rw [if_pos rfl, hrequired, h.dropCandidate]
        rfl
      · refine ⟨h.rest, h.tokens, h.depth, h.keyAllowed, h.level, h.outer,
          ?_, h.waiting, h.running⟩
        intro c hc
        rw [← Option.some.inj hc]
      · intro _
        rw [h.tokens]

-- ============================================================== one round

/-- The character is passed over by nothing that stands between tokens. -/
def Begins (c : Char) : Prop :=
  isBreak c = false ∧ c ∉ ['#', ' ', '\t', byteOrderMark]

instance (c : Char) : Decidable (Begins c) :=
  inferInstanceAs (Decidable (_ ∧ _))

/-- Where a token begins there is nothing to pass over. -/
private theorem blankSpan_of_begins {rest : Text}
    (h : ∀ c t, rest = c :: t → Begins c) (inFlow allowed : Bool)
    (m : Mark) :
    blankSpan inFlow false allowed m rest = (allowed, ⟨rest, m⟩) := by
  cases rest with
  | nil => rfl
  | cons c t =>
      obtain ⟨hbreak, hsigns⟩ := h c t rfl
      simp only [List.mem_cons, List.not_mem_nil, or_false, not_or] at hsigns
      obtain ⟨hhash, hspace, htab, hmark⟩ := hsigns
      simp [blankSpan, hbreak, hhash, hspace, htab, hmark]

/-- The start of a token is where the scanner is already. -/
private theorem At.toToken (h : At s p)
    (hp : ∀ c t, p.rest = c :: t → Begins c) :
    s.toToken = s := by
  unfold Scanner.toToken
  rw [blankSpan_of_begins fun c t hc => hp c t (h.rest.symm.trans hc)]

/-- No block collection ends, as none has begun. -/
private theorem At.unroll (h : At s p) (column : Option Nat) :
    s.unroll column = s := by
  unfold Scanner.unroll
  split
  · rfl
  · have hlevel := h.level
    have houter := h.outer
    cases s
    subst hlevel houter
    rfl

/-- One round of scanning reads the token that starts here, or the end. -/
private theorem At.next_eq (h : At s p)
    (hp : ∀ c t, p.rest = c :: t → Begins c) :
    ∃ s', At s' p ∧ s'.cursor = s.cursor
      ∧ s.next = (match p.rest with
        | [] => s'.finish
        | c :: t => s'.dispatch c t)
      ∧ ∀ k, s.candidate = some k → s.cursor.mark.line ≤ k.mark.line →
        s.cursor.mark.index ≤ k.mark.index + 1024 →
        s'.candidate = some k := by
  obtain ⟨s', hs', hat, hcursor, hkeeps⟩ := h.expireAll
  refine ⟨s', hat, hcursor, ?_, hkeeps⟩
  simp only [Scanner.next, h.toToken hp, hs']
  show (match (s'.unroll (some s'.column)).cursor.rest with
    | [] => (s'.unroll (some s'.column)).finish
    | c :: t => (s'.unroll (some s'.column)).dispatch c t) = _
  rw [hat.unroll, hat.rest]

/-- In particular it reads the token that starts with the character here. -/
private theorem At.next (h : At s p) (hp : p.rest = c :: t) (hc : Begins c) :
    ∃ s', At s' p ∧ s'.cursor = s.cursor ∧ s.next = s'.dispatch c t
      ∧ ∀ k, s.candidate = some k → s.cursor.mark.line ≤ k.mark.line →
        s.cursor.mark.index ≤ k.mark.index + 1024 →
        s'.candidate = some k := by
  have hstart : ∀ d u, p.rest = d :: u → Begins d := by
    intro d u hdu
    obtain ⟨rfl, -⟩ := List.cons.inj (hp.symm.trans hdu)
    exact hc
  have hnext := h.next_eq hstart
  rwa [hp] at hnext

-- =============================================================== leading

/-- Scanning gets from the one spot to the other, and takes at least a
character in each round. -/
def Leads (p q : Spot) : Prop :=
  ∀ s, At s p → ∃ s' n, At s' q ∧ q.rest.length + n ≤ p.rest.length
    ∧ ∀ fuel settled, ∃ settled',
      run (fuel + n) settled s = run fuel settled' s'

/-- Where one stretch ends the next may start. -/
theorem Leads.trans {r : Spot} (h : Leads p q) (h' : Leads q r) :
    Leads p r := by
  intro s hs
  obtain ⟨s', n, hs', hn, hrun⟩ := h s hs
  obtain ⟨s'', n', hs'', hn', hrun'⟩ := h' s' hs'
  refine ⟨s'', n' + n, hs'', by omega, ?_⟩
  intro fuel settled
  obtain ⟨settled', heq⟩ := hrun (fuel + n') settled
  obtain ⟨settled'', heq'⟩ := hrun' fuel settled'
  exact ⟨settled'', by rw [← Nat.add_assoc, heq, heq']⟩

/-- A round of scanning, whatever it reads. -/
private theorem run_of_next (h : At s p) {after : Scanner}
    (hnext : ∀ s', s.expireAll = some s' → s'.next = some after)
    (fuel settled : Nat) :
    ∃ settled', run (fuel + 1) settled s = run fuel settled' after := by
  obtain ⟨s', hs', hat, -, -⟩ := h.expireAll
  have hlast : s'.tokens.getLast? ≠ some .streamEnd := by
    intro hlast
    exact hat.running (List.mem_of_getLast? hlast)
  refine ⟨s'.settled, ?_⟩
  simp only [run, hs', hlast, if_false, hnext s' hs']

/-- What one token leads to. -/
private theorem leads_of_dispatch (hp : p.rest = c :: t) (hc : Begins c)
    (hlength : q.rest.length < p.rest.length)
    (h : ∀ s, At s p → ∃ s', s.dispatch c t = some s' ∧ At s' q) :
    Leads p q := by
  intro s hs
  obtain ⟨s₁, hs₁, hat₁, -, -⟩ := hs.expireAll
  obtain ⟨s₂, hat₂, -, hnext, -⟩ := hat₁.next hp hc
  obtain ⟨s₃, hs₃, hat₃⟩ := h s₂ hat₂
  refine ⟨s₃, 1, hat₃, hlength, run_of_next hs ?_⟩
  intro s' hs'
  obtain rfl := Option.some.inj (hs₁.symm.trans hs')
  rw [hnext, hs₃]

-- ================================================================ signs

/-- A character that no directive and no document marker starts with. -/
private theorem dispatch_eq_sign (hc : c ∉ ['%', '-', '.']) :
    s.dispatch c t = s.sign c t := by
  simp only [List.mem_cons, List.not_mem_nil, or_false, not_or] at hc
  obtain ⟨hpercent, hdash, hpoint⟩ := hc
  simp [dispatch, hpercent, isTripled_of_ne hdash, isTripled_of_ne hpoint]

/-- The comma is a sign by itself. -/
private theorem dispatch_comma : s.dispatch ',' t = s.flowComma :=
  dispatch_eq_sign (by decide)

/-- A double quote starts a scalar. -/
private theorem dispatch_quote : s.dispatch '"' t = s.quotedScalar false :=
  dispatch_eq_sign (by decide)

/-- Within a collection a colon is a sign whatever follows it. -/
private theorem dispatch_colon (h : s.inFlow = true) :
    s.dispatch ':' t = s.colon := by
  rw [dispatch_eq_sign (by decide)]
  exact if_pos ⟨rfl, .inl h⟩

/-- A letter or digit starts a plain scalar. -/
private theorem dispatch_of_isAlphanum (h : c.isAlphanum = true) :
    s.dispatch c t = s.plainScalar := by
  have hstarts : s.startsPlain c t = true := by
    simp [startsPlain, ne_of_isAlphanum h, isBlank_of_isAlphanum h,
      isBreak_of_printable (printable_of_isAlphanum h),
      isFlowIndicator_of_isAlphanum h]
  rw [dispatch_eq_sign (by simp [ne_of_isAlphanum h])]
  simp [sign, ne_of_isAlphanum h, hstarts]

/-- The text goes on as long as its end has not been read. -/
private theorem running_append {ts : List Token} {tok : Token}
    (h : Token.streamEnd ∉ ts) (htok : tok ≠ .streamEnd) :
    Token.streamEnd ∉ ts ++ [tok] := by
  intro hmem
  rcases List.mem_append.1 hmem with hmem | hmem
  · exact h hmem
  · exact htok (List.mem_singleton.1 hmem).symm

/-- Over one character. -/
private theorem rest_skip {cursor : Cursor} (h : cursor.rest = c :: t) :
    (cursor.skip 1).rest = t := by
  rw [Cursor.skip, h]
  rfl

/-- A depth above zero is within a flow collection. -/
private theorem At.inFlow (h : At s p) (hp : 0 < p.depth) :
    s.inFlow = true := by
  have hlength := h.depth
  unfold Scanner.inFlow
  cases hw : s.waiting with
  | nil =>
      rw [hw, List.length_nil] at hlength
      omega
  | cons => rfl

variable {d : Nat} {a : Bool} {ts : List Token} {tok : Token}

/-- The start of a collection takes the scanner one deeper, to where a key may
start. -/
private theorem At.flowStart (h : At s ⟨d, a, c :: t, ts⟩)
    (htok : tok ≠ .streamEnd) :
    ∃ s', s.flowStart tok = some s' ∧ At s' ⟨d + 1, true, t, ts ++ [tok]⟩ := by
  obtain ⟨s', hs', hat, -, -⟩ := h.saveCandidate
  unfold Scanner.flowStart
  rw [hs']
  refine ⟨_, rfl, rest_skip hat.rest, ?_, ?_, rfl, hat.level, hat.outer,
    isOptional_none, ?_, running_append hat.running htok⟩
  · exact congrArg (· ++ [tok]) hat.tokens
  · exact congrArg Nat.succ hat.depth
  · intro k hk
    rcases List.mem_cons.1 hk with rfl | hk
    · exact hat.candidate
    · exact hat.waiting k hk

/-- Its end takes the scanner back, to where none may. -/
private theorem At.flowEnd (h : At s ⟨d + 1, a, c :: t, ts⟩)
    (htok : tok ≠ .streamEnd) :
    ∃ s', s.flowEnd tok = some s' ∧ At s' ⟨d, false, t, ts ++ [tok]⟩ := by
  unfold Scanner.flowEnd
  rw [h.dropCandidate]
  have hdepth := h.depth
  have hwaiting := h.waiting
  cases hw : s.waiting with
  | nil =>
      rw [hw] at hdepth
      cases hdepth
  | cons k ks =>
      rw [hw] at hdepth hwaiting
      refine ⟨_, rfl, ?_⟩
      exact ⟨rest_skip h.rest, congrArg (· ++ [tok]) h.tokens,
        Nat.succ.inj hdepth, rfl, h.level, h.outer,
        hwaiting k (List.mem_cons_self ..),
        fun j hj => hwaiting j (List.mem_cons_of_mem _ hj),
        running_append h.running htok⟩

/-- Behind a comma a key may start. -/
private theorem At.flowComma (h : At s ⟨d, a, c :: t, ts⟩) :
    ∃ s', s.flowComma = some s' ∧ At s' ⟨d, true, t, ts ++ [.flowEntry]⟩ := by
  unfold Scanner.flowComma
  rw [h.dropCandidate]
  exact ⟨_, rfl, rest_skip h.rest, congrArg (· ++ [_]) h.tokens, h.depth, rfl,
    h.level, h.outer, isOptional_none, h.waiting,
    running_append h.running (by decide)⟩

/-- The signs that start a flow collection, with their tokens. -/
def flowStarts : List (Char × Token) :=
  [('[', .flowSequenceStart), ('\x7b', .flowMappingStart)]

/-- The signs that end one. -/
def flowEnds : List (Char × Token) :=
  [(']', .flowSequenceEnd), ('\x7d', .flowMappingEnd)]

/-- The start of a flow collection leads into it. -/
theorem leads_flowStart (h : (c, tok) ∈ flowStarts) :
    Leads ⟨d, a, c :: t, ts⟩ ⟨d + 1, true, t, ts ++ [tok]⟩ := by
  simp only [flowStarts, List.mem_cons, Prod.mk.injEq, List.not_mem_nil,
    or_false] at h
  obtain ⟨hbegins, htok⟩ : Begins c ∧ tok ≠ .streamEnd := by
    rcases h with ⟨rfl, rfl⟩ | ⟨rfl, rfl⟩ <;> decide
  have hdispatch : ∀ s : Scanner, s.dispatch c t = s.flowStart tok := by
    intro s
    rcases h with ⟨rfl, rfl⟩ | ⟨rfl, rfl⟩ <;>
      exact dispatch_eq_sign (by decide)
  apply leads_of_dispatch rfl hbegins (Nat.lt_succ_self _)
  intro s hs
  rw [hdispatch]
  exact hs.flowStart htok

/-- Its end leads out of it. -/
theorem leads_flowEnd (h : (c, tok) ∈ flowEnds) :
    Leads ⟨d + 1, a, c :: t, ts⟩ ⟨d, false, t, ts ++ [tok]⟩ := by
  simp only [flowEnds, List.mem_cons, Prod.mk.injEq, List.not_mem_nil,
    or_false] at h
  obtain ⟨hbegins, htok⟩ : Begins c ∧ tok ≠ .streamEnd := by
    rcases h with ⟨rfl, rfl⟩ | ⟨rfl, rfl⟩ <;> decide
  have hdispatch : ∀ s : Scanner, s.dispatch c t = s.flowEnd tok := by
    intro s
    rcases h with ⟨rfl, rfl⟩ | ⟨rfl, rfl⟩ <;>
      exact dispatch_eq_sign (by decide)
  apply leads_of_dispatch rfl hbegins (Nat.lt_succ_self _)
  intro s hs
  rw [hdispatch]
  exact hs.flowEnd htok

/-- A comma leads to the next item. -/
theorem leads_comma :
    Leads ⟨d, a, ',' :: t, ts⟩ ⟨d, true, t, ts ++ [.flowEntry]⟩ := by
  apply leads_of_dispatch rfl (by decide) (Nat.lt_succ_self _)
  intro s hs
  rw [dispatch_comma]
  exact hs.flowComma

-- ============================================================== scalars

/-- A text in print starts with its mark and ends with it. -/
private theorem quote_append (x rest : Text) :
    Json.quote x ++ rest
      = '"' :: (x.flatMap Json.escapeChar ++ '"' :: rest) := by
  simp [Json.quote]

/-- Reads a text between its marks. Where a key may start, the text is the
candidate, and the mark has moved on by the length of its print. -/
theorem At.quotedScalar {x : Text} (hx : x.IsPrintable)
    (h : At s ⟨d, a, Json.quote x ++ t, ts⟩) :
    ∃ s', s.quotedScalar false = some s'
      ∧ At s' ⟨d, false, t, ts ++ [.scalar .doubleQuoted x]⟩
      ∧ s'.cursor.mark = s.cursor.mark.along (Json.quote x).length
      ∧ (a = true → s'.candidate
          = some ⟨ts.length, s.cursor.mark, false⟩) := by
  obtain ⟨s', hs', hat, hcursor, hcandidate⟩ := h.saveCandidate
  have hrest : s'.cursor.rest
      = '"' :: (x.flatMap Json.escapeChar ++ '"' :: t) :=
    hat.rest.trans (quote_append x t)
  have hskip : s'.cursor.skip 1
      = ⟨x.flatMap Json.escapeChar ++ '"' :: t, s'.cursor.mark.along 1⟩ := by
    have hafter := @after_of_printable '"' (by decide) s'.cursor.mark
    rw [Cursor.skip, hrest]
    exact congrArg _ hafter
  have hcolumn : 0 < (s'.cursor.mark.along 1).column :=
    Nat.lt_add_left _ Nat.one_pos
  have hread := readQuoted_flatMap hx hcolumn [] [] t
  have hlength : 1 + ((x.flatMap Json.escapeChar).length + 1)
      = (Json.quote x).length := by
    simp only [Json.quote, List.length_append, List.length_cons,
      List.length_nil]
    omega
  rw [Mark.along_along, hlength] at hread
  unfold Scanner.quotedScalar
  simp only [hs', hskip, hread, Option.bind_eq_bind, Option.bind_some]
  refine ⟨_, rfl, ?_, congrArg (Mark.along · _) (congrArg _ hcursor), ?_⟩
  · exact ⟨rfl, congrArg (· ++ [_]) hat.tokens, hat.depth, rfl, hat.level,
      hat.outer, hat.candidate, hat.waiting,
      running_append hat.running (fun h => nomatch h)⟩
  · exact hcandidate

/-- A text is a value wherever one may stand. -/
theorem leads_quote {x : Text} (hx : x.IsPrintable) :
    Leads ⟨d, a, Json.quote x ++ t, ts⟩
      ⟨d, false, t, ts ++ [.scalar .doubleQuoted x]⟩ := by
  have hlength : t.length < (Json.quote x ++ t).length := by
    rw [quote_append, List.length_cons, List.length_append, List.length_cons]
    omega
  apply leads_of_dispatch (quote_append x t) (by decide) hlength
  intro s hs
  rw [dispatch_quote]
  obtain ⟨s', hs', hat, -, -⟩ := hs.quotedScalar hx
  exact ⟨s', hs', hat⟩

/-- Nothing that stands between tokens has a letter or digit in it. -/
private theorem begins_of_isAlphanum (h : c.isAlphanum = true) : Begins c := by
  refine ⟨isBreak_of_printable (printable_of_isAlphanum h), ?_⟩
  have hbom : byteOrderMark.isAlphanum = false := by decide
  simp [ne_of_isAlphanum h, ne_of_isAlphanum h hbom]

/-- A word is a value up to the next sign of the collection. -/
theorem leads_word {w : Text} (hne : w ≠ [])
    (hw : ∀ c ∈ w, c.isAlphanum = true) (hc : c ∈ [',', ']', '\x7d']) :
    Leads ⟨d + 1, a, w ++ c :: t, ts⟩
      ⟨d + 1, false, c :: t, ts ++ [.scalar .plain w]⟩ := by
  obtain ⟨e, v, rfl⟩ := List.exists_cons_of_ne_nil hne
  have he := hw e (List.mem_cons_self ..)
  have hlength : (c :: t).length < (e :: v ++ c :: t).length := by
    simp only [List.cons_append, List.length_cons, List.length_append]
    omega
  apply leads_of_dispatch rfl (begins_of_isAlphanum he) hlength
  intro s hs
  rw [dispatch_of_isAlphanum he]
  obtain ⟨s', hs', hat, -, -⟩ := hs.saveCandidate
  -- The sign ends the word and is left to be read.
  have hread := @readPlain_word s'.cursor.mark (e :: v) hw c hc 0 [] t
  unfold Scanner.plainScalar
  simp only [hs', Option.bind_eq_bind, Option.bind_some, hat.level,
    Option.map_none, Option.getD_none, hat.inFlow (Nat.succ_pos d), hat.rest,
    hread]
  exact ⟨_, rfl, rfl, congrArg (· ++ [_]) hat.tokens, hat.depth, rfl, rfl,
    hat.outer, hat.candidate, hat.waiting,
    running_append hat.running (fun h => nomatch h)⟩

-- ================================================================= keys

/-- Within flow collections no block collection begins. -/
private theorem roll_of_inFlow (h : s.inFlow = true) (column number : Nat)
    (tok : Token) : s.roll column number tok = s := by
  unfold Scanner.roll
  rw [h]
  exact if_neg fun hnot => nomatch hnot.1

/-- The colon makes a key of the candidate just before it. -/
theorem At.colon {k : Candidate} {scalar : Token}
    (h : At s ⟨d + 1, a, c :: t, ts ++ [scalar]⟩)
    (hk : s.candidate = some k) (hnumber : k.number = ts.length) :
    ∃ s', s.colon = some s'
      ∧ At s' ⟨d + 1, false, t, ts ++ [.key, scalar, .value]⟩ := by
  -- The candidate is the last token, and the key goes before it.
  have hinsert : s.tokens.take k.number ++ Token.key :: s.tokens.drop k.number
      = ts ++ [.key, scalar] := by
    rw [h.tokens, hnumber, List.take_left, List.drop_left]
  have hroll := @roll_of_inFlow
    { s with
      tokens := ts ++ [.key, scalar], candidate := none, keyAllowed := false }
    (h.inFlow (Nat.succ_pos d)) k.mark.column k.number .blockMappingStart
  have hrunning : Token.streamEnd ∉ ts ++ [.key, scalar] := by
    have hnot := h.running
    rw [h.tokens] at hnot
    intro hmem
    apply hnot
    simpa using hmem
  unfold Scanner.colon
  rw [hk]
  refine ⟨_, rfl, ?_⟩
  rw [hinsert, hroll]
  exact ⟨rest_skip h.rest, List.append_assoc .., h.depth, rfl, h.level,
    h.outer, isOptional_none, h.waiting,
    running_append hrunning (by decide)⟩

/-- A short text with a colon after it leads to the value of the key. -/
theorem leads_key {x : Text} (hx : x.IsPrintable)
    (hshort : (Json.quote x).length ≤ 1024) :
    Leads ⟨d + 1, true, Json.quote x ++ ':' :: t, ts⟩
      ⟨d + 1, false, t, ts ++ [.key, .scalar .doubleQuoted x, .value]⟩ := by
  intro s hs
  -- The first round reads the text and leaves it as a candidate.
  obtain ⟨s₁, hs₁, hat₁, -, -⟩ := hs.expireAll
  obtain ⟨s₂, hat₂, -, hnext₂, -⟩ :=
    hat₁.next (quote_append x (':' :: t)) (by decide)
  obtain ⟨s₃, hs₃, hat₃, hmark, hcandidate⟩ := hat₂.quotedScalar hx
  have hrun₃ : ∀ fuel settled, ∃ settled',
      run (fuel + 1) settled s = run fuel settled' s₃ := by
    apply run_of_next hs
    intro s' hs'
    obtain rfl := Option.some.inj (hs₁.symm.trans hs')
    rw [hnext₂, dispatch_quote, hs₃]
  -- In the second one the candidate is still there, as it is short.
  have hline : s₃.cursor.mark.line ≤ s₂.cursor.mark.line := by
    rw [hmark]
    exact Nat.le_refl _
  have hindex : s₃.cursor.mark.index ≤ s₂.cursor.mark.index + 1024 := by
    rw [hmark]
    exact Nat.add_le_add_left hshort _
  obtain ⟨s₄, hs₄, hat₄, hcursor₄, hkeeps₄⟩ := hat₃.expireAll
  have hkey₄ := hkeeps₄ _ (hcandidate rfl) hline hindex
  obtain ⟨s₅, hat₅, -, hnext₅, hkeeps₅⟩ := hat₄.next rfl (by decide)
  rw [hcursor₄] at hkeeps₅
  have hkey₅ := hkeeps₅ _ hkey₄ hline hindex
  obtain ⟨s₆, hs₆, hat₆⟩ := hat₅.colon hkey₅ rfl
  have hrun₆ : ∀ fuel settled, ∃ settled',
      run (fuel + 1) settled s₃ = run fuel settled' s₆ := by
    apply run_of_next hat₃
    intro s' hs'
    obtain rfl := Option.some.inj (hs₄.symm.trans hs')
    rw [hnext₅, dispatch_colon (hat₅.inFlow (Nat.succ_pos d)), hs₆]
  refine ⟨s₆, 2, hat₆, ?_, ?_⟩
  · simp only [quote_append, List.length_cons, List.length_append]
    omega
  · intro fuel settled
    obtain ⟨settled', heq⟩ := hrun₃ (fuel + 1) settled
    obtain ⟨settled'', heq'⟩ := hrun₆ fuel settled'
    exact ⟨settled'', heq.trans heq'⟩

-- ============================================================ the whole

/-- At the end of the text nothing is missing outside of all collections,
and the round after it finds the end. -/
theorem At.finish (h : At s ⟨0, a, [], ts⟩) :
    ∃ s', s.next = some s' ∧ s'.expireAll = some s'
      ∧ s'.tokens = ts ++ [.streamEnd] := by
  obtain ⟨s', hat, -, hnext, -⟩ := h.next_eq fun c t hct => nomatch hct
  have hwaiting : s'.waiting = [] := List.eq_nil_of_length_eq_zero hat.depth
  refine ⟨({ s' with candidate := none, keyAllowed := false }).emit .streamEnd,
    hnext.trans ?_, ?_, congrArg (· ++ [_]) hat.tokens⟩
  · show s'.finish = _
    unfold Scanner.finish
    rw [hat.unroll, hat.dropCandidate]
    simp only [Option.bind_eq_bind, Option.bind_some, hwaiting]
    rfl
  · simp only [Scanner.expireAll, emit, hwaiting]
    rfl

/-- A text that leads through all of its collections has the tokens that
it leads to. -/
theorem run_of_leads (h : Leads ⟨0, true, t, []⟩ ⟨0, a, [], ts⟩) :
    run (t.length + 2) 0 { cursor := ⟨t, {}⟩ } = ts ++ [.streamEnd] := by
  have hstart : At { cursor := ⟨t, {}⟩ } ⟨0, true, t, []⟩ :=
    { rest := rfl, tokens := rfl, depth := rfl, keyAllowed := rfl
      level := rfl, outer := rfl, candidate := isOptional_none
      waiting := List.forall_mem_nil _, running := List.not_mem_nil }
  obtain ⟨s, n, hat, hn, hrun⟩ := h _ hstart
  obtain ⟨s₁, hs₁, hat₁, -, -⟩ := hat.expireAll
  obtain ⟨s₂, hnext, hs₂, htokens⟩ := hat₁.finish
  -- One round reads the end, and another one sees that it has been read.
  have hend : ∀ fuel settled,
      run (fuel + 2) settled s = ts ++ [.streamEnd] := by
    intro fuel settled
    have hround : ∀ s', s.expireAll = some s' → s'.next = some s₂ := by
      intro s' hs'
      obtain rfl := Option.some.inj (hs₁.symm.trans hs')
      exact hnext
    obtain ⟨settled', heq⟩ := run_of_next hat hround (fuel + 1) settled
    have hlast : s₂.tokens.getLast? = some .streamEnd := by
      rw [htokens]
      exact List.getLast?_concat
    rw [heq, run, hs₂]
    simp only [hlast, if_true]
    exact htokens
  obtain ⟨settled, heq⟩ := hrun (t.length - n + 2) 0
  have hfuel : t.length - n + 2 + n = t.length + 2 := by
    have hlength : 0 + n ≤ t.length := hn
    omega
  rw [← hfuel, heq]
  exact hend ..

end Scanner
end Yaml
end FilterQuery
