/-
Errors at the earliest place. A sequence of tokens is viable if some query
that the parser accepts starts with it. The parser refuses a query at the
first token that makes what has been read no longer viable, and where there
is no such token, at the end if the query is not accepted as it stands
(`parse_strict_iff_breaks`).

That says something about all queries that could go on from a prefix, at any
depth. It comes down to the walk over symbols: every slot can be completed,
by a word or a null check and then a closing parenthesis for every group
that is open, so the walk comes through just where a prefix is viable
(`viable_of_walk`, `walk_of_viable`).
-/
import FilterQuery.Proofs.Grammar.Concatenation
import FilterQuery.Proofs.Grammar.Walk

namespace FilterQuery

open Nesting Token

-- ========================================================= token sequences

namespace Token

/-- What a token is, wherever it stands. -/
def sign (t : Token) : Kind × Text := (t.kind, t.text)

/-- The signs of tokens, blank ones left out. -/
def signs (ts : List Token) : List (Kind × Text) :=
  (ts.filter (!·.isBlank)).map sign

private theorem signs_append (ts us : List Token) :
    signs (ts ++ us) = signs ts ++ signs us := by
  simp [signs]

end Token

/-- The symbol that a token of that sign is. -/
def Symbol.ofSign (s : Token.Kind × Text) : Symbol :=
  Symbol.ofToken ⟨s.1, s.2, 0⟩

private theorem Token.symbols_eq_signs (ts : List Token) :
    symbols ts = (signs ts).map Symbol.ofSign := by
  unfold symbols signs
  rw [List.map_map]
  rfl

namespace Grammar

/-- The sequence is that of a query that the strict parser accepts. -/
def Accepted (ss : List (Token.Kind × Text)) : Prop :=
  ∃ query ts ns, ungrouped .strict 0 query = .ok ts
    ∧ Node.parse .strict query = .ok ns ∧ signs ts = ss

/-- The sequence is where an accepted one starts. -/
def Viable (ss : List (Token.Kind × Text)) : Prop :=
  ∃ more, Accepted (ss ++ more)

/-- The breaking point of tokens: the one up to which they are viable and
with which they no longer are, or the end, if they are viable up to there
and not accepted. -/
inductive Breaks (ts : List Token) : Option Token → Prop where
  | token {before after : List Token} {t : Token}
      (hsplit : ts = before ++ t :: after)
      (hbefore : Viable (before.map sign))
      (ht : ¬Viable ((before ++ [t]).map sign)) : Breaks ts (some t)
  | stop (hviable : Viable (ts.map sign))
      (haccepted : ¬Accepted (ts.map sign)) : Breaks ts none

variable {ss ss' : List (Token.Kind × Text)} {ts : List Token}

theorem Viable.of_append (h : Viable (ss ++ ss')) : Viable ss := by
  obtain ⟨more, h⟩ := h
  exact ⟨ss' ++ more, by rwa [← List.append_assoc]⟩

theorem Accepted.viable (h : Accepted ss) : Viable ss :=
  ⟨[], by rwa [List.append_nil]⟩

/-- What is viable as a whole breaks at none of its tokens. -/
theorem Breaks.not_viable {t : Token} (h : Breaks ts (some t)) :
    ¬Viable (ts.map sign) := by
  cases h with
  | token hsplit hbefore ht =>
      intro hviable
      apply ht
      rw [hsplit, List.append_cons, List.map_append] at hviable
      exact hviable.of_append

theorem Breaks.not_accepted {b : Option Token} (h : Breaks ts b) :
    ¬Accepted (ts.map sign) := by
  intro haccepted
  cases b with
  | none =>
      cases h with
      | stop hviable h => exact h haccepted
  | some t => exact h.not_viable haccepted.viable

/-- There is one breaking point at most. -/
theorem Breaks.unique {b b' : Option Token} (h : Breaks ts b)
    (h' : Breaks ts b') : b = b' := by
  cases h with
  | stop hviable haccepted =>
      cases b' with
      | none => rfl
      | some t => exact absurd hviable h'.not_viable
  | @token before after t hsplit hbefore ht =>
      cases h' with
      | stop hviable haccepted =>
          exact absurd hviable (Breaks.token hsplit hbefore ht).not_viable
      | @token before' after' t' hsplit' hbefore' ht' =>
          rcases Lists.append_cons_eq_append_cons (hsplit.symm.trans hsplit')
            with ⟨-, rfl, -⟩ | ⟨zs, rfl, -⟩ | ⟨zs, rfl, -⟩
          · rfl
          · rw [List.append_cons, List.map_append] at hbefore'
            exact absurd hbefore'.of_append ht
          · rw [List.append_cons, List.map_append] at hbefore
            exact absurd hbefore.of_append ht'

-- ==================================================== viable sequences walk

/-- An accepted sequence is walked to where a query may end. -/
theorem walk_of_accepted (h : Accepted ss) :
    ∃ slot, Slot.start.walk (ss.map Symbol.ofSign) = some slot
      ∧ slot.missing? = none := by
  obtain ⟨query, ts, ns, hts, hns, rfl⟩ := h
  obtain ⟨us, hus, hlevel⟩ := Node.exists_lexed_of_parseAt hns
  have hlexed := ungrouped_strict_eq_ok.1 hts
  obtain rfl : us = ts := congrArg Prod.fst (hus.symm.trans hlexed)
  obtain ⟨gs, hgs⟩ := exists_grouped_strict hlevel
  have hanswers := Node.answers_parseAt hlexed hgs
  have hnone : refusal (Node.parseAt .strict 0 query) = none :=
    refusal_eq_none_iff.2 ⟨ns, hns⟩
  rw [hnone] at hanswers
  rwa [← symbols_eq_signs]

private theorem walk_of_viable (h : Viable ss) :
    ∃ slot, Slot.start.walk (ss.map Symbol.ofSign) = some slot := by
  obtain ⟨more, h⟩ := h
  obtain ⟨slot, hwalk, -⟩ := walk_of_accepted h
  rw [List.map_append, Slot.walk_append, Option.bind_eq_some_iff] at hwalk
  obtain ⟨next, hnext, -⟩ := hwalk
  exact ⟨next, hnext⟩

-- ==================================================== what walks is viable

variable {text : Text} {slot : Slot} {k : Nat}

/-- A text without an open quote or group that is walked to where a query
may end is accepted. -/
theorem accepted_of_walk (hlexed : lexed 0 text = (ts, none))
    (hlevel : level paren? 0 ts = some 0)
    (hwalk : Slot.start.walk (symbols ts) = some slot)
    (hmissing : slot.missing? = none) : Accepted (signs ts) := by
  obtain ⟨gs, hgs⟩ := exists_grouped_strict hlevel
  have hanswers := Node.answers_parseAt hlexed hgs
  have hnone := hanswers.eq_none hwalk hmissing
  obtain ⟨ns, hns⟩ := refusal_eq_none_iff.1 hnone
  exact ⟨text, ts, ns, ungrouped_strict_eq_ok.2 hlexed, hns, rfl⟩

/-- Where a query may end but for open groups, they can be closed. -/
theorem viable_of_walk_end (hlexed : lexed 0 text = (ts, none))
    (hlevel : level paren? 0 ts = some k)
    (hwalk : Slot.start.walk (symbols ts) = some slot)
    (hmissing : slot.missing? = none) : Viable (signs ts) := by
  induction k generalizing text ts slot with
  | zero => exact (accepted_of_walk hlexed hlevel hwalk hmissing).viable
  | succ k ih =>
      have hclosed := lexed_append_closing 0 text
      rw [hlexed] at hclosed
      generalize hdef : (⟨.delimiter, [')'], 0 + text.byteSize⟩ : Token) = c
        at hclosed
      have hc : c.isClosing = true := hdef ▸ rfl
      have hp := paren?_eq_closing.2 hc
      have hwalk' : Slot.start.walk (symbols (ts ++ [c])) = some .bind := by
        rw [walk_symbols_append hwalk, symbols_cons (isBlank_of_paren? hp),
          Symbol.ofToken_closing hc, symbols_nil, Slot.walk_singleton]
        exact Slot.after?_closing hmissing
      have hviable := ih hclosed ((level_concat_closing hp).2 hlevel)
        hwalk' rfl
      rw [signs_append] at hviable
      exact hviable.of_append

/-- A text for what is missing at a slot. -/
def Slot.completion : Slot → Text
  | start | bind => []
  | term => "a isnull".toList
  | comparison => "isnull".toList
  | value => "a".toList

private theorem Slot.spells_completion (slot : Slot) :
    ∃ ss next, Spells slot.completion ss
      ∧ level Symbol.paren? 0 ss = some 0
      ∧ slot.walk ss = some next ∧ next.missing? = none := by
  have hword : Spells "a".toList [.word "a".toList] :=
    ⟨_, rfl, rfl⟩
  have hnull : Spells "isnull".toList [.operator .isNull] := ⟨_, rfl, rfl⟩
  cases slot with
  | start => exact ⟨[], .start, .nil, rfl, rfl, rfl⟩
  | bind => exact ⟨[], .bind, .nil, rfl, rfl, rfl⟩
  | term => exact ⟨_, .bind, hword.space hnull, rfl, rfl, rfl⟩
  | comparison => exact ⟨_, .bind, hnull, rfl, rfl, rfl⟩
  | value => exact ⟨_, .bind, hword, rfl, rfl, rfl⟩

/-- A text without an open quote that can be walked and closes no more than
it opens is viable. -/
theorem viable_of_walk (hlexed : lexed 0 text = (ts, none))
    (hlevel : level paren? 0 ts = some k)
    (hwalk : Slot.start.walk (symbols ts) = some slot) :
    Viable (signs ts) := by
  -- From any slot there are symbols that complete the query.
  obtain ⟨ss, next, ⟨us, hus, rfl⟩, hbalanced, hnext, hmissing⟩ :=
    slot.spells_completion
  have hspace : Solitary ' ' := solitary_of_mem (by simp)
  have hjoined := lexed_join hspace (by decide) hlexed hus
  generalize hdef : (⟨.delimiter, [' '], text.byteSize⟩ : Token) = space
    at hjoined
  generalize hvs : us.map _ = vs at hjoined
  have hsymbols : symbols (ts ++ space :: vs) = symbols ts ++ symbols us := by
    have hspace : symbols (space :: vs) = symbols vs := by
      rw [← hdef]
      rfl
    rw [symbols_append, hspace, ← hvs, symbols_moved]
  have hlevel' : level paren? 0 (ts ++ space :: vs) = some k := by
    rw [← level_symbols, hsymbols, level_append, level_symbols, hlevel]
    simpa using level_add hbalanced k
  have hwalk' : Slot.start.walk (symbols (ts ++ space :: vs))
      = some next := by
    rw [hsymbols, Slot.walk_append, hwalk]
    exact hnext
  have hviable := viable_of_walk_end hjoined hlevel' hwalk' hmissing
  rw [signs_append] at hviable
  exact hviable.of_append

-- ============================================================ the earliest

/-- Where the walk over the tokens of a text stops is their breaking
point. -/
theorem breaks_of_stops (hlexed : lexed 0 text = (ts, none))
    (hlevel : level paren? 0 ts = some 0) {b : Option Token}
    (h : Stops .start ts b) : Breaks (ts.filter (!·.isBlank)) b := by
  cases h with
  | @token before after t next hsplit hne hwalk ht =>
      subst hsplit
      have hfront : lexed 0 (content before) = (before, none) := by
        rw [← List.nil_append before] at hlexed
        exact lexed_infix hlexed
      obtain ⟨k, hk⟩ : ∃ k, level paren? 0 before = some k := by
        rw [level_append, Option.bind_eq_some_iff] at hlevel
        obtain ⟨k, hk, -⟩ := hlevel
        exact ⟨k, hk⟩
      have hfilter : (before ++ t :: after).filter (!·.isBlank)
          = before.filter (!·.isBlank) ++ t :: after.filter (!·.isBlank) := by
        rw [List.filter_append, List.filter_cons_of_pos (by simp [hne])]
      refine .token hfilter (viable_of_walk hfront hk hwalk) fun hviable => ?_
      -- Could the token follow, the walk would not stop at it.
      obtain ⟨slot, hslot⟩ := walk_of_viable hviable
      have hwalk' : Slot.start.walk (symbols (before ++ [t])) = some slot := by
        rw [symbols_eq_signs, signs_append, ← hslot]
        simp [signs, hne]
      rw [walk_symbols_append hwalk, symbols_cons hne, symbols_nil,
        Slot.walk_singleton, ht] at hwalk'
      cases hwalk'
  | @stop next hwalk hmissing =>
      refine .stop (viable_of_walk hlexed hlevel hwalk) fun haccepted => ?_
      obtain ⟨slot, hslot, hnone⟩ := walk_of_accepted haccepted
      have hwalk' : Slot.start.walk (symbols ts) = some slot := by
        rw [symbols_eq_signs]
        exact hslot
      rw [hwalk] at hwalk'
      obtain rfl := Option.some.inj hwalk'
      exact hmissing hnone

end Grammar

namespace Node

open Grammar

/-- A query whose quotes and parentheses are in order is refused at the
earliest place: where its tokens, blank ones aside, cease to be the start of
a query that is accepted. That is an unexpected token, unless it is a
closing parenthesis or the end: then the expression is incomplete. -/
theorem parse_strict_iff_breaks {query : Text} {gs : List Token}
    (h : tokenize .strict query = .ok gs) :
    ∃ ts, ungrouped .strict 0 query = .ok ts
      ∧ (∀ b b', Breaks (ts.filter (!·.isBlank)) b →
        Breaks (ts.filter (!·.isBlank)) b' → b = b')
      ∧ ((∃ ns, parse .strict query = .ok ns)
        ↔ ¬∃ b, Breaks (ts.filter (!·.isBlank)) b)
      ∧ (∀ offset, (∃ found expected, parse .strict query
            = .error (.unexpectedToken found expected offset))
        ↔ ∃ t, Breaks (ts.filter (!·.isBlank)) (some t)
            ∧ t.isClosing = false ∧ t.offset = offset)
      ∧ ((∃ expected, parse .strict query = .error (.incomplete expected))
        ↔ Breaks (ts.filter (!·.isBlank)) none
          ∨ ∃ t, Breaks (ts.filter (!·.isBlank)) (some t)
              ∧ t.isClosing = true) := by
  obtain ⟨ts, hlexed, hgs⟩ := tokenizeAt_strict_eq_ok_iff.1 h
  have hts := ungrouped_strict_eq_ok.2 hlexed
  have hanswers : Answers .start ts (refusal (parse .strict query)) :=
    answers_parseAt hlexed hgs
  have hbreaks : ∀ {b}, Stops .start ts b →
      Breaks (ts.filter (!·.isBlank)) b :=
    breaks_of_stops hlexed hgs.balanced
  refine ⟨ts, hts, fun b b' hb hb' => hb.unique hb', ?_⟩
  cases hparse : parse .strict query with
  | ok ns =>
      have haccepted : Accepted ((ts.filter (!·.isBlank)).map sign) :=
        ⟨query, ts, ns, hts, hparse, rfl⟩
      have hnone : ∀ b, ¬Breaks (ts.filter (!·.isBlank)) b :=
        fun b hb => hb.not_accepted haccepted
      simp [hnone]
  | error e =>
      rw [hparse, refusal_error] at hanswers
      cases e with
      | unexpectedToken found expected offset =>
          -- There is only one break, and this is it.
          obtain ⟨t, ht, hc, rfl⟩ := hanswers
          have hb := hbreaks ht
          have honly : ∀ b, Breaks (ts.filter (!·.isBlank)) b
              ↔ b = some t :=
            fun b => ⟨fun h => h.unique hb, fun h => h ▸ hb⟩
          simp [honly, hc]
      | incomplete expected =>
          -- The query ends too early, or a group in it does.
          obtain ⟨b, hb, hc⟩ : ∃ b, Breaks (ts.filter (!·.isBlank)) b
              ∧ ∀ t ∈ b, t.isClosing = true := by
            rcases hanswers with h | ⟨t, ht, hc⟩
            · exact ⟨none, hbreaks h, by simp⟩
            · exact ⟨some t, hbreaks ht, by simpa using hc⟩
          have honly : ∀ b', Breaks (ts.filter (!·.isBlank)) b'
              ↔ b' = b :=
            fun b' => ⟨fun h => h.unique hb, fun h => h ▸ hb⟩
          cases b with
          | none => simp [honly]
          | some t => simp [honly, hc t rfl]
      | _ => exact absurd hanswers id

/-- A name behind a quoted one in a group, and a group that ends before its
value. -/
theorem parse_strict_iff_breaks_groups :
    (∃ ts t, ungrouped .strict 0 "(a ISNULL or 'é)' b)".toList = .ok ts
      ∧ Breaks (ts.filter (!·.isBlank)) (some t)
      ∧ t.isClosing = false ∧ t.offset = 19)
    ∧ ∃ ts, ungrouped .strict 0 "(a = )".toList = .ok ts
      ∧ (Breaks (ts.filter (!·.isBlank)) none
        ∨ ∃ t, Breaks (ts.filter (!·.isBlank)) (some t)
            ∧ t.isClosing = true) := by
  have hname : parse .strict "(a ISNULL or 'é)' b)".toList
      = .error (.unexpectedToken ['b'] .comparison 19) := by
    rw [← refusal_eq_some_iff]
    decide +kernel
  have hend : parse .strict "(a = )".toList = .error (.incomplete .value) := by
    rw [← refusal_eq_some_iff]
    decide +kernel
  have hgroup : tokenize .strict "(a ISNULL or 'é)' b)".toList
      = .ok [⟨.group, "(a ISNULL or 'é)' b)".toList, 0⟩] := by
    rfl
  have hgroup' : tokenize .strict "(a = )".toList
      = .ok [⟨.group, "(a = )".toList, 0⟩] := by
    rfl
  obtain ⟨ts, hts, -, -, hunexpected, -⟩ := parse_strict_iff_breaks hgroup
  obtain ⟨us, hus, -, -, -, hincomplete⟩ := parse_strict_iff_breaks hgroup'
  obtain ⟨t, ht⟩ := (hunexpected 19).1 ⟨_, _, hname⟩
  exact ⟨⟨ts, t, hts, ht⟩, us, hus, hincomplete.1 ⟨_, hend⟩⟩

end Node
end FilterQuery
