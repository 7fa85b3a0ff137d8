/-
The grammar read flat, one symbol at a time. A parenthesis is a symbol like
any other here: an opening one stands where a term may start and leads to
the slot at which a query starts, a closing one stands where a query may end
and leads to the slot behind a term. The slot to come back to is the same
for every group, so no stack is needed to walk from slot to slot; that the
parentheses are paired has been seen to by the time groups are joined.

The parser goes another way. It takes a group for one token, refuses it as
such where no term may start, and reads its contents as a text of their own.
Still both stop at the same token (`answers_parseAt`): what does not fit
inside a group is what the walk meets there, and contents that end too early
make the walk stop at the closing parenthesis.
-/
import FilterQuery.Proofs.Grammar.Outcomes

namespace FilterQuery

open Nesting Token

-- =============================================================== the walk

namespace Grammar

/-- The slot that a symbol leads to, if the symbol fits. -/
def Slot.after? : Slot → Symbol → Option Slot
  | slot, .opening => if slot.startsTerm then some .start else none
  | slot, .closing => if slot.missing? = none then some .bind else none
  | .start, .word _ | .term, .word _ => some .comparison
  | .value, .word _ => some .bind
  | .comparison, .operator op =>
      if op.isNullCheck then some .bind
      else if op.isComparison then some .value
      else none
  | .bind, .operator op => if op.isBind then some .term else none
  | _, _ => none

/-- The slot that symbols lead to, one after another, if they all fit. -/
def Slot.walk (slot : Slot) (ss : List Symbol) : Option Slot :=
  ss.foldlM Slot.after? slot

namespace Slot

@[simp] theorem walk_nil (slot : Slot) : slot.walk [] = some slot := rfl

private theorem walk_cons (slot : Slot) (s : Symbol) (ss : List Symbol) :
    slot.walk (s :: ss) = (slot.after? s).bind fun next => next.walk ss := by
  unfold walk
  rw [List.foldlM_cons]
  rfl

/-- Behind some symbols the walk goes on from the slot that they lead to. -/
theorem walk_append (slot : Slot) (ss ss' : List Symbol) :
    slot.walk (ss ++ ss')
      = (slot.walk ss).bind fun next => next.walk ss' := by
  unfold walk
  rw [List.foldlM_append]
  rfl

theorem walk_singleton (slot : Slot) (s : Symbol) :
    slot.walk [s] = slot.after? s := by
  rw [walk_cons]
  cases slot.after? s <;> rfl

private theorem after?_opening {slot : Slot} (h : slot.startsTerm = true) :
    slot.after? .opening = some .start := by
  cases slot <;> first | rfl | cases h

theorem after?_closing {slot : Slot} (h : slot.missing? = none) :
    slot.after? .closing = some .bind := by
  cases slot <;> first | rfl | cases h

/-- A group may not end where something is missing. -/
private theorem after?_closing_eq_none {slot : Slot}
    (h : slot.missing? ≠ none) :
    slot.after? .closing = none := by
  cases slot <;> first | rfl | exact absurd rfl h

end Slot

-- ============================================================ where it stops

/-- Where a walk over tokens from a slot comes to a halt: at a token that
does not fit, or behind the last one, if something is missing there. -/
inductive Stops (slot : Slot) (ts : List Token) : Option Token → Prop where
  | token {before after : List Token} {t : Token} {next : Slot}
      (hsplit : ts = before ++ t :: after) (hne : t.isBlank = false)
      (hwalk : slot.walk (symbols before) = some next)
      (ht : next.after? (Symbol.ofToken t) = none) : Stops slot ts (some t)
  | stop {next : Slot} (hwalk : slot.walk (symbols ts) = some next)
      (hmissing : next.missing? ≠ none) : Stops slot ts none

/-- The refusal that goes with where a walk stops. A group cannot end where
something is missing, so a closing parenthesis that does not fit is an end
as well. -/
def Answers (slot : Slot) (ts : List Token) : Option QueryError → Prop
  | none => ∃ next, slot.walk (symbols ts) = some next ∧ next.missing? = none
  | some (.unexpectedToken _ _ offset) =>
      ∃ t, Stops slot ts (some t) ∧ t.isClosing = false ∧ t.offset = offset
  | some (.incomplete _) =>
      Stops slot ts none
        ∨ ∃ t, Stops slot ts (some t) ∧ t.isClosing = true
  | some _ => False

variable {slot next : Slot} {before ts after : List Token} {t : Token}

/-- Behind tokens that have been walked over, the walk goes on from where it
has come to. -/
theorem walk_symbols_append
    (hwalk : slot.walk (symbols before) = some next) (us : List Token) :
    slot.walk (symbols (before ++ us)) = next.walk (symbols us) := by
  rw [symbols_append, Slot.walk_append, hwalk]
  rfl

/-- Symbols that can be walked do not stop it. -/
theorem Stops.append {b : Option Token} (h : Stops next ts b)
    (hwalk : slot.walk (symbols before) = some next) :
    Stops slot (before ++ ts) b := by
  cases h with
  | @token before' after t q hsplit hne hwalk' ht =>
      rw [hsplit, ← List.append_assoc]
      refine .token rfl hne ?_ ht
      rw [walk_symbols_append hwalk]
      exact hwalk'
  | stop hwalk' hmissing =>
      refine .stop ?_ hmissing
      rw [walk_symbols_append hwalk]
      exact hwalk'

/-- A token that stops the walk stops it whatever comes behind. -/
theorem Stops.extend (h : Stops slot ts (some t)) (after : List Token) :
    Stops slot (ts ++ after) (some t) := by
  cases h with
  | token hsplit hne hwalk ht =>
      rw [hsplit, List.append_assoc, List.cons_append]
      exact .token rfl hne hwalk ht

/-- A walk that comes through to where nothing is missing stops nowhere. -/
theorem not_stops_of_walk (hwalk : slot.walk (symbols ts) = some next)
    (hmissing : next.missing? = none) (b : Option Token) :
    ¬Stops slot ts b := by
  intro h
  cases h with
  | token hsplit hne hbefore ht =>
      rw [hsplit, walk_symbols_append hbefore, symbols_cons hne,
        Slot.walk_cons, ht] at hwalk
      cases hwalk
  | stop hend hne =>
      rw [hwalk] at hend
      obtain rfl := Option.some.inj hend
      exact hne hmissing

/-- So nothing is refused then. -/
theorem Answers.eq_none {r : Option QueryError} (h : Answers slot ts r)
    (hwalk : slot.walk (symbols ts) = some next)
    (hmissing : next.missing? = none) : r = none := by
  have hstops := not_stops_of_walk hwalk hmissing
  cases r with
  | none => rfl
  | some e =>
      cases e with
      | unexpectedToken found expected offset =>
          obtain ⟨t, ht, -⟩ := h
          exact absurd ht (hstops _)
      | incomplete expected =>
          rcases h with h | ⟨t, ht, -⟩
          · exact absurd h (hstops _)
          · exact absurd ht (hstops _)
      | _ => exact absurd h id

/-- What is read from the slot where the walk over some tokens ends is read
behind them. -/
theorem Answers.append {r : Option QueryError} (h : Answers next ts r)
    (hwalk : slot.walk (symbols before) = some next) :
    Answers slot (before ++ ts) r := by
  cases r with
  | none =>
      obtain ⟨q, hq, hmissing⟩ := h
      refine ⟨q, ?_, hmissing⟩
      rw [walk_symbols_append hwalk]
      exact hq
  | some e =>
      cases e with
      | unexpectedToken found expected offset =>
          obtain ⟨t, ht, hc, hoffset⟩ := h
          exact ⟨t, ht.append hwalk, hc, hoffset⟩
      | incomplete expected =>
          rcases h with h | ⟨t, ht, hc⟩
          · exact Or.inl (h.append hwalk)
          · exact Or.inr ⟨t, ht.append hwalk, hc⟩
      | _ => exact h

/-- A token that fits is one step of the walk. -/
theorem Answers.cons {r : Option QueryError} (hne : t.isBlank = false)
    (ht : slot.after? (Symbol.ofToken t) = some next)
    (h : Answers next ts r) : Answers slot (t :: ts) r := by
  have hwalk : slot.walk (symbols [t]) = some next := by
    rw [symbols_cons hne, symbols_nil, Slot.walk_singleton]
    exact ht
  exact h.append hwalk

/-- A token that does not fit stops the walk at once. -/
theorem Stops.head (hne : t.isBlank = false)
    (ht : slot.after? (Symbol.ofToken t) = none) (ts : List Token) :
    Stops slot (t :: ts) (some t) :=
  .token (List.nil_append _).symm hne rfl ht

/-- The walk over a closed group: into it, and out of it again where its
contents may end. -/
theorem answers_closed {o c : Token} {us : List Token}
    {r r' : Option QueryError} (ho : o.isOpening = true)
    (hc : c.isClosing = true) (hslot : slot.startsTerm = true)
    (hus : Answers .start us r) (hts : Answers .bind ts r') :
    Answers slot (o :: (us ++ c :: ts)) (r.or r') := by
  have hneO := isBlank_of_paren? (paren?_eq_opening.2 ho)
  have hneC := isBlank_of_paren? (paren?_eq_closing.2 hc)
  have hopen : slot.walk (symbols [o]) = some .start := by
    rw [symbols_cons hneO, symbols_nil, Symbol.ofToken_opening ho,
      Slot.walk_singleton, Slot.after?_opening hslot]
  have hinside : ∀ t, Stops .start us (some t) →
      Stops slot (o :: (us ++ c :: ts)) (some t) :=
    fun t ht => (ht.extend (c :: ts)).append hopen
  cases r with
  | none =>
      obtain ⟨q, hq, hmissing⟩ := hus
      have hclose : q.after? (Symbol.ofToken c) = some .bind := by
        rw [Symbol.ofToken_closing hc, Slot.after?_closing hmissing]
      exact ((hts.cons hneC hclose).append hq).append hopen
  | some e =>
      cases e with
      | unexpectedToken found expected offset =>
          obtain ⟨t, ht, hclosing, hoffset⟩ := hus
          exact ⟨t, hinside t ht, hclosing, hoffset⟩
      | incomplete expected =>
          refine Or.inr ?_
          rcases hus with h | ⟨t, ht, hclosing⟩
          · cases h with
            | @stop q hq hmissing =>
                -- Something is missing at the end of the group, and the walk
                -- stops at its parenthesis.
                have hclose : q.after? (Symbol.ofToken c) = none := by
                  rw [Symbol.ofToken_closing hc,
                    Slot.after?_closing_eq_none hmissing]
                have hend := (Stops.head hneC hclose ts).append hq
                exact ⟨c, hend.append hopen, hc⟩
          · exact ⟨t, hinside t ht, hclosing⟩
      | _ => exact hus

-- ============================================================== the parser

variable {contents : Token → Except QueryError (List Node)}

/-- Filling a slot from a token that is no group is a step of the walk. -/
theorem fill_cases_of_plain (hkind : t.kind ≠ .group)
    (hp : t.paren? = none) (slot : Slot) :
    (∃ n next, slot.fill contents t = .ok (n, next)
        ∧ slot.after? (Symbol.ofToken t) = some next)
      ∨ slot.fill contents t
          = .error (.unexpectedToken t.text slot.expected t.offset)
        ∧ slot.after? (Symbol.ofToken t) = none := by
  obtain ⟨hword, hoperator⟩ := ofToken_of_reading hp
  cases hr : Reading.ofToken t with
  | group => exact absurd hr (reading_ne_group hkind)
  | word =>
      rw [hword hr]
      unfold Slot.fill
      rw [hr]
      cases slot <;> simp [Slot.after?]
  | operator op =>
      rw [hoperator op hr]
      unfold Slot.fill
      rw [hr]
      cases slot with
      | comparison =>
          cases hn : op.isNullCheck with
          | true => simp [Slot.after?, hn]
          | false =>
              cases hop : op.isComparison <;> simp [Slot.after?, hn, hop]
      | bind => cases hop : op.isBind <;> simp [Slot.after?, hop]
      | _ => simp [Slot.after?]

private theorem refusal_fillFrom_of_ok {n : Node}
    (h : slot.fill contents t = .ok (n, next)) (ts : List Token) :
    refusal (fillFrom contents slot (t :: ts))
      = refusal (fillFrom contents next ts) := by
  rw [fillFrom, h]
  exact refusal_map _ (n :: ·)

private theorem refusal_fillFrom_of_error {e : QueryError}
    (h : slot.fill contents t = .error e) (ts : List Token) :
    refusal (fillFrom contents slot (t :: ts)) = some e := by
  rw [fillFrom, h]
  rfl

/-- A group is refused for its contents, and the rest only after that. -/
private theorem refusal_fillFrom_group (hkind : t.kind = .group)
    (hslot : slot.startsTerm = true) (ts : List Token) :
    refusal (fillFrom contents slot (t :: ts))
      = (refusal (contents t)).or (refusal (fillFrom contents .bind ts)) := by
  cases hc : contents t with
  | ok children =>
      exact refusal_fillFrom_of_ok ((fill_group_eq_ok hkind).2
        ⟨hslot, rfl, children, hc, rfl⟩) ts
  | error e =>
      have hreading := reading_eq_group hkind
      refine refusal_fillFrom_of_error ?_ ts
      unfold Slot.fill
      cases slot with
      | start => rw [hreading, hc]; rfl
      | term => rw [hreading, hc]; rfl
      | _ => cases hslot

/-- Where no term may start a group is refused as a token. -/
private theorem fill_group_eq_error (hkind : t.kind = .group)
    (hslot : slot.startsTerm = false) :
    slot.fill contents t
      = .error (.unexpectedToken t.text slot.expected t.offset) := by
  unfold Slot.fill
  rw [reading_eq_group hkind]
  cases slot <;> first | rfl | cases hslot

/-- Filling slots from joined tokens stops where the walk over the tokens
that they were joined from stops, if reading the contents of groups does. -/
theorem answers_fillFrom {gs : List Token} (h : Grouped .strict ts gs)
    (hkind : ∀ t ∈ ts, t.kind ≠ .group)
    (hinner : ∀ as o us c bs, ts = as ++ o :: (us ++ c :: bs) →
      grouped o (us ++ [c]) ∈ gs → o.isOpening = true →
      level paren? 0 us = some 0 → c.isClosing = true →
      Answers .start us (refusal (contents (grouped o (us ++ [c])))))
    (slot : Slot) :
    Answers slot ts
      (refusal (fillFrom contents slot (gs.filter (!·.isBlank)))) := by
  induction h generalizing slot with
  | nil =>
      cases hmissing : slot.missing? with
      | none =>
          rw [List.filter_nil, fillFrom, hmissing]
          exact ⟨slot, rfl, hmissing⟩
      | some expected =>
          rw [List.filter_nil, fillFrom, hmissing]
          exact Or.inl (.stop rfl (by simp [hmissing]))
  | @plain t ts gs ho hc h ih =>
      have hplain := hkind t (List.mem_cons_self ..)
      have hp : t.paren? = none := paren?_eq_none.2 ⟨ho, hc rfl⟩
      have ih := ih (fun u hu => hkind u (List.mem_cons_of_mem _ hu))
        (fun as o us c bs hts hmem => hinner (t :: as) o us c bs
          (congrArg (t :: ·) hts) (List.mem_cons_of_mem _ hmem))
      -- A blank token is neither read nor walked over.
      cases hblank : t.isBlank with
      | true =>
          rw [List.filter_cons_of_neg (by simp [hblank])]
          have hwalk : slot.walk (symbols [t]) = some slot := by
            simp [symbols, hblank]
          exact (ih slot).append hwalk
      | false =>
          rw [List.filter_cons_of_pos (by simp [hblank])]
          rcases fill_cases_of_plain hplain hp slot
            with ⟨n, next, hfill, hafter⟩ | ⟨hfill, hafter⟩
          · rw [refusal_fillFrom_of_ok hfill]
            exact (ih next).cons hblank hafter
          · rw [refusal_fillFrom_of_error hfill]
            exact ⟨t, .head hblank hafter ts, hc rfl, rfl⟩
  | @closed o c us ts gs ho hus hc h ih =>
      have hsplit : o :: (us ++ c :: ts) = (o :: (us ++ [c])) ++ ts := by
        simp
      have ih := ih
        (fun u hu => hkind u (hsplit ▸ List.mem_append_right _ hu))
        (fun as o' vs c' bs hts hmem => hinner (o :: (us ++ [c]) ++ as) o'
          vs c' bs (by rw [hsplit, hts, List.append_assoc])
          (List.mem_cons_of_mem _ hmem))
      rw [List.filter_cons_of_pos (by rw [isBlank_grouped ho]; rfl)]
      cases hslot : slot.startsTerm with
      | true =>
          rw [refusal_fillFrom_group rfl hslot]
          have hcontents := hinner [] o us c ts rfl (List.mem_cons_self ..)
            ho hus hc
          exact answers_closed ho hc hslot hcontents (ih .bind)
      | false =>
          -- No term may start here: the group is refused before it is read.
          rw [refusal_fillFrom_of_error (fill_group_eq_error rfl hslot)]
          have hneO := isBlank_of_paren? (paren?_eq_opening.2 ho)
          have hafter : slot.after? (Symbol.ofToken o) = none := by
            rw [Symbol.ofToken_opening ho]
            cases slot <;> first | rfl | cases hslot
          exact ⟨o, .head hneO hafter _, isClosing_of_isOpening ho, rfl⟩
  | opened hm => cases hm

end Grammar

namespace Node

open Grammar

/-- The parser stops where the walk over the tokens of the text stops. -/
theorem answers_parseAt {base : Nat} {text : Text} {ts gs : List Token}
    (hlexed : lexed base text = (ts, none)) (hgs : Grouped .strict ts gs) :
    Answers .start ts (refusal (parseAt .strict base text)) := by
  induction base, text using contents_induction .strict
    generalizing ts gs with
  | step base text ih =>
      have htokens : tokenizeAt .strict base text = .ok gs :=
        tokenizeAt_strict_eq_ok_iff.2 ⟨ts, hlexed, hgs⟩
      have hkind : ∀ t ∈ ts, t.kind ≠ .group := fun t ht =>
        kind_ne_group_of_lexed hlexed t (List.mem_append_left _ ht)
      rw [parseAt_eq, htokens]
      refine answers_fillFrom hgs hkind
        (fun as o us c bs hts hmem ho hus hc => ?_) .start
      subst hts
      have hinner := lexed_closed hlexed ho
      rw [← interior_closed ho hc us] at hinner
      obtain ⟨hs, hhs⟩ := exists_grouped_strict hus
      exact ih gs htokens _ hmem rfl hinner hhs

end Node
end FilterQuery
