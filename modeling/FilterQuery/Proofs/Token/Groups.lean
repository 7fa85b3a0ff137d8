/-
What the group pass makes of tokens, said as a relation: `Grouped mode ts
gs` reads `ts` from left to right as tokens that stand for themselves, as
closed groups, and in lenient mode possibly as one open group at the end.
The contents of a closed group are balanced; those of an open one close
nothing that is outside.

`joinGroups_of_grouped` says that the pass computes this relation, and
`exists_grouped` on which lists it has a result: on all in lenient mode
that close no more than they open, and in strict mode on the balanced
ones.
-/
import FilterQuery.Proofs.Nesting
import FilterQuery.Proofs.Token.Quotes

namespace FilterQuery
namespace Token

open Nesting

/-- The parenthesis that a token is, if it is one. -/
def paren? (t : Token) : Option Paren :=
  if t.isOpening then some .opening
  else if t.isClosing then some .closing
  else none

/-- The two parentheses are the tokens that nesting looks at. -/
theorem paren?_eq_opening {t : Token} :
    t.paren? = some .opening ↔ t.isOpening = true := by
  unfold paren?
  split
  · simp_all
  · split <;> simp_all

theorem paren?_eq_closing {t : Token} :
    t.paren? = some .closing ↔ t.isClosing = true := by
  unfold paren?
  split
  · rename_i h
    -- No token is a parenthesis of both kinds.
    simp only [isOpening, Bool.and_eq_true, beq_iff_eq] at h
    simp [isClosing, h]
  · split <;> simp_all

theorem paren?_eq_none {t : Token} :
    t.paren? = none ↔ t.isOpening = false ∧ t.isClosing = false := by
  unfold paren?
  split
  · simp_all
  · split <;> simp_all

/-- A parenthesis is a delimiter. -/
theorem paren?_eq_none_of_kind {t : Token} (h : t.kind ≠ .delimiter) :
    t.paren? = none := by
  simp [paren?, isOpening, isClosing, h]

theorem text_of_isOpening {t : Token} (h : t.isOpening = true) :
    t.text = ['('] := by
  simp only [isOpening, Bool.and_eq_true, beq_iff_eq] at h
  exact h.2

theorem text_of_isClosing {t : Token} (h : t.isClosing = true) :
    t.text = [')'] := by
  simp only [isClosing, Bool.and_eq_true, beq_iff_eq] at h
  exact h.2

theorem kind_of_isOpening {t : Token} (h : t.isOpening = true) :
    t.kind = .delimiter := by
  simp only [isOpening, Bool.and_eq_true, beq_iff_eq] at h
  exact h.1

theorem kind_of_isClosing {t : Token} (h : t.isClosing = true) :
    t.kind = .delimiter := by
  simp only [isClosing, Bool.and_eq_true, beq_iff_eq] at h
  exact h.1

theorem isOpening_of_isClosing {t : Token} (h : t.isClosing = true) :
    t.isOpening = false := by
  rw [← paren?_eq_closing] at h
  cases ho : t.isOpening with
  | false => rfl
  | true =>
      rw [paren?_eq_opening.2 ho] at h
      cases h

theorem isClosing_of_isOpening {t : Token} (h : t.isOpening = true) :
    t.isClosing = false := by
  cases hc : t.isClosing with
  | false => rfl
  | true =>
      rw [isOpening_of_isClosing hc] at h
      cases h

-- ========================================================== the relation

/-- The group that starts with a token and goes on with others. -/
def grouped (t : Token) (ts : List Token) : Token :=
  ⟨.group, t.text ++ content ts, t.offset⟩

/-- How the group pass reads tokens, in which mode it does so. -/
inductive Grouped (mode : Mode) : List Token → List Token → Prop where
  | nil : Grouped mode [] []
  | plain {t : Token} {ts gs : List Token} (ho : t.isOpening = false)
      (hc : mode = .strict → t.isClosing = false) (h : Grouped mode ts gs) :
      Grouped mode (t :: ts) (t :: gs)
  | closed {o c : Token} {ts us gs : List Token} (ho : o.isOpening = true)
      (hts : level paren? 0 ts = some 0) (hc : c.isClosing = true)
      (h : Grouped mode us gs) :
      Grouped mode (o :: (ts ++ c :: us)) (grouped o (ts ++ [c]) :: gs)
  | opened {o : Token} {ts : List Token} {k : Nat} (hm : mode = .lenient)
      (ho : o.isOpening = true) (hts : level paren? 0 ts = some k) :
      Grouped mode (o :: ts) [grouped o ts]

/-- No text is lost. -/
theorem content_grouped {mode : Mode} {ts gs : List Token}
    (h : Grouped mode ts gs) : content gs = content ts := by
  induction h with
  | nil => rfl
  | plain ho hc h ih => rw [content_cons, content_cons, ih]
  | closed ho hts hc h ih => simp [grouped, ih]
  | opened hm ho hts => simp [grouped]

/-- A tiling stays one. -/
theorem tiles_grouped {mode : Mode} {base : Nat} {ts gs : List Token}
    (h : Grouped mode ts gs) (hts : Tiles base ts) : Tiles base gs := by
  induction h generalizing base with
  | nil => trivial
  | plain ho hc h ih => exact ⟨hts.1, ih hts.2⟩
  | @closed o c ts us gs ho _ hc h ih =>
      have hsplit : o :: (ts ++ c :: us) = (o :: (ts ++ [c])) ++ us := by
        simp
      have hstart := hts.1
      rw [hsplit, tiles_append] at hts
      refine ⟨hstart, ?_⟩
      rw [← hstart] at hts
      exact ih hts.2
  | opened hm ho _ => exact ⟨hts.1, trivial⟩

-- =============================================================== the pass

/-- Inside a group a token that leaves the group open is absorbed. -/
theorem joinGroups_inside {d e : Nat} {t : Token}
    (h : level paren? d [t] = some e) (mode : Mode) (g : Token)
    (ts : List Token) :
    joinGroups mode (some (d, g)) (t :: ts)
      = joinGroups mode (some (e, g.absorb t)) ts := by
  cases ht : t.paren? with
  | none =>
      rw [level_cons_none ht] at h
      obtain rfl : d = e := by simpa using h
      obtain ⟨ho, hc⟩ := paren?_eq_none.1 ht
      simp [joinGroups, ho, hc]
  | some p =>
      cases p with
      | opening =>
          rw [level_cons_opening ht] at h
          obtain rfl : d + 1 = e := by simpa using h
          have ho := paren?_eq_opening.1 ht
          simp [joinGroups, ho]
      | closing =>
          have hc := paren?_eq_closing.1 ht
          have ho := isOpening_of_isClosing hc
          cases d with
          | zero =>
              rw [level_zero_cons_closing ht] at h
              cases h
          | succ d =>
              rw [level_cons_closing ht] at h
              obtain rfl : d = e := by simpa using h
              simp [joinGroups, ho, hc]

/-- Inside a group tokens that leave the group open are absorbed. -/
theorem joinGroups_append {d e : Nat} {ts : List Token}
    (h : level paren? d ts = some e) (mode : Mode) (g : Token)
    (us : List Token) :
    joinGroups mode (some (d, g)) (ts ++ us)
      = joinGroups mode
          (some (e, { g with text := g.text ++ content ts })) us := by
  induction ts generalizing d g with
  | nil =>
      obtain rfl : d = e := by simpa using h
      simp
  | cons t ts ih =>
      obtain ⟨d', ht, hts⟩ := level_cons_eq_some.1 h
      rw [List.cons_append, joinGroups_inside ht, ih hts]
      simp [absorb]

/-- An opening parenthesis starts a group. -/
theorem joinGroups_start {t : Token} (h : t.isOpening = true) (mode : Mode)
    (ts : List Token) :
    joinGroups mode none (t :: ts)
      = joinGroups mode (some (0, { t with kind := .group })) ts := by
  simp [joinGroups, h, isClosing_of_isOpening h]

/-- The closing parenthesis of a group ends it. -/
theorem joinGroups_close {t : Token} (h : t.isClosing = true) (mode : Mode)
    (g : Token) (ts : List Token) :
    joinGroups mode (some (0, g)) (t :: ts)
      = (do let rest ← joinGroups mode none ts
            return g.absorb t :: rest) := by
  simp [joinGroups, h, isOpening_of_isClosing h]

private theorem bind_cons_eq_ok {e : Except QueryError (List Token)}
    {t : Token} {gs : List Token} :
    (do let rest ← e; return t :: rest) = .ok gs
      ↔ ∃ rest, e = .ok rest ∧ gs = t :: rest := by
  cases e with
  | error e => simp [bind, Except.bind]
  | ok rest =>
      simp [bind, Except.bind, pure, Except.pure, eq_comm]

/-- The pass computes the relation. -/
theorem joinGroups_of_grouped {mode : Mode} {ts gs : List Token}
    (h : Grouped mode ts gs) : joinGroups mode none ts = .ok gs := by
  induction h with
  | nil => rfl
  | @plain t ts gs ho hc h ih =>
      have hc' : (t.isClosing && mode == .strict) = false := by
        cases mode with
        | strict => simp [hc rfl]
        | lenient => simp
      rw [joinGroups, if_neg (by simp [hc']), if_neg (by simp [ho])]
      exact bind_cons_eq_ok.2 ⟨gs, ih, rfl⟩
  | @closed o c ts us gs ho hts hc h ih =>
      rw [joinGroups_start ho, joinGroups_append hts, joinGroups_close hc]
      exact bind_cons_eq_ok.2 ⟨gs, ih, by simp [grouped, absorb]⟩
  | @opened o ts k hm ho hts =>
      subst hm
      rw [joinGroups_start ho, ← List.append_nil ts, joinGroups_append hts]
      simp [joinGroups, grouped]

/-- Whatever the pass puts out stands in the relation. -/
theorem grouped_of_joinGroups {mode : Mode} {ts gs : List Token}
    (h : joinGroups mode none ts = .ok gs) : Grouped mode ts gs := by
  -- A group takes many tokens at once, so the induction is on how many there
  -- are.
  induction hn : ts.length using Nat.strongRecOn generalizing ts gs with
  | _ n ih =>
      subst hn
      cases ts with
      | nil =>
          obtain rfl : [] = gs := Except.ok.inj h
          exact .nil
      | cons t ts =>
          cases ho : t.isOpening with
          | false =>
              unfold joinGroups at h
              split at h
              · cases h
              · rename_i hc
                rw [if_neg (by simp [ho])] at h
                obtain ⟨gs, hgs, rfl⟩ := bind_cons_eq_ok.1 h
                refine .plain ho (fun hm => ?_) (ih _ (by simp) hgs rfl)
                simpa [hm] using hc
          | true =>
              rw [joinGroups_start ho] at h
              rcases exists_closing_or_inside paren? ts
                with ⟨us, c, vs, rfl, hus, hc⟩ | ⟨k, hk⟩
              · have hc' := paren?_eq_closing.1 hc
                rw [joinGroups_append hus, joinGroups_close hc'] at h
                obtain ⟨gs, hgs, rfl⟩ := bind_cons_eq_ok.1 h
                have hvs := ih vs.length (by simp; omega) hgs rfl
                simpa [grouped, absorb] using Grouped.closed ho hus hc' hvs
              · rw [← List.append_nil ts, joinGroups_append hk] at h
                cases mode with
                | strict => cases h
                | lenient =>
                    obtain rfl := Except.ok.inj h
                    exact .opened rfl ho hk

/-- Where the pass has a result: where no more is closed than open, and in
strict mode nothing is left open. -/
theorem exists_grouped {mode : Mode} {ts : List Token} {k : Nat}
    (h : level paren? 0 ts = some k) (hk : k = 0 ∨ mode = .lenient) :
    ∃ gs, Grouped mode ts gs := by
  induction hn : ts.length using Nat.strongRecOn generalizing ts k with
  | _ n ih =>
      subst hn
      cases ts with
      | nil => exact ⟨[], .nil⟩
      | cons t ts =>
          cases ht : t.paren? with
          | none =>
              rw [level_cons_none ht] at h
              obtain ⟨ho, hc⟩ := paren?_eq_none.1 ht
              obtain ⟨gs, hgs⟩ := ih ts.length (by simp) h hk rfl
              exact ⟨t :: gs, .plain ho (fun _ => hc) hgs⟩
          | some p =>
              cases p with
              | closing =>
                  rw [level_zero_cons_closing ht] at h
                  cases h
              | opening =>
                  have ho := paren?_eq_opening.1 ht
                  rw [level_cons_opening ht] at h
                  rcases exists_closing_or_inside paren? ts
                    with ⟨us, c, vs, rfl, hus, hc⟩ | ⟨e, he⟩
                  · rw [level_append, level_add hus 1] at h
                    rw [Option.bind_some] at h
                    rw [level_cons_closing hc] at h
                    obtain ⟨gs, hgs⟩ :=
                      ih vs.length (by simp; omega) h hk rfl
                    exact ⟨_, .closed ho hus (paren?_eq_closing.1 hc) hgs⟩
                  · rw [level_add he 1] at h
                    obtain rfl := Option.some.inj h
                    have hm := hk.resolve_left (Nat.succ_ne_zero e)
                    exact ⟨_, .opened hm ho he⟩

/-- In strict mode it has one on balanced tokens. -/
theorem exists_grouped_strict {ts : List Token}
    (h : level paren? 0 ts = some 0) : ∃ gs, Grouped .strict ts gs :=
  exists_grouped h (Or.inl rfl)

end Token
end FilterQuery
