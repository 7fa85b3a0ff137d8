/-
Which queries the strict tokenizer refuses, and what it points at. The
second side is a reader with two counters. `unquoted` finds the quote that
is left open and the parentheses outside quotes; `unmatched` goes through
those and keeps the depth and the place where it last rose from zero.

The quote pass ends before the group pass starts, so an open quote is
reported whatever the parentheses are. The group pass agrees with
`unmatched` state by state (`refusal_joinGroups`): while it reads a group,
it is at the depth of that group, and the group started where the depth
rose from zero.
-/
import FilterQuery.Proofs.Refusal
import FilterQuery.Proofs.Token.Unquoted

namespace FilterQuery

open Nesting

-- ============================================================ the counter

/-- The offset of the parenthesis to blame, from a depth on: the first
closing one that is met at depth zero, or else, where the depth does not
come back to zero, the last opening one that raised it from there.
`raised` is the offset of the one that did so most recently. -/
def unmatched : Nat → Nat → List (Nat × Paren) → Option Nat
  | 0, _, [] => none
  | _ + 1, raised, [] => some raised
  | 0, _, (pos, .opening) :: ps => unmatched 1 pos ps
  | depth + 1, raised, (_, .opening) :: ps => unmatched (depth + 2) raised ps
  | 0, _, (pos, .closing) :: _ => some pos
  | depth + 1, raised, (_, .closing) :: ps => unmatched depth raised ps

/-- None is to blame exactly where everything opened is closed, and nothing
else is. -/
theorem unmatched_eq_none_iff (depth raised : Nat)
    (ps : List (Nat × Paren)) :
    unmatched depth raised ps = none ↔ level side? depth ps = some 0 := by
  fun_induction unmatched depth raised ps with
  | case1 => simp
  | case2 => simp
  | case3 raised pos ps ih => exact ih
  | case4 depth raised pos ps ih => exact ih
  | case5 raised pos ps => simp [level, side?]
  | case6 depth raised pos ps ih => exact ih

-- ========================================================= the two passes

namespace Token

/-- The depth at which the group pass is. -/
def groupDepth : Option (Nat × Token) → Nat
  | none => 0
  | some (depth, _) => depth + 1

/-- Where the group that is being read starts. Outside groups any offset
will do. -/
def StartsAt (pos : Nat) : Option (Nat × Token) → Prop
  | none => True
  | some (_, opened) => opened.offset = pos

theorem startsAt_none (pos : Nat) : StartsAt pos none := trivial

/-- The group pass refuses the parenthesis to blame in strict mode, and
nothing else. -/
theorem refusal_joinGroups {mode : Mode} {st : Option (Nat × Token)}
    {raised : Nat} (hst : StartsAt raised st) (ts : List Token) :
    refusal (joinGroups mode st ts)
      = match mode with
        | .strict =>
            (unmatched (groupDepth st) raised (parens ts)).map
              .unbalancedParenthesis
        | .lenient => none := by
  induction ts generalizing st raised with
  | nil =>
      obtain _ | ⟨depth, opened⟩ := st
      · cases mode <;> rfl
      · obtain rfl : opened.offset = raised := hst
        cases mode <;> rfl
  | cons t ts ih =>
      rw [parens_cons]
      cases ht : t.paren? with
      | none =>
          obtain ⟨ho, hc⟩ := paren?_eq_none.1 ht
          obtain _ | ⟨depth, opened⟩ := st
          · rw [joinGroups, if_neg (by simp [hc]), if_neg (by simp [ho]),
              refusal_map]
            exact ih hst
          · rw [joinGroups_inside (level_cons_none ht depth [])]
            exact ih hst
      | some p =>
          cases p with
          | opening =>
              have ho := paren?_eq_opening.1 ht
              obtain _ | ⟨depth, opened⟩ := st
              · rw [joinGroups_start ho]
                exact ih rfl
              · rw [joinGroups_inside (level_cons_opening ht depth [])]
                exact ih hst
          | closing =>
              have hc := paren?_eq_closing.1 ht
              -- A closing parenthesis closes nothing, the group itself, or
              -- one in it.
              obtain _ | ⟨_ | depth, opened⟩ := st
              · cases mode with
                | strict => simp [joinGroups, hc, groupDepth, unmatched]
                | lenient =>
                    have ho := isOpening_of_isClosing hc
                    rw [joinGroups, if_neg (by simp), if_neg (by simp [ho]),
                      refusal_map]
                    exact ih hst
              · rw [joinGroups_close hc, refusal_map]
                exact ih (startsAt_none raised)
              · rw [joinGroups_inside (level_cons_closing ht depth [])]
                exact ih hst

/-- What a text is refused for in strict mode: the quote that it leaves
open, or else the parenthesis to blame. -/
def fault? (base : Nat) (text : Text) : Option QueryError :=
  match unquoted none base text with
  | (_, some (quote, start)) => some (.unterminatedQuote quote start)
  | (ps, none) => (unmatched 0 0 ps).map .unbalancedParenthesis

theorem refusal_tokenizeAt (base : Nat) (text : Text) :
    refusal (tokenizeAt .strict base text) = fault? base text := by
  rcases h : lexed base text with ⟨ts, last⟩
  unfold fault?
  rw [tokenizeAt_eq, ungrouped_eq, h, unquoted_lexed h]
  obtain _ | ⟨quote, opened⟩ := last
  · exact refusal_joinGroups (startsAt_none 0) ts
  · rfl

/-- A query is refused for the quote that it leaves open, if it leaves one
open, wherever its parentheses are. Otherwise it is refused if and only if
its parentheses outside quotes are not balanced, for the first closing one
at depth zero or else for the one that starts the group left open. And
otherwise it has tokens. -/
theorem tokenize_strict_cases (query : Text) :
    let (ps, quote) := unquoted none 0 query
    (∀ mark offset,
      tokenize .strict query = .error (.unterminatedQuote mark offset)
        ↔ quote = some (mark, offset))
    ∧ (∀ offset,
      tokenize .strict query = .error (.unbalancedParenthesis offset)
        ↔ quote = none ∧ unmatched 0 0 ps = some offset)
    ∧ ((∃ offset,
        tokenize .strict query = .error (.unbalancedParenthesis offset))
        ↔ quote = none ∧ ¬Balanced side? ps)
    ∧ ((∃ ts, tokenize .strict query = .ok ts)
        ↔ quote = none ∧ Balanced side? ps) := by
  have hrefusal : refusal (tokenize .strict query) = fault? 0 query :=
    refusal_tokenizeAt 0 query
  unfold fault? at hrefusal
  generalize unquoted none 0 query = out at hrefusal
  obtain ⟨ps, quote⟩ := out
  simp only [← refusal_eq_some_iff, ← refusal_eq_none_iff, hrefusal]
  have hbalanced : Balanced side? ps ↔ unmatched 0 0 ps = none :=
    (unmatched_eq_none_iff 0 0 ps).symm
  obtain _ | ⟨mark, start⟩ := quote
  · rw [hbalanced]
    cases hblame : unmatched 0 0 ps <;> simp [hblame]
  · simp

end Token
end FilterQuery
