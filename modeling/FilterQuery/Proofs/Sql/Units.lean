/-
The units of a lexed condition: what stands between the words `AND` and
`OR` outside parentheses. `cut` finds them in any list of lexemes, with no
knowledge of what was compiled. A unit is `Whole`: it is balanced and has
no such word at depth zero, so cutting ends it where it ends and nowhere
before (`cut_append`).
-/
import FilterQuery.Operator
import FilterQuery.Proofs.Nesting
import FilterQuery.Proofs.Sql.Lexer

namespace FilterQuery
namespace Sql

open Nesting

/-- The bind operator that a word is, in any case of letters. -/
def bindOf (w : Text) : Option Operator :=
  if w.upper = "AND".toList then some .and
  else if w.upper = "OR".toList then some .or
  else none

namespace Lexeme

/-- The parenthesis that a lexeme is. One in a quoted text is none. -/
def paren? : Lexeme → Option Paren
  | opening => some .opening
  | closing => some .closing
  | quoted .. | word _ | symbol _ => none

/-- The bind operator that a lexeme is at a depth. Within parentheses it
is none, and in a quoted text neither. -/
def bind? : Nat → Lexeme → Option Operator
  | 0, word w => bindOf w
  | _, _ => none

/-- The depth behind a lexeme. -/
def depthAfter (depth : Nat) : Lexeme → Nat
  | opening => depth + 1
  | closing => depth - 1
  | quoted .. | word _ | symbol _ => depth

private theorem depthAfter_of_level {d e : Nat} {l : Lexeme}
    (h : level paren? d [l] = some e) : l.depthAfter d = e := by
  cases l with
  | opening => exact Option.some.inj h
  | closing =>
      cases d with
      | zero => cases h
      | succ d => exact Option.some.inj h
  | quoted q text => exact Option.some.inj h
  | word w => exact Option.some.inj h
  | symbol s => exact Option.some.inj h

end Lexeme

/-- Lexemes cut at the bind words outside parentheses: the first unit, and
each further one with the operator before it. -/
def cut : Nat → List Lexeme → List Lexeme × List (Operator × List Lexeme)
  | _, [] => ([], [])
  | depth, l :: ls =>
      let (u, us) := cut (l.depthAfter depth) ls
      match l.bind? depth with
      | some op => ([], (op, u) :: us)
      | none => (l :: u, us)

/-- The depth behind lexemes; none, if they close more than is open or
hold a bind word outside parentheses. -/
def depthWhole : Nat → List Lexeme → Option Nat
  | depth, [] => some depth
  | depth, l :: ls =>
      match l.bind? depth with
      | some _ => none
      | none => (level Lexeme.paren? depth [l]).bind fun e => depthWhole e ls

/-- Lexemes that are one unit. -/
def Whole (ls : List Lexeme) : Prop := depthWhole 0 ls = some 0

theorem depthWhole_cons_eq_some {d e : Nat} {l : Lexeme}
    {ls : List Lexeme} :
    depthWhole d (l :: ls) = some e
      ↔ l.bind? d = none ∧ ∃ k, level Lexeme.paren? d [l] = some k
          ∧ depthWhole k ls = some e := by
  rw [depthWhole]
  cases l.bind? d with
  | none => simp [Option.bind_eq_some_iff]
  | some op => simp

theorem depthWhole_append {d e : Nat} {xs ys : List Lexeme}
    (h : depthWhole d xs = some e) :
    depthWhole d (xs ++ ys) = depthWhole e ys := by
  induction xs generalizing d with
  | nil =>
      obtain rfl := Option.some.inj h
      rfl
  | cons x xs ih =>
      obtain ⟨hbind, k, hk, hxs⟩ := depthWhole_cons_eq_some.1 h
      rw [List.cons_append, depthWhole, hbind]
      simp only [hk, Option.bind_some]
      exact ih hxs

/-- Whole lexemes are balanced. -/
theorem level_of_depthWhole {d e : Nat} {xs : List Lexeme}
    (h : depthWhole d xs = some e) : level Lexeme.paren? d xs = some e := by
  induction xs generalizing d with
  | nil => exact h
  | cons x xs ih =>
      obtain ⟨-, k, hk, hxs⟩ := depthWhole_cons_eq_some.1 h
      exact level_cons_eq_some.2 ⟨k, hk, ih hxs⟩

/-- Within parentheses whatever is balanced is whole. -/
theorem depthWhole_of_level {d e : Nat} {xs : List Lexeme}
    (h : level Lexeme.paren? d xs = some e) :
    depthWhole (d + 1) xs = some (e + 1) := by
  induction xs generalizing d with
  | nil =>
      obtain rfl := Option.some.inj h
      rfl
  | cons x xs ih =>
      obtain ⟨k, hk, hxs⟩ := level_cons_eq_some.1 h
      exact depthWhole_cons_eq_some.2
        ⟨by cases x <;> rfl, k + 1, level_add hk 1, ih hxs⟩

/-- Balanced lexemes in parentheses are one unit. -/
theorem whole_enclosed {ls : List Lexeme}
    (h : Nesting.Balanced Lexeme.paren? ls) :
    Whole (.opening :: ls ++ [.closing]) := by
  have hinner : depthWhole 1 ls = some 1 := depthWhole_of_level h
  show depthWhole 0 (.opening :: (ls ++ [.closing])) = some 0
  refine depthWhole_cons_eq_some.2 ⟨rfl, 1, rfl, ?_⟩
  rw [depthWhole_append hinner]
  rfl

/-- Whole lexemes are cut nowhere. -/
theorem cut_append {d e : Nat} {xs : List Lexeme}
    (h : depthWhole d xs = some e) (ys : List Lexeme) :
    cut d (xs ++ ys) = (xs ++ (cut e ys).1, (cut e ys).2) := by
  induction xs generalizing d with
  | nil =>
      obtain rfl := Option.some.inj h
      rfl
  | cons x xs ih =>
      obtain ⟨hbind, k, hk, hxs⟩ := depthWhole_cons_eq_some.1 h
      rw [List.cons_append, cut, hbind, Lexeme.depthAfter_of_level hk,
        ih hxs]
      rfl

theorem cut_whole {u : List Lexeme} (h : Whole u) : cut 0 u = (u, []) := by
  have hcut := cut_append h []
  simpa [cut] using hcut

/-- A unit, a bind word, and the rest. -/
theorem cut_whole_append {u : List Lexeme} {w : Text} {op : Operator}
    (h : Whole u) (hw : bindOf w = some op) (ls : List Lexeme) :
    cut 0 (u ++ .word w :: ls) = (u, (op, (cut 0 ls).1) :: (cut 0 ls).2) := by
  rw [cut_append h]
  have hbind : (Lexeme.word w).bind? 0 = some op := hw
  simp only [cut, hbind, Lexeme.depthAfter, List.append_nil]

theorem balanced_append {xs ys : List Lexeme}
    (hxs : Nesting.Balanced Lexeme.paren? xs)
    (hys : Nesting.Balanced Lexeme.paren? ys) :
    Nesting.Balanced Lexeme.paren? (xs ++ ys) := by
  unfold Nesting.Balanced at *
  rw [level_append, hxs]
  exact hys

end Sql
end FilterQuery
