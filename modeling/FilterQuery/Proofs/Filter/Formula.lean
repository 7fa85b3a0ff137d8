/-
How a row of parts is read as a condition of SQL: a leaf is an atom, the
condition that is never met is false, parentheses group, and `AND` binds
tighter than `OR`. `Reads` is that grammar in three ranks, and it is not
ambiguous (`Reads.unique`).

The reason is where the bind operators stand. Outside parentheses a factor
has none and a conjunction has no `OR` (`Reads.allows`), so a disjunction
can only be cut at its first `OR` and a conjunction only at its last
`AND`; a cut anywhere else would leave a part with an operator that its
rank does not admit.
-/
import FilterQuery.Proofs.Filter.Layout

namespace FilterQuery

open Nesting

/-- A condition of SQL over atoms. -/
inductive Formula where
  | atom (l : Leaf)
  /-- The condition that is never met. -/
  | never
  | and (φ ψ : Formula)
  | or (φ ψ : Formula)
  deriving DecidableEq, Repr

namespace Formula

/-- The atoms of a formula, from left to right. -/
def atoms : Formula → List Leaf
  | atom l => [l]
  | never => []
  | and φ ψ | or φ ψ => atoms φ ++ atoms ψ

/-- The truth value of a formula whose first atom is number `i`, when atom
number `k` has the value `v k`. So two atoms may differ in value even where
they are the same leaf. -/
def valueFrom (v : Nat → Bool) : Nat → Formula → Bool
  | i, atom _ => v i
  | _, never => false
  | i, and φ ψ => valueFrom v i φ && valueFrom v (i + φ.atoms.length) ψ
  | i, or φ ψ => valueFrom v i φ || valueFrom v (i + φ.atoms.length) ψ

/-- The truth value of a formula. -/
def value (v : Nat → Bool) (φ : Formula) : Bool := valueFrom v 0 φ

end Formula

-- ============================================================ the grammar

/-- What a stretch of parts is read as. -/
inductive Rank where
  /-- A leaf, the condition that is never met, or a disjunction in
  parentheses. -/
  | factor
  /-- Factors joined by `AND`. -/
  | conjunction
  /-- Conjunctions joined by `OR`. -/
  | disjunction
  deriving DecidableEq, Repr

/-- Parts are read as a formula. -/
inductive Reads : Rank → List Part → Formula → Prop where
  | leaf {l : Leaf} : Reads .factor [.leaf l] (.atom l)
  | never : Reads .factor [.never] .never
  | enclosed {xs : List Part} {φ : Formula} (h : Reads .disjunction xs φ) :
      Reads .factor (.opening :: (xs ++ [.closing])) φ
  | factor {xs : List Part} {φ : Formula} (h : Reads .factor xs φ) :
      Reads .conjunction xs φ
  | and {xs ys : List Part} {φ ψ : Formula} (hx : Reads .conjunction xs φ)
      (hy : Reads .factor ys ψ) :
      Reads .conjunction (xs ++ .bind .and :: ys) (.and φ ψ)
  | conjunction {xs : List Part} {φ : Formula}
      (h : Reads .conjunction xs φ) : Reads .disjunction xs φ
  | or {xs ys : List Part} {φ ψ : Formula} (hx : Reads .conjunction xs φ)
      (hy : Reads .disjunction ys ψ) :
      Reads .disjunction (xs ++ .bind .or :: ys) (.or φ ψ)

/-- The leaves among the parts are atoms of what is read. -/
theorem Reads.mem_atoms {r : Rank} {xs : List Part} {φ : Formula}
    (h : Reads r xs φ) {l : Leaf} (hl : .leaf l ∈ xs) : l ∈ φ.atoms := by
  induction h with
  | leaf =>
      obtain rfl := Part.leaf.inj (List.mem_singleton.1 hl)
      exact List.mem_singleton.2 rfl
  | never => cases List.mem_singleton.1 hl
  | enclosed h ih =>
      refine ih ?_
      simpa using hl
  | factor h ih => exact ih hl
  | conjunction h ih => exact ih hl
  | and hx hy ihx ihy | or hx hy ihx ihy =>
      rw [List.mem_append, List.mem_cons] at hl
      rcases hl with hl | hl | hl
      · exact List.mem_append_left _ (ihx hl)
      · cases hl
      · exact List.mem_append_right _ (ihy hl)

-- ============================================================ parentheses

namespace Part

/-- The parenthesis that a part is, if it is one. -/
def paren? : Part → Option Paren
  | opening => some .opening
  | closing => some .closing
  | leaf _ | never | bind _ => none

end Part

private theorem level_opening (d : Nat) (xs : List Part) :
    level Part.paren? d (.opening :: xs) = level Part.paren? (d + 1) xs :=
  rfl

/-- Behind balanced parts and a bind operator the depth is what the rest
makes it. -/
private theorem level_bind {xs : List Part}
    (h : level Part.paren? 0 xs = some 0) (op : Operator) (ys : List Part) :
    level Part.paren? 0 (xs ++ .bind op :: ys)
      = level Part.paren? 0 ys := by
  rw [level_append, h, Option.bind_some]
  exact level_cons_none rfl 0 ys

theorem Reads.balanced {r : Rank} {xs : List Part} {φ : Formula}
    (h : Reads r xs φ) : level Part.paren? 0 xs = some 0 := by
  induction h with
  | leaf => rfl
  | never => rfl
  | enclosed h ih =>
      rw [level_opening, level_append, level_add ih 1]
      rfl
  | factor h ih => exact ih
  | and hx hy ihx ihy => rw [level_bind ihx, ihy]
  | conjunction h ih => exact ih
  | or hx hy ihx ihy => rw [level_bind ihx, ihy]

-- ========================================================= bind operators

/-- The bind operators that a rank admits outside parentheses. -/
def Rank.allows : Rank → Operator → Bool
  | factor, _ => false
  | conjunction, op => op == .and
  | disjunction, _ => true

/-- Within parentheses no depth is zero again before the closing one. -/
theorem not_outside_enclosed {xs us vs : List Part} {op : Operator}
    (hxs : level Part.paren? 0 xs = some 0)
    (hus : level Part.paren? 0 us = some 0)
    (h : .opening :: (xs ++ [.closing]) = us ++ .bind op :: vs) : False := by
  cases us with
  | nil => cases (List.cons.inj h).1
  | cons u us =>
      obtain ⟨rfl, -⟩ := List.cons.inj h
      have hrest : xs ++ [.closing] = us ++ .bind op :: vs :=
        (List.cons.inj h).2
      rw [level_opening] at hus
      rcases Lists.append_cons_eq_append_cons hrest with ⟨-, hne, -⟩
        | ⟨zs, -, hnil⟩ | ⟨zs, rfl, -⟩
      · cases hne
      · exact absurd hnil (by simp)
      · rw [level_append] at hxs
        obtain ⟨k, hk, -⟩ := Option.bind_eq_some_iff.1 hxs
        rw [level_add hk 1] at hus
        exact absurd (Option.some.inj hus) (Nat.succ_ne_zero k)

/-- Outside parentheses a stretch has only bind operators of its rank. -/
theorem Reads.allows {r : Rank} {xs us vs : List Part} {φ : Formula}
    {op : Operator} (h : Reads r xs φ) (hxs : xs = us ++ .bind op :: vs)
    (hus : level Part.paren? 0 us = some 0) : r.allows op = true := by
  induction h generalizing us vs with
  | leaf => cases us <;> simp at hxs
  | never => cases us <;> simp at hxs
  | enclosed h ih => exact (not_outside_enclosed h.balanced hus hxs).elim
  | factor h ih => cases ih hxs hus
  | conjunction h ih => rfl
  | or hx hy ihx ihy => rfl
  | and hx hy ihx ihy =>
      rcases Lists.append_cons_eq_append_cons hxs with ⟨-, hop, -⟩
        | ⟨zs, rfl, rfl⟩ | ⟨zs, rfl, -⟩
      · obtain rfl := Part.bind.inj hop
        rfl
      · rw [level_bind hx.balanced] at hus
        cases ihy rfl hus
      · exact ihx rfl hus

/-- A conjunction is cut at its last `AND` only. -/
theorem Reads.cut_and {xs ys us vs : List Part} {φ φ' ψ ψ' : Formula}
    (hx : Reads .conjunction xs φ) (hy : Reads .factor ys ψ)
    (hu : Reads .conjunction us φ') (hv : Reads .factor vs ψ')
    (h : xs ++ .bind .and :: ys = us ++ .bind .and :: vs) :
    xs = us ∧ ys = vs := by
  rcases Lists.append_cons_eq_append_cons h with ⟨hxu, -, hyv⟩
    | ⟨zs, rfl, rfl⟩ | ⟨zs, rfl, rfl⟩
  · exact ⟨hxu, hyv⟩
  · have hzs := hu.balanced
    rw [level_bind hx.balanced] at hzs
    cases hy.allows rfl hzs
  · have hzs := hx.balanced
    rw [level_bind hu.balanced] at hzs
    cases hv.allows rfl hzs

/-- A disjunction is cut at its first `OR` only. -/
theorem Reads.cut_or {xs ys us vs : List Part} {φ φ' : Formula}
    (hx : Reads .conjunction xs φ) (hu : Reads .conjunction us φ')
    (h : xs ++ .bind .or :: ys = us ++ .bind .or :: vs) :
    xs = us ∧ ys = vs := by
  rcases Lists.append_cons_eq_append_cons h with ⟨hxu, -, hyv⟩
    | ⟨zs, rfl, -⟩ | ⟨zs, rfl, -⟩
  · exact ⟨hxu, hyv⟩
  · cases hu.allows rfl hx.balanced
  · cases hx.allows rfl hu.balanced

/-- Parts are read in one way only. -/
theorem Reads.unique {r : Rank} {xs : List Part} {φ ψ : Formula}
    (h : Reads r xs φ) (h' : Reads r xs ψ) : φ = ψ := by
  induction h generalizing ψ with
  | leaf => cases h' with
    | leaf => rfl
  | never => cases h' with
    | never => rfl
  | @enclosed xs φ h ih =>
      generalize hxs : Part.opening :: (xs ++ [.closing]) = zs at h'
      cases h' with
      | leaf => cases hxs
      | never => cases hxs
      | enclosed h' =>
          obtain ⟨-, hxs⟩ := List.cons.inj hxs
          obtain ⟨rfl, -⟩ := List.append_inj' hxs rfl
          exact ih h'
  | factor h ih =>
      cases h' with
      | factor h' => exact ih h'
      | and hx hy => cases h.allows rfl hx.balanced
  | @and xs ys φ₁ φ₂ hx hy ihx ihy =>
      generalize hxs : xs ++ .bind .and :: ys = zs at h'
      cases h' with
      | factor h' => cases h'.allows hxs.symm hx.balanced
      | and hu hv =>
          -- A factor has no operator outside of parentheses, so both readings
          -- cut at the last one.
          obtain ⟨rfl, rfl⟩ := hx.cut_and hy hu hv hxs
          rw [ihx hu, ihy hv]
  | conjunction h ih =>
      cases h' with
      | conjunction h' => exact ih h'
      | or hx hy => cases h.allows rfl hx.balanced
  | @or xs ys φ₁ φ₂ hx hy ihx ihy =>
      generalize hxs : xs ++ .bind .or :: ys = zs at h'
      cases h' with
      | conjunction h' => cases h'.allows hxs.symm hx.balanced
      | or hu hv =>
          -- A conjunction has no alternatives outside of parentheses, so both
          -- readings cut at the first ones.
          obtain ⟨rfl, rfl⟩ := hx.cut_or hu hxs
          rw [ihx hu, ihy hv]

end FilterQuery
