/-
Nesting depth, for anything that may stand for a parenthesis: tokens of a
query, the symbols of a tree, the lexemes of an SQL text. The kind of item
comes in as a function that says which items are parentheses.

`level d xs` is the depth after reading `xs` from depth `d`, and nothing at
all where a closing parenthesis is met at depth zero. A list is balanced
when it leads from depth zero back to depth zero. The fact that all
reading of groups rests on is `eq_of_level_zero`: a closing parenthesis
can be matched in one way only.
-/
import FilterQuery.Proofs.Lists
import FilterQuery.Text

namespace FilterQuery

/-- A side of a pair of parentheses. -/
inductive Paren where
  | opening
  | closing
  deriving DecidableEq, Repr

namespace Nesting

variable {α β : Type} (paren : α → Option Paren)

/-- The depth after a list that starts at depth `d`; none, where more is
closed than is open. -/
def level : Nat → List α → Option Nat
  | d, [] => some d
  | d, x :: xs =>
      match paren x, d with
      | none, d => level d xs
      | some .opening, d => level (d + 1) xs
      | some .closing, 0 => none
      | some .closing, d + 1 => level d xs

/-- Everything opened is closed, and nothing else is. -/
def Balanced (xs : List α) : Prop := level paren 0 xs = some 0

variable {paren}

-- ============================================================== one item

@[simp] theorem level_nil (d : Nat) : level paren d [] = some d := rfl

theorem level_cons_none {x : α} (h : paren x = none) (d : Nat)
    (xs : List α) : level paren d (x :: xs) = level paren d xs := by
  simp [level, h]

theorem level_cons_opening {x : α} (h : paren x = some .opening) (d : Nat)
    (xs : List α) : level paren d (x :: xs) = level paren (d + 1) xs := by
  simp [level, h]

theorem level_cons_closing {x : α} (h : paren x = some .closing) (d : Nat)
    (xs : List α) : level paren (d + 1) (x :: xs) = level paren d xs := by
  simp [level, h]

theorem level_zero_cons_closing {x : α} (h : paren x = some .closing)
    (xs : List α) : level paren 0 (x :: xs) = none := by
  simp [level, h]

-- ================================================================= lists

/-- Behind a part of a list the depth goes on from where the part leads. -/
theorem level_append (d : Nat) (xs ys : List α) :
    level paren d (xs ++ ys)
      = (level paren d xs).bind fun e => level paren e ys := by
  induction xs generalizing d with
  | nil => rfl
  | cons x xs ih =>
      cases hx : paren x with
      | none =>
          rw [List.cons_append, level_cons_none hx, level_cons_none hx, ih]
      | some p =>
          cases p with
          | opening =>
              rw [List.cons_append, level_cons_opening hx,
                level_cons_opening hx, ih]
          | closing =>
              cases d with
              | zero =>
                  rw [List.cons_append, level_zero_cons_closing hx,
                    level_zero_cons_closing hx]
                  rfl
              | succ d =>
                  rw [List.cons_append, level_cons_closing hx,
                    level_cons_closing hx, ih]

/-- A final closing parenthesis takes one off the depth. -/
theorem level_concat_closing {d k : Nat} {xs : List α} {c : α}
    (hc : paren c = some .closing) :
    level paren d (xs ++ [c]) = some k ↔ level paren d xs = some (k + 1) := by
  rw [level_append]
  cases level paren d xs with
  | none => simp
  | some e =>
      rw [Option.bind_some]
      cases e with
      | zero => simp [level_zero_cons_closing hc]
      | succ e => simp [level_cons_closing hc]

/-- Reading a list goes item by item. -/
theorem level_cons (d : Nat) (x : α) (xs : List α) :
    level paren d (x :: xs)
      = (level paren d [x]).bind fun e => level paren e xs := by
  rw [← List.singleton_append, level_append]

/-- One item at a time. -/
theorem level_cons_eq_some {d k : Nat} {x : α} {xs : List α} :
    level paren d (x :: xs) = some k
      ↔ ∃ e, level paren d [x] = some e ∧ level paren e xs = some k := by
  rw [level_cons, Option.bind_eq_some_iff]

/-- What is read within open parentheses does not see how many there
are. -/
theorem level_add {d e : Nat} {xs : List α} (h : level paren d xs = some e)
    (k : Nat) : level paren (d + k) xs = some (e + k) := by
  induction xs generalizing d with
  | nil =>
      obtain rfl : d = e := by simpa using h
      rfl
  | cons x xs ih =>
      cases hx : paren x with
      | none =>
          rw [level_cons_none hx] at h ⊢
          exact ih h
      | some p =>
          cases p with
          | opening =>
              rw [level_cons_opening hx] at h ⊢
              rw [Nat.add_right_comm]
              exact ih h
          | closing =>
              cases d with
              | zero =>
                  rw [level_zero_cons_closing hx] at h
                  cases h
              | succ d =>
                  rw [level_cons_closing hx] at h
                  rw [Nat.add_right_comm, level_cons_closing hx]
                  exact ih h

/-- Items that stand for others are as deep as they are. -/
theorem level_map (f : β → α) (d : Nat) (xs : List β) :
    level paren d (xs.map f) = level (paren ∘ f) d xs := by
  induction xs generalizing d with
  | nil => rfl
  | cons x xs ih =>
      rw [List.map_cons]
      unfold level
      simp only [ih, Function.comp_apply]

/-- Items that are no parentheses may be left out. -/
theorem level_filter {keep : α → Bool} (d : Nat) (xs : List α)
    (h : ∀ x ∈ xs, keep x = false → paren x = none) :
    level paren d (xs.filter keep) = level paren d xs := by
  induction xs generalizing d with
  | nil => rfl
  | cons x xs ih =>
      have hrest := fun y hy => h y (List.mem_cons_of_mem _ hy)
      cases hkeep : keep x with
      | true =>
          rw [List.filter_cons_of_pos hkeep]
          unfold level
          simp only [fun d => ih d hrest]
      | false =>
          rw [List.filter_cons_of_neg (by simp [hkeep]), ih d hrest,
            level_cons_none (h x (List.mem_cons_self ..) hkeep)]

/-- Closing parentheses only: each takes one off the depth. -/
theorem level_replicate_closing {c : α} (h : paren c = some .closing)
    (d k : Nat) :
    level paren (d + k) (List.replicate k c) = some d := by
  induction k with
  | zero => rfl
  | succ k ih =>
      rw [List.replicate_succ, ← Nat.add_assoc, level_cons_closing h]
      exact ih

-- ============================================================== matching

/-- A closing parenthesis that ends a balanced stretch is found in one
place only. -/
theorem eq_of_level_zero {d : Nat} {xs ys us vs : List α} {c c' : α}
    (hc : paren c = some .closing) (hc' : paren c' = some .closing)
    (hxs : level paren d xs = some 0) (hys : level paren d ys = some 0)
    (h : xs ++ c :: us = ys ++ c' :: vs) : xs = ys := by
  induction xs generalizing d ys with
  | nil =>
      obtain rfl : d = 0 := by simpa using hxs
      cases ys with
      | nil => rfl
      | cons y ys =>
          obtain ⟨rfl, -⟩ := List.cons.inj h
          rw [level_zero_cons_closing hc] at hys
          cases hys
  | cons x xs ih =>
      cases ys with
      | nil =>
          obtain rfl : d = 0 := by simpa using hys
          obtain ⟨rfl, -⟩ := List.cons.inj h
          rw [level_zero_cons_closing hc'] at hxs
          cases hxs
      | cons y ys =>
          obtain ⟨rfl, hrest⟩ := List.cons.inj h
          congr 1
          cases hx : paren x with
          | none =>
              rw [level_cons_none hx] at hxs hys
              exact ih hxs hys hrest
          | some p =>
              cases p with
              | opening =>
                  rw [level_cons_opening hx] at hxs hys
                  exact ih hxs hys hrest
              | closing =>
                  -- At depth zero neither list goes on behind a closing item.
                  cases d with
                  | zero =>
                      rw [level_zero_cons_closing hx] at hxs
                      cases hxs
                  | succ d =>
                      rw [level_cons_closing hx] at hxs hys
                      exact ih hxs hys hrest

/-- From within `d + 1` open parentheses a list either reaches the closing
one of the innermost, or stays inside to its end. -/
theorem exists_closing_or_inside (paren : α → Option Paren)
    (xs : List α) :
    (∃ ys c zs, xs = ys ++ c :: zs ∧ level paren 0 ys = some 0
        ∧ paren c = some .closing)
      ∨ ∃ k, level paren 0 xs = some k := by
  suffices h : ∀ d : Nat,
      (∃ ys c zs, xs = ys ++ c :: zs ∧ level paren d ys = some 0
          ∧ paren c = some .closing)
        ∨ ∃ k, level paren d xs = some k from h 0
  induction xs with
  | nil => exact fun d => Or.inr ⟨d, rfl⟩
  | cons x xs ih =>
      intro d
      have lift : ∀ e, (∀ zs, level paren d (x :: zs) = level paren e zs) →
          (∃ ys c zs, x :: xs = ys ++ c :: zs ∧ level paren d ys = some 0
              ∧ paren c = some .closing)
            ∨ ∃ k, level paren d (x :: xs) = some k := by
        intro e he
        rcases ih e with ⟨ys, c, zs, rfl, hys, hc⟩ | ⟨k, hk⟩
        · exact Or.inl ⟨x :: ys, c, zs, rfl, (he ys).trans hys, hc⟩
        · exact Or.inr ⟨k, (he xs).trans hk⟩
      cases hx : paren x with
      | none => exact lift d (level_cons_none hx d)
      | some p =>
          cases p with
          | opening => exact lift (d + 1) (level_cons_opening hx d)
          | closing =>
              cases d with
              | zero => exact Or.inl ⟨[], x, xs, rfl, rfl, hx⟩
              | succ d => exact lift d (level_cons_closing hx d)

end Nesting
end FilterQuery
