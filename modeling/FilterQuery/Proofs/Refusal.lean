/-
Refusals: the error that a computation ends with, if it ends with one. The
laws on which error wins are equations between such options, so that a
success needs no name for its result.

The causes fall into kinds by the layer that raises them. Cutting a query
into tokens raises the lexical ones, reading tokens as nodes the structural
ones, and looking up the names of a query the semantic ones.
-/
import FilterQuery.Error
import FilterQuery.Proofs.Lists

namespace FilterQuery

variable {α β : Type}

/-- Two computations in a row succeed just when both do, whatever it is that
they could be refused for. -/
theorem bind_eq_ok_iff {ε α β : Type} {r : Except ε α} {f : α → Except ε β}
    {b : β} : (r >>= f) = .ok b ↔ ∃ a, r = .ok a ∧ f a = .ok b := by
  cases r <;> simp [bind, Except.bind]

/-- So does a computation whose result is changed, with the changed one. -/
theorem map_eq_ok_iff {ε α β : Type} {r : Except ε α} {f : α → β} {b : β} :
    f <$> r = .ok b ↔ ∃ a, r = .ok a ∧ f a = b := by
  cases r <;> simp [Functor.map, Except.map]

/-- Computations for the items of a list succeed one after another. -/
theorem mapM_cons_eq_ok_iff {ε α β : Type} {f : α → Except ε β} {x : α}
    {xs : List α} {ys : List β} :
    (x :: xs).mapM f = .ok ys
      ↔ ∃ y zs, f x = .ok y ∧ xs.mapM f = .ok zs ∧ ys = y :: zs := by
  rw [List.mapM_cons, bind_eq_ok_iff]
  constructor
  · rintro ⟨y, hy, hrest⟩
    obtain ⟨zs, hzs, hys⟩ := bind_eq_ok_iff.1 hrest
    exact ⟨y, zs, hy, hzs, (Except.ok.inj hys).symm⟩
  · rintro ⟨y, zs, hy, hzs, rfl⟩
    exact ⟨y, hy, bind_eq_ok_iff.2 ⟨zs, hzs, rfl⟩⟩

/-- The error that a computation ends with. -/
def refusal : Except QueryError α → Option QueryError
  | .ok _ => none
  | .error e => some e

@[simp] theorem refusal_ok (a : α) : refusal (.ok a) = none := rfl

@[simp] theorem refusal_error (e : QueryError) :
    refusal (.error e : Except QueryError α) = some e := rfl

theorem refusal_eq_none_iff {r : Except QueryError α} :
    refusal r = none ↔ ∃ a, r = .ok a := by
  cases r <;> simp [refusal]

/-- The refusal is the error itself. -/
theorem refusal_eq_some_iff {r : Except QueryError α} {e : QueryError} :
    refusal r = some e ↔ r = .error e := by
  cases r <;> simp [refusal]

/-- Of two computations in a row the first refuses first, and then the
second, here for one cause whatever the first results in. -/
theorem refusal_bind {r : Except QueryError α}
    {f : α → Except QueryError β} {o : Option QueryError}
    (h : ∀ a, refusal (f a) = o) : refusal (r >>= f) = (refusal r).or o := by
  cases r with
  | error e => rfl
  | ok a => exact h a

/-- What is done with a result adds no refusal if it is a mere function. -/
theorem refusal_map (r : Except QueryError α) (f : α → β) :
    refusal (do let a ← r; return f a) = refusal r := by
  cases r <;> rfl

/-- Computations one after another are refused for the first that is. -/
theorem refusal_mapM (f : α → Except QueryError β) (xs : List α) :
    refusal (xs.mapM f) = xs.findSome? fun x => refusal (f x) := by
  induction xs with
  | nil => rfl
  | cons x xs ih =>
      have hrest : ∀ b, refusal (do let bs ← xs.mapM f; return b :: bs)
          = xs.findSome? fun y => refusal (f y) := by
        intro b
        rw [refusal_map, ih]
      rw [List.mapM_cons, refusal_bind hrest, Lists.findSome?_cons_eq_or]

namespace QueryError

/-- A quote or a parenthesis without its partner. -/
def isLexical : QueryError → Bool
  | unterminatedQuote .. | unbalancedParenthesis _ => true
  | _ => false

/-- A token that does not fit, or an end where more is needed. -/
def isStructural : QueryError → Bool
  | unexpectedToken .. | incomplete _ => true
  | _ => false

/-- A name that no field has, or an operator that a type does not admit. -/
def isSemantic : QueryError → Bool
  | unknownField _ | invalidOperator .. => true
  | _ => false

/-- The three kinds exclude each other. -/
theorem isLexical_of_isStructural {e : QueryError}
    (h : e.isStructural = true) : e.isLexical = false := by
  cases e <;> first | rfl | cases h

theorem isLexical_of_isSemantic {e : QueryError}
    (h : e.isSemantic = true) : e.isLexical = false := by
  cases e <;> first | rfl | cases h

end QueryError
end FilterQuery
