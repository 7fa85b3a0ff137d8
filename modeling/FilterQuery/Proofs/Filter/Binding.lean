/-
Which bind operator stands before which condition. While a list of nodes is
compiled, the operator of the term to come waits in one place and the
conditions of the terms before it in another. The invariant `Bound` ties
the two together after every node: no operator waits exactly while there is
no condition yet.

So a list that may end has conditions of which the first has no operator,
and every other one has the operator that stands directly before the nodes
of its term (`compile_binds`). What `join` falls back to where an operator
is missing never shows: `joinOr`, which leaves it open, comes to the same.
-/
import Mathlib.Data.List.Basic
import FilterQuery.Proofs.Filter.Terms

namespace FilterQuery
namespace Filter

variable {f : Filter}

-- =========================================================== the invariant

/-- A term is awaited or read without a bind operator exactly while there
is no condition before it. Behind a term there is one. -/
def Progress.Bound (p : Progress) : Prop :=
  match p.awaiting with
  | .term b | .comparison b _ | .value b _ _ => b = none ↔ p.fragments = []
  | .bind => p.fragments ≠ []

private theorem bound_start : Progress.Bound {} := iff_of_true rfl rfl

/-- Every node leaves it so: a term passes its operator on until its
condition is there, and only a bind operator starts another term. -/
theorem Step.bound {a a' : Awaiting} {n : Node} {gs fs : List Fragment}
    (h : Step f a n a' fs) (ha : Progress.Bound ⟨a, gs⟩) :
    Progress.Bound ⟨a', gs ++ fs⟩ := by
  cases h with
  | column =>
      rw [List.append_nil]
      exact ha
  | comparison hop hn =>
      rw [List.append_nil]
      exact ha
  | bind hop =>
      rw [List.append_nil]
      exact iff_of_false (Option.some_ne_none _) ha
  | group h => exact List.append_ne_nil_of_right_ne_nil _ (by simp)
  | nullCheck hop h => exact List.append_ne_nil_of_right_ne_nil _ (by simp)
  | value h => exact List.append_ne_nil_of_right_ne_nil _ (by simp)

theorem Steps.bound {a last : Awaiting} {ns : List Node}
    {gs fs : List Fragment} (h : Steps f a ns last fs)
    (ha : Progress.Bound ⟨a, gs⟩) : Progress.Bound ⟨last, gs ++ fs⟩ := by
  induction h generalizing gs with
  | nil =>
      rw [List.append_nil]
      exact ha
  | cons hn hns ih =>
      rw [← List.append_assoc]
      exact ih (hn.bound ha)

/-- It holds after every node of every run. -/
theorem bound_of_run {ns : List Node} {p : Progress}
    (h : f.run {} ns = .ok p) : p.Bound := by
  obtain ⟨fs, hsteps, hfs⟩ := run_eq_ok_iff.1 h
  obtain ⟨awaiting, fragments⟩ := p
  obtain rfl : fragments = [] ++ fs := hfs
  exact hsteps.bound bound_start

-- ========================================================= one term of many

/-- The conditions start with that of the term that the nodes start with. -/
theorem Terms.first {b : Option Operator} {ns : List Node}
    {fs : List Fragment} (h : Terms f b ns fs) :
    ∃ t after sql ps, ns = t ++ after ∧ fs = ⟨b, sql⟩ :: ps
      ∧ TermText f t sql := by
  cases h with
  | last ht => exact ⟨_, [], _, [], (List.append_nil _).symm, rfl, ht⟩
  | more ht hop hns => exact ⟨_, _, _, _, rfl, rfl, ht⟩

/-- Every other condition is that of a term behind a bind operator, and the
nodes before that operator have the conditions before it. -/
theorem Terms.split {b : Option Operator} {ns : List Node}
    {fs : List Fragment} (h : Terms f b ns fs) {i : Nat} {q : Fragment}
    (hq : fs[i + 1]? = some q) :
    ∃ before op t after, ns = before ++ .operator op :: (t ++ after)
      ∧ op.isBind = true ∧ q.bind = some op ∧ TermText f t q.sql
      ∧ Terms f b before (fs.take (i + 1)) := by
  induction h generalizing i with
  | last ht => cases hq
  | @more b t ns sql op fs ht hop hns ih =>
      rw [List.getElem?_cons_succ] at hq
      cases i with
      | zero =>
          obtain ⟨t', after, sql', ps, rfl, rfl, ht'⟩ := hns.first
          obtain rfl : ⟨some op, sql'⟩ = q := Option.some.inj hq
          exact ⟨t, op, t', after, rfl, hop, rfl, ht', .last ht⟩
      | succ i =>
          obtain ⟨before, op', t', after, rfl, hop', hbind, ht', hbefore⟩ :=
            ih hq
          refine ⟨t ++ .operator op :: before, op', t', after, ?_, hop',
            hbind, ht', .more ht hop hbefore⟩
          rw [List.append_assoc, List.cons_append]

/-- Of the conditions only the first can be without a bind operator. -/
theorem Terms.bind_eq_none_iff {ns : List Node} {fs : List Fragment}
    (h : Terms f none ns fs) {i : Nat} {q : Fragment}
    (hq : fs[i]? = some q) : q.bind = none ↔ i = 0 := by
  cases i with
  | zero =>
      obtain ⟨t, after, sql, ps, rfl, rfl, ht⟩ := h.first
      obtain rfl : ⟨none, sql⟩ = q := Option.some.inj hq
      exact iff_of_true rfl rfl
  | succ i =>
      obtain ⟨before, op, t, after, -, -, hbind, -⟩ := h.split hq
      rw [hbind]
      exact iff_of_false (Option.some_ne_none op) (Nat.succ_ne_zero i)

/-- The conditions of a list that may end are those of its terms, if it has
any. -/
theorem terms_of_run {ns : List Node} {p : Progress}
    (h : f.run {} ns = .ok p)
    (hlast : p.awaiting = .bind ∨ p.awaiting = .term none) :
    p.fragments = [] ∨ Terms f none ns p.fragments := by
  obtain ⟨fs, hsteps, hfs⟩ := run_eq_ok_iff.1 h
  rw [show p.fragments = fs from hfs]
  rcases hlast with hlast | hlast
  · exact Or.inr (hsteps.terms hlast)
  · obtain ⟨-, -, hnone⟩ := hsteps.nil_of_term hlast
    exact Or.inl hnone

-- ============================================================ the fallback

/-- The conditions joined, with `fallback` for a bind operator that is
missing. -/
def joinOr (fallback : Operator) : List Fragment → Text
  | [] => []
  | p :: ps =>
      if (p :: ps).all (·.sql.isEmpty) then []
      else p.condition ++ ps.flatMap fun q =>
        ' ' :: (q.bind.getD fallback).spelling ++ ' ' :: q.condition

/-- Where only the first condition is without an operator, there is nothing
to fall back from. -/
theorem joinOr_eq_join {fs : List Fragment} (fallback : Operator)
    (h : ∀ i q, fs[i + 1]? = some q → q.bind ≠ none) :
    joinOr fallback fs = join fs := by
  cases fs with
  | nil => rfl
  | cons p ps =>
      have hps : ∀ q ∈ ps, ' ' :: (q.bind.getD fallback).spelling
          ++ ' ' :: q.condition = q.continuation := by
        intro q hq
        obtain ⟨i, hi⟩ := List.mem_iff_getElem?.1 hq
        obtain ⟨op, hop⟩ := Option.ne_none_iff_exists'.1 (h i q hi)
        unfold Fragment.continuation
        rw [hop]
        rfl
      simp only [joinOr, join, List.flatMap_congr hps]

-- ============================================================== the result

/-- After every node of every list, well-formed or not, a bind operator
waits for its term exactly if there is a condition before it. So, wherever
the list may end, of its conditions the first one has no operator and every
other one has that which stands directly before its term; and an operator
to fall back to, whichever it is, is not used. -/
theorem compile_binds (f : Filter) (ns : List Node) :
    (∀ done rest p, ns = done ++ rest → f.run {} done = .ok p → p.Bound)
      ∧ ∀ p sql, f.run {} ns = .ok p → p.finish = .ok sql →
        (∀ i q, p.fragments[i]? = some q → (q.bind = none ↔ i = 0))
        ∧ (∀ i q, p.fragments[i + 1]? = some q →
          ∃ before op t after,
            ns = before ++ .operator op :: (t ++ after)
              ∧ op.isBind = true ∧ q.bind = some op
              ∧ f.run {} before = .ok ⟨.bind, p.fragments.take (i + 1)⟩
              ∧ f.run {} (before ++ .operator op :: t)
                = .ok ⟨.bind, p.fragments.take (i + 1) ++ [q]⟩)
        ∧ ∀ fallback, joinOr fallback p.fragments = sql := by
  constructor
  · intro done rest p _ hrun
    exact bound_of_run hrun
  · intro p sql hrun hfinish
    obtain ⟨hlast, rfl⟩ := finish_eq_ok_iff.1 hfinish
    rcases terms_of_run hrun hlast with hnone | hterms
    · have hempty : ∀ (i : Nat) q, p.fragments[i]? ≠ some q := by
        simp [hnone]
      refine ⟨fun i q hq => absurd hq (hempty i q),
        fun i q hq => absurd hq (hempty (i + 1) q), fun fallback => ?_⟩
      rw [hnone]
      rfl
    · have hfirst : ∀ i q, p.fragments[i]? = some q →
          (q.bind = none ↔ i = 0) := fun i q => hterms.bind_eq_none_iff
      refine ⟨hfirst, fun i q hq => ?_, fun fallback => ?_⟩
      · obtain ⟨before, op, t, after, rfl, hop, hbind, ht, hbefore⟩ :=
          hterms.split hq
        refine ⟨before, op, t, after, rfl, hop, hbind, ?_, ?_⟩
        · exact run_eq_ok_iff.2 ⟨_, hbefore.steps, rfl⟩
        · have hterm : Steps f .bind (.operator op :: t) .bind [q] := by
            have hsteps := Steps.cons (.bind hop) (ht.steps (some op))
            rwa [← hbind] at hsteps
          exact run_eq_ok_iff.2 ⟨_, hbefore.steps.append hterm, rfl⟩
      · refine joinOr_eq_join fallback fun i q hq hnone => ?_
        exact Nat.succ_ne_zero i ((hfirst (i + 1) q hq).1 hnone)

/-- Behind a group that comes to nothing, and before a wildcard without
fields: both conditions are empty and keep their operators. -/
theorem compile_binds_beside_empty :
    let f : Filter :=
      { fields := .ofFields [⟨['a'], .integer, false⟩],
        quoter := Dialect.ansi.quoter }
    let ns : List Node :=
      [.group [.group []], .operator .or, .column ['a'], .operator .isNull,
        .operator .and, .column ['*'], .operator .eq, .value ['1']]
    let p : Progress :=
      ⟨.bind, [⟨none, []⟩, ⟨some .or, "\"a\" IS NULL".toList⟩,
        ⟨some .and, []⟩]⟩
    f.run {} ns = .ok p
      ∧ Progress.Bound ⟨.comparison (some .or) ['a'], [⟨none, []⟩]⟩
      ∧ joinOr .or p.fragments
        = "(1=0) OR \"a\" IS NULL AND (1=0)".toList
      ∧ ∃ before op t after, ns = before ++ .operator op :: (t ++ after)
        ∧ op.isBind = true ∧ some .and = some op
        ∧ f.run {} before = .ok ⟨.bind, p.fragments.take 2⟩
        ∧ f.run {} (before ++ .operator op :: t) = .ok p := by
  intro f ns p
  have hrun : f.run {} ns = .ok p := rfl
  have hfinish : p.finish
      = .ok "(1=0) OR \"a\" IS NULL AND (1=0)".toList := rfl
  obtain ⟨hbound, hresult⟩ := compile_binds f ns
  obtain ⟨-, hbefore, hfallback⟩ := hresult p _ hrun hfinish
  exact ⟨hrun, hbound (ns.take 3) (ns.drop 3) _ rfl rfl, hfallback .or,
    hbefore 1 ⟨some .and, []⟩ rfl⟩

end Filter
end FilterQuery
