/-
Queries compose. What two queries are compiled into apart is what they are
compiled into together, with the bind operator between them as between the
queries; a query in parentheses is compiled into what it is compiled into,
in parentheses (`compileQuery_composes`).

An empty condition is the one thing to watch. By itself it stays empty,
even in parentheses, but beside another one it is the condition that is
never met. So two queries are joined freely only where both conditions
ask for something, and in parentheses always.
-/
import FilterQuery.Proofs.Filter.Layout
import FilterQuery.Proofs.Filter.Outcomes
import FilterQuery.Proofs.Grammar.Concatenation

namespace FilterQuery
namespace Filter

variable {f : Filter}

-- ===================================================================== terms

/-- What stands before the first term is in the first fragment, and in no
other place. -/
theorem Terms.rebind {b : Option Operator} {ns : List Node}
    {fs : List Fragment} (h : Terms f b ns fs) :
    ∃ sql ps, fs = ⟨b, sql⟩ :: ps
      ∧ ∀ b', Terms f b' ns (⟨b', sql⟩ :: ps) := by
  cases h with
  | last ht => exact ⟨_, [], rfl, fun _ => .last ht⟩
  | more ht hop hns => exact ⟨_, _, rfl, fun _ => .more ht hop hns⟩

/-- Terms behind terms and a bind operator. -/
theorem Terms.append {b : Option Operator} {ns ms : List Node}
    {fs gs : List Fragment} {op : Operator} (hns : Terms f b ns fs)
    (hop : op.isBind = true) (hms : Terms f (some op) ms gs) :
    Terms f b (ns ++ .operator op :: ms) (fs ++ gs) := by
  induction hns with
  | last ht => exact .more ht hop hms
  | @more b t ns sql op' fs ht hop' hns ih =>
      rw [List.append_assoc]
      exact .more ht hop' ih

/-- Fragments that are joined to something, and others behind them. -/
theorem join_append {p : Fragment} {ps gs : List Fragment}
    (h : join (p :: ps) ≠ []) :
    join (p :: ps ++ gs)
      = join (p :: ps) ++ gs.flatMap Fragment.continuation := by
  have hne : join (p :: (ps ++ gs)) ≠ [] := by
    rw [Ne, join_eq_nil_iff] at h ⊢
    intro hall
    rw [← List.cons_append, List.all_append, Bool.and_eq_true] at hall
    exact h hall.1
  rw [List.cons_append, Sql.join_eq_written hne, Sql.join_eq_written h,
    Sql.written, Sql.written, List.flatMap_append, List.append_assoc]

-- ================================================================ conditions

variable {ns ms : List Node} {s s' : Text} {op : Operator}

/-- Two lists of nodes that ask for something, joined. -/
theorem compile_join (hns : f.compile ns = .ok s)
    (hms : f.compile ms = .ok s') (hs : s ≠ []) (hs' : s' ≠ [])
    (hop : op.isBind = true) :
    f.compile (ns ++ .operator op :: ms)
      = .ok (s ++ ' ' :: op.spelling ++ ' ' :: s') := by
  rcases compile_eq_ok_iff.1 hns with ⟨-, rfl⟩ | ⟨fs, hterms, rfl⟩
  · exact absurd rfl hs
  rcases compile_eq_ok_iff.1 hms with ⟨-, rfl⟩ | ⟨gs, hterms', rfl⟩
  · exact absurd rfl hs'
  obtain ⟨sql, ps, rfl, -⟩ := hterms.rebind
  obtain ⟨sql', ps', rfl, hrebind⟩ := hterms'.rebind
  refine compile_eq_ok_iff.2
    (Or.inr ⟨_, hterms.append hop (hrebind (some op)), ?_⟩)
  rw [join_append hs, Sql.join_eq_written hs', List.flatMap_cons]
  simp [Sql.written, Fragment.continuation, Fragment.condition]

/-- A group by itself: its contents in parentheses, unless they are
empty. -/
theorem compile_group (hns : f.compile ns = .ok s) :
    f.compile [.group ns] = .ok (grouped s) := by
  refine compile_eq_ok_iff.2 (Or.inr ⟨_, .last (.group hns), ?_⟩)
  cases s with
  | nil => rfl
  | cons c s => simp [join, grouped, Fragment.condition]

/-- The condition of a group beside another one. -/
def besides (s : Text) : Text :=
  if s = [] then "(1=0)".toList else '(' :: s ++ [')']

private theorem condition_grouped (b : Option Operator) (s : Text) :
    Fragment.condition ⟨b, grouped s⟩ = besides s := by
  cases s <;> rfl

/-- Two groups, joined: an empty one is never met, unless both are. -/
theorem compile_groups (hns : f.compile ns = .ok s)
    (hms : f.compile ms = .ok s') (hop : op.isBind = true) :
    f.compile [.group ns, .operator op, .group ms]
      = .ok (if s = [] ∧ s' = [] then []
          else besides s ++ ' ' :: op.spelling ++ ' ' :: besides s') := by
  refine compile_eq_ok_iff.2
    (Or.inr ⟨_, .more (.group hns) hop (.last (.group hms)), ?_⟩)
  by_cases hempty : s = [] ∧ s' = []
  · obtain ⟨rfl, rfl⟩ := hempty
    rfl
  · have hne : join [⟨none, grouped s⟩, ⟨some op, grouped s'⟩] ≠ [] := by
      rw [Ne, join_eq_nil_iff]
      intro hall
      apply hempty
      cases s <;> cases s' <;> simp [grouped] at hall ⊢
    rw [if_neg hempty, Sql.join_eq_written hne, Sql.written_cons,
      condition_grouped]
    simp [Sql.written, condition_grouped]

-- =================================================================== queries

private theorem exists_parse_of_compileQuery {q : Text}
    (h : f.compileQuery q = .ok s) :
    ∃ ns, Node.parse f.mode q = .ok ns ∧ f.compile ns = .ok s := by
  cases hns : Node.parse f.mode q with
  | error e =>
      rw [compileQuery_of_parse_error hns] at h
      cases h
  | ok ns =>
      rw [compileQuery_of_parse hns] at h
      exact ⟨ns, rfl, h⟩

/-- A query with a condition has nodes. -/
theorem ne_nil_of_compile (hns : f.compile ns = .ok s) (hs : s ≠ []) :
    ns ≠ [] := by
  rintro rfl
  exact hs (Except.ok.inj hns).symm

/-- Strict queries compose, whatever the fields, the quoter and the
qualifier are. Two that ask for something are joined by a bind operator, in
any of its spellings; one in parentheses is what it is by itself, in
parentheses; and two in parentheses are joined always, where an empty one
beside another is the condition that is never met. -/
theorem compileQuery_composes {q₁ q₂ s₁ s₂ b : Text} (hf : f.mode = .strict)
    (h₁ : f.compileQuery q₁ = .ok s₁) (h₂ : f.compileQuery q₂ = .ok s₂)
    (hb : (b.lower, op) ∈ Operator.spellings) (hop : op.isBind = true) :
    (s₁ ≠ [] → s₂ ≠ [] →
        f.compileQuery (q₁ ++ ' ' :: b ++ ' ' :: q₂)
          = .ok (s₁ ++ ' ' :: op.spelling ++ ' ' :: s₂))
      ∧ f.compileQuery ('(' :: q₁ ++ [')'])
        = .ok (if s₁ = [] then [] else '(' :: s₁ ++ [')'])
      ∧ f.compileQuery
          (('(' :: q₁ ++ [')']) ++ ' ' :: b ++ ' ' :: ('(' :: q₂ ++ [')']))
        = .ok (if s₁ = [] ∧ s₂ = [] then []
            else besides s₁ ++ ' ' :: op.spelling ++ ' ' :: besides s₂) := by
  obtain ⟨ns, hns, hs₁⟩ := exists_parse_of_compileQuery h₁
  obtain ⟨ms, hms, hs₂⟩ := exists_parse_of_compileQuery h₂
  rw [hf] at hns hms
  have hspells := spells_of_isBind hb hop
  have hcompile : ∀ {q ns}, Node.parse .strict q = .ok ns →
      f.compileQuery q = f.compile ns :=
    fun hq => compileQuery_of_parse (hf ▸ hq)
  refine ⟨fun hne₁ hne₂ => ?_, ?_, ?_⟩
  · have hjoin := Node.parse_join hns hms (ne_nil_of_compile hs₁ hne₁)
      (ne_nil_of_compile hs₂ hne₂) hspells hop
    rw [hcompile hjoin]
    exact compile_join hs₁ hs₂ hne₁ hne₂ hop
  · rw [hcompile (Node.parse_enclosed hns), compile_group hs₁]
    cases s₁ <;> rfl
  · have hjoin := Node.parse_join (Node.parse_enclosed hns)
      (Node.parse_enclosed hms) (List.cons_ne_nil _ _)
      (List.cons_ne_nil _ _) hspells hop
    rw [hcompile hjoin]
    exact compile_groups hs₁ hs₂ hop

/-- A parenthesis in quotes, a wildcard without fields, and the empty query:
none of them reaches beyond its own text. -/
theorem compileQuery_composes_mixed :
    let f : Filter :=
      { fields := .ofFields [⟨['a'], .varchar, false⟩],
        quoter := Dialect.ansi.quoter }
    f.compileQuery "a = '(' AnD * = b || a = c".toList
        = .ok "\"a\" = '(' AND (1=0) OR \"a\" = 'c'".toList
      ∧ f.compileQuery "(a = '(')".toList = .ok "(\"a\" = '(')".toList
      ∧ f.compileQuery "(a = '(') AnD (* = b || a = c)".toList
        = .ok "(\"a\" = '(') AND ((1=0) OR \"a\" = 'c')".toList
      ∧ f.compileQuery "(a = '(') || ()".toList
        = .ok "(\"a\" = '(') OR (1=0)".toList := by
  intro f
  -- The queries one by one; the last of them is empty.
  have h₁ : f.compileQuery "a = '('".toList
      = .ok "\"a\" = '('".toList := by
    have hparse : Node.parse .strict "a = '('".toList
        = .ok [.column ['a'], .operator .eq, .value "'('".toList] := by
      refine Node.parse_strict_iff_spells.2 ⟨?_, _, rfl, rfl⟩
      exact .column rfl (.comparison rfl rfl (.value (.done rfl)))
    rw [compileQuery_of_parse (f := f) hparse]
    rfl
  have h₂ : f.compileQuery "* = b || a = c".toList
      = .ok "(1=0) OR \"a\" = 'c'".toList := by
    have hparse : Node.parse .strict "* = b || a = c".toList
        = .ok [.column ['*'], .operator .eq, .value ['b'], .operator .or,
          .column ['a'], .operator .eq, .value ['c']] := by
      refine Node.parse_strict_iff_spells.2 ⟨?_, _, rfl, rfl⟩
      refine .column rfl (.comparison rfl rfl (.value (.bind rfl ?_)))
      exact .column rfl (.comparison rfl rfl (.value (.done rfl)))
    rw [compileQuery_of_parse (f := f) hparse]
    rfl
  have h₃ : f.compileQuery [] = .ok [] := by
    have hparse : Node.parse .strict [] = .ok [] :=
      Node.parse_strict_iff_spells.2 ⟨.done rfl, .nil⟩
    rw [compileQuery_of_parse (f := f) hparse]
    rfl
  obtain ⟨hjoin, henclosed, hgroups⟩ := @compileQuery_composes f .and _ _ _ _
    "AnD".toList rfl h₁ h₂ (by decide) rfl
  obtain ⟨-, -, hempty⟩ := @compileQuery_composes f .or _ _ _ _
    "||".toList rfl h₁ h₃ (by decide) rfl
  exact ⟨hjoin (by decide) (by decide), henclosed, hgroups, hempty⟩

end Filter
end FilterQuery
