/-
What compiling does, said once for one node (`Step`) and once for a list
(`Steps`): which nodes are accepted where, what is awaited after them, and
the conditions that they add. Every law about what is compiled starts from
these and never from the code.

`compile_eq_ok_iff` puts them together from the reader's side. A list of
nodes is compiled exactly when it is empty or a sequence of terms joined
by bind operators, and then its condition is made of one fragment for each
term, with the bind operator that stands before it.
-/
import FilterQuery.Filter
import FilterQuery.Proofs.Refusal

namespace FilterQuery
namespace Filter

variable {f : Filter}

-- =============================================================== one node

/-- One node: what is awaited before it and after it, and the fragments
that it adds. -/
inductive Step (f : Filter) :
    Awaiting → Node → Awaiting → List Fragment → Prop where
  | column {b : Option Operator} {name : Text} :
      Step f (.term b) (.column name) (.comparison b name) []
  | group {b : Option Operator} {children : List Node} {sql : Text}
      (h : f.compile children = .ok sql) :
      Step f (.term b) (.group children) .bind [⟨b, grouped sql⟩]
  | nullCheck {b : Option Operator} {name sql : Text} {op : Operator}
      (hop : op.isNullCheck = true) (h : f.term name op none = .ok sql) :
      Step f (.comparison b name) (.operator op) .bind [⟨b, sql⟩]
  | comparison {b : Option Operator} {name : Text} {op : Operator}
      (hop : op.isComparison = true) (hn : op.isNullCheck = false) :
      Step f (.comparison b name) (.operator op) (.value b name op) []
  | value {b : Option Operator} {name raw sql : Text} {op : Operator}
      (h : f.term name op (some raw) = .ok sql) :
      Step f (.value b name op) (.value raw) .bind [⟨b, sql⟩]
  | bind {op : Operator} (hop : op.isBind = true) :
      Step f .bind (.operator op) (.term (some op)) []

section Emit

variable {b : Option Operator} {fs : List Fragment}

/-- A null check completes the term of its column. -/
theorem step_nullCheck {op : Operator} (h : op.isNullCheck = true)
    (name : Text) :
    f.step ⟨.comparison b name, fs⟩ (.operator op)
      = (f.term name op none).map fun sql => ⟨.bind, fs ++ [⟨b, sql⟩]⟩ := by
  unfold step
  simp only [h, if_true]
  cases f.term name op none <;> rfl

/-- A value completes the term of its column. -/
theorem step_value (name raw : Text) (op : Operator) :
    f.step ⟨.value b name op, fs⟩ (.value raw)
      = (f.term name op (some raw)).map
          fun sql => ⟨.bind, fs ++ [⟨b, sql⟩]⟩ := by
  simp only [step]
  cases f.term name op (some raw) <;> rfl

/-- The contents of a group are compiled by themselves. -/
theorem step_group (children : List Node) :
    f.step ⟨.term b, fs⟩ (.group children)
      = (f.compile children).map
          fun sql => ⟨.bind, fs ++ [⟨b, grouped sql⟩]⟩ := by
  unfold step compile
  cases f.run {} children with
  | error e => rfl
  | ok p =>
      show (do let sql ← p.finish; return _) = p.finish.map _
      cases p.finish <;> rfl

/-- A term is complete when its condition is known. -/
private theorem emit_eq_ok_iff {r : Except QueryError Text}
    {g : Text → Fragment} {p : Progress} :
    r.map (fun sql => Progress.mk .bind (fs ++ [g sql])) = .ok p
      ↔ ∃ sql, r = .ok sql ∧ p = ⟨.bind, fs ++ [g sql]⟩ := by
  cases r <;> simp [Except.map, eq_comm]

end Emit

/-- The code takes the steps that the relation has. -/
theorem step_eq_ok_iff {p p' : Progress} {n : Node} :
    f.step p n = .ok p'
      ↔ ∃ fs, Step f p.awaiting n p'.awaiting fs
          ∧ p'.fragments = p.fragments ++ fs := by
  obtain ⟨awaiting, fragments⟩ := p
  obtain ⟨awaiting', fragments'⟩ := p'
  constructor
  · intro h
    -- A node is refused in every state that does not await it.
    cases n with
    | column name =>
        cases awaiting with
        | term b =>
            obtain ⟨rfl, rfl⟩ := Progress.mk.inj (Except.ok.inj h)
            exact ⟨[], .column, by simp⟩
        | comparison b name => cases h
        | value b name op => cases h
        | bind => cases h
    | operator op =>
        cases awaiting with
        | term b => cases h
        | comparison b name =>
            cases hn : op.isNullCheck with
            | true =>
                rw [step_nullCheck hn] at h
                obtain ⟨sql, hsql, hp⟩ := emit_eq_ok_iff.1 h
                obtain ⟨rfl, rfl⟩ := Progress.mk.inj hp
                exact ⟨_, .nullCheck hn hsql, rfl⟩
            | false =>
                simp only [step, hn] at h
                split at h
                · contradiction
                · split at h
                  · rename_i hop
                    obtain ⟨rfl, rfl⟩ := Progress.mk.inj (Except.ok.inj h)
                    exact ⟨[], .comparison hop hn, by simp⟩
                  · cases h
        | value b name op => cases h
        | bind =>
            simp only [step] at h
            split at h
            · rename_i hop
              obtain ⟨rfl, rfl⟩ := Progress.mk.inj (Except.ok.inj h)
              exact ⟨[], .bind hop, by simp⟩
            · cases h
    | value raw =>
        cases awaiting with
        | term b => cases h
        | comparison b name => cases h
        | value b name op =>
            rw [step_value] at h
            obtain ⟨sql, hsql, hp⟩ := emit_eq_ok_iff.1 h
            obtain ⟨rfl, rfl⟩ := Progress.mk.inj hp
            exact ⟨_, .value hsql, rfl⟩
        | bind => cases h
    | group children =>
        cases awaiting with
        | term b =>
            rw [step_group] at h
            obtain ⟨sql, hsql, hp⟩ := emit_eq_ok_iff.1 h
            obtain ⟨rfl, rfl⟩ := Progress.mk.inj hp
            exact ⟨_, .group hsql, rfl⟩
        | comparison b name => cases h
        | value b name op => cases h
        | bind => cases h
  · intro h
    obtain ⟨fs, hstep, hfs⟩ := h
    simp only at hstep hfs
    subst hfs
    cases hstep with
    | column => simp [step]
    | group h =>
        rw [step_group]
        exact emit_eq_ok_iff.2 ⟨_, h, rfl⟩
    | nullCheck hop h =>
        rw [step_nullCheck hop]
        exact emit_eq_ok_iff.2 ⟨_, h, rfl⟩
    | comparison hop hn => simp [step, hop, hn]
    | value h =>
        rw [step_value]
        exact emit_eq_ok_iff.2 ⟨_, h, rfl⟩
    | bind hop => simp [step, hop]

-- ================================================================== a list

/-- Nodes in order: what is awaited before and after them, and the
fragments that they add. -/
inductive Steps (f : Filter) :
    Awaiting → List Node → Awaiting → List Fragment → Prop where
  | nil {a : Awaiting} : Steps f a [] a []
  | cons {a a' last : Awaiting} {n : Node} {ns : List Node}
      {fs gs : List Fragment} (hn : Step f a n a' fs)
      (hns : Steps f a' ns last gs) : Steps f a (n :: ns) last (fs ++ gs)

theorem run_cons_eq_ok {p p' : Progress} {n : Node} {ns : List Node} :
    f.run p (n :: ns) = .ok p'
      ↔ ∃ next, f.step p n = .ok next ∧ f.run next ns = .ok p' := by
  rw [run]
  exact bind_eq_ok_iff

theorem run_append (p : Progress) (ns ms : List Node) :
    f.run p (ns ++ ms) = f.run p ns >>= fun next => f.run next ms := by
  induction ns generalizing p with
  | nil =>
      rw [List.nil_append, run]
      rfl
  | cons n ns ih =>
      rw [List.cons_append, run, run, bind_assoc]
      exact congrArg _ (funext ih)

/-- A run adds the fragments of its steps to those that are there, and looks
at none of them. -/
theorem run_eq_ok_iff {p p' : Progress} {ns : List Node} :
    f.run p ns = .ok p'
      ↔ ∃ fs, Steps f p.awaiting ns p'.awaiting fs
          ∧ p'.fragments = p.fragments ++ fs := by
  induction ns generalizing p with
  | nil =>
      rw [run]
      constructor
      · intro h
        obtain rfl := Except.ok.inj h
        exact ⟨[], .nil, by simp⟩
      · intro h
        obtain ⟨fs, hsteps, hfs⟩ := h
        obtain ⟨awaiting, fragments⟩ := p
        obtain ⟨awaiting', fragments'⟩ := p'
        simp only at hsteps hfs
        cases hsteps with
        | nil => simp [hfs]
  | cons n ns ih =>
      rw [run_cons_eq_ok]
      constructor
      · intro h
        obtain ⟨next, hn, hns⟩ := h
        obtain ⟨fs, hstep, hfs⟩ := step_eq_ok_iff.1 hn
        obtain ⟨gs, hsteps, hgs⟩ := ih.1 hns
        exact ⟨fs ++ gs, .cons hstep hsteps, by rw [hgs, hfs]; simp⟩
      · intro h
        obtain ⟨hs, hsteps, hhs⟩ := h
        cases hsteps with
        | @cons _ a' _ _ _ fs gs hstep hsteps =>
            refine ⟨⟨a', p.fragments ++ fs⟩, ?_, ?_⟩
            · exact step_eq_ok_iff.2 ⟨fs, hstep, rfl⟩
            · exact ih.2 ⟨gs, hsteps, by rw [hhs]; simp⟩

/-- Compiling may end behind a term, or before the first one. -/
theorem finish_eq_ok_iff {p : Progress} {sql : Text} :
    p.finish = .ok sql
      ↔ (p.awaiting = .bind ∨ p.awaiting = .term none)
          ∧ sql = join p.fragments := by
  obtain ⟨awaiting, fragments⟩ := p
  cases awaiting with
  | term b => cases b <;> simp [Progress.finish, eq_comm]
  | comparison b name => simp [Progress.finish]
  | value b name op => simp [Progress.finish]
  | bind => simp [Progress.finish, eq_comm]

-- ================================================================== terms

/-- The nodes of one term and its condition. -/
inductive TermText (f : Filter) : List Node → Text → Prop where
  | nullCheck {name sql : Text} {op : Operator}
      (hop : op.isNullCheck = true) (h : f.term name op none = .ok sql) :
      TermText f [.column name, .operator op] sql
  | comparison {name raw sql : Text} {op : Operator}
      (hop : op.isComparison = true) (hn : op.isNullCheck = false)
      (h : f.term name op (some raw) = .ok sql) :
      TermText f [.column name, .operator op, .value raw] sql
  | group {children : List Node} {sql : Text}
      (h : f.compile children = .ok sql) :
      TermText f [.group children] (grouped sql)

/-- The nodes of terms joined by bind operators, with a fragment for each
term; the first one follows the operator given. -/
inductive Terms (f : Filter) :
    Option Operator → List Node → List Fragment → Prop where
  | last {b : Option Operator} {t : List Node} {sql : Text}
      (ht : TermText f t sql) : Terms f b t [⟨b, sql⟩]
  | more {b : Option Operator} {t ns : List Node} {sql : Text}
      {op : Operator} {fs : List Fragment} (ht : TermText f t sql)
      (hop : op.isBind = true) (hns : Terms f (some op) ns fs) :
      Terms f b (t ++ .operator op :: ns) (⟨b, sql⟩ :: fs)

/-- What the nodes up to a complete term make of the term that is being
read. -/
theorem Steps.terms {a last : Awaiting} {ns : List Node}
    {fs : List Fragment} (h : Steps f a ns last fs) (hlast : last = .bind) :
    match a with
    | .term b => Terms f b ns fs
    | .comparison b name => Terms f b (.column name :: ns) fs
    | .value b name op => op.isComparison = true → op.isNullCheck = false →
        Terms f b (.column name :: .operator op :: ns) fs
    | .bind => ∀ t sql b, TermText f t sql →
        Terms f b (t ++ ns) (⟨b, sql⟩ :: fs) := by
  induction h with
  | nil =>
      subst hlast
      intro t sql b ht
      simpa using Terms.last ht
  | @cons a a' last n ns fs gs hn hns ih =>
      have ih := ih hlast
      cases hn with
      | column => exact ih
      | group h => exact ih _ _ _ (.group h)
      | nullCheck hop h => exact ih _ _ _ (.nullCheck hop h)
      | comparison hop hn => exact ih hop hn
      | value h => exact fun hop hn => ih _ _ _ (.comparison hop hn h)
      | bind hop => exact fun t sql b ht => .more ht hop ih

/-- Behind a node a term is only awaited with an operator before it. -/
theorem Steps.nil_of_term {a last : Awaiting} {ns : List Node}
    {fs : List Fragment} (h : Steps f a ns last fs)
    (hlast : last = .term none) : a = .term none ∧ ns = [] ∧ fs = [] := by
  induction h with
  | nil => exact ⟨hlast, rfl, rfl⟩
  | cons hn hns ih =>
      obtain ⟨rfl, -, -⟩ := ih hlast
      cases hn

theorem Steps.append {a mid last : Awaiting} {ns ms : List Node}
    {fs gs : List Fragment} (hns : Steps f a ns mid fs)
    (hms : Steps f mid ms last gs) :
    Steps f a (ns ++ ms) last (fs ++ gs) := by
  induction hns with
  | nil => exact hms
  | cons hn hns ih =>
      rw [List.append_assoc]
      exact .cons hn (ih hms)

/-- A term is one fragment, under the bind operator before it. -/
theorem TermText.steps {t : List Node} {sql : Text} (h : TermText f t sql)
    (b : Option Operator) : Steps f (.term b) t .bind [⟨b, sql⟩] := by
  cases h with
  | nullCheck hop h => exact .cons .column (.cons (.nullCheck hop h) .nil)
  | comparison hop hn h =>
      exact .cons .column (.cons (.comparison hop hn) (.cons (.value h) .nil))
  | group h => exact .cons (.group h) .nil

/-- So are terms that are joined, one after another. -/
theorem Terms.steps {b : Option Operator} {ns : List Node}
    {fs : List Fragment} (h : Terms f b ns fs) :
    Steps f (.term b) ns .bind fs := by
  induction h with
  | last ht => exact ht.steps _
  | @more b t ns sql op fs ht hop hns ih =>
      exact (ht.steps b).append (.cons (.bind hop) ih)

/-- What is compiled is nothing, or terms with a fragment for each. -/
theorem compile_eq_ok_iff {ns : List Node} {sql : Text} :
    f.compile ns = .ok sql
      ↔ (ns = [] ∧ sql = [])
        ∨ ∃ fs, Terms f none ns fs ∧ sql = join fs := by
  have hcompile : f.compile ns = .ok sql ↔ ∃ last fs,
      Steps f (.term none) ns last fs
        ∧ (last = .bind ∨ last = .term none) ∧ sql = join fs := by
    unfold compile
    rw [bind_eq_ok_iff]
    constructor
    · intro h
      obtain ⟨p, hrun, hfinish⟩ := h
      obtain ⟨hlast, rfl⟩ := finish_eq_ok_iff.1 hfinish
      obtain ⟨fs, hsteps, hfs⟩ := run_eq_ok_iff.1 hrun
      exact ⟨p.awaiting, fs, hsteps, hlast, by simp [hfs]⟩
    · intro h
      obtain ⟨last, fs, hsteps, hlast, rfl⟩ := h
      exact ⟨⟨last, fs⟩, run_eq_ok_iff.2 ⟨fs, hsteps, rfl⟩,
        finish_eq_ok_iff.2 ⟨hlast, rfl⟩⟩
  rw [hcompile]
  constructor
  · intro h
    rcases h with ⟨last, fs, hsteps, rfl | rfl, rfl⟩
    · exact Or.inr ⟨fs, hsteps.terms rfl, rfl⟩
    · obtain ⟨-, rfl, rfl⟩ := hsteps.nil_of_term rfl
      exact Or.inl ⟨rfl, rfl⟩
  · intro h
    rcases h with ⟨rfl, rfl⟩ | ⟨fs, hterms, rfl⟩
    · exact ⟨_, [], .nil, Or.inr rfl, rfl⟩
    · exact ⟨.bind, fs, hterms.steps, Or.inl rfl, rfl⟩

/-- Induction on what is compiled: what holds of the contents of every group
may be used where the group is a term. -/
theorem compile_induction {P : List Node → Text → Prop} (nil : P [] [])
    (terms : ∀ ns fs, Terms f none ns fs →
      (∀ children, .group children ∈ ns → ∀ inner,
        f.compile children = .ok inner → P children inner) →
      P ns (join fs))
    {ns : List Node} {sql : Text} (h : f.compile ns = .ok sql) :
    P ns sql := by
  rcases compile_eq_ok_iff.1 h with ⟨rfl, rfl⟩ | ⟨fs, hterms, rfl⟩
  · exact nil
  · refine terms ns fs hterms fun children hc inner hinner => ?_
    have hlt := List.sizeOf_lt_of_mem hc
    exact compile_induction nil terms hinner
termination_by sizeOf ns
decreasing_by
  rw [Node.group.sizeOf_spec] at hlt
  omega

end Filter
end FilterQuery
