/-
What is wrong with a list of nodes. The type of nodes admits any order of
them, and the compiler is handed such lists as they are, so all that can be
wrong with one is said here without the compiler: a node stands where it
does not belong, a leaf is refused by the fields, a list ends too early,
and each of these in a group just as well.

The first of them from left to right, with the contents of a group where
the group stands, is what a list is refused for, and a list without any is
compiled (`compile_exact`). `Clean` is what keeps "first" honest: a fault
counts only behind nodes that have none.
-/
import Mathlib.Data.List.Induction
import FilterQuery.Proofs.Filter.Leaves

namespace FilterQuery

-- ================================================================ the slots

namespace Grammar

/-- What is asked for at a slot when nodes are compiled. -/
def Slot.awaited : Slot → Expected
  | start | term => .columnOrSubExpression
  | comparison => .comparison
  | value => .value
  | bind => .bindOrEnd

/-- Whether a node belongs at a slot, whatever is in it. -/
def Slot.takes : Slot → Node → Bool
  | start, .column _ | start, .group _ | term, .column _ | term, .group _ =>
      true
  | comparison, .operator op => op.isComparison
  | value, .value _ => true
  | bind, .operator op => op.isBind
  | _, _ => false

private theorem Slot.takes_column (slot : Slot) (name : Text) :
    slot.takes (.column name) = slot.startsTerm := by
  cases slot <;> rfl

private theorem Slot.takes_group (slot : Slot) (children : List Node) :
    slot.takes (.group children) = slot.startsTerm := by
  cases slot <;> rfl

end Grammar

namespace Filter

open Grammar

-- =============================================================== the faults

/-- Nodes with nothing wrong in them, from the start of a list up to a
slot. -/
inductive Clean (f : Filter) : Slot → List Node → Prop where
  | start : Clean f .start []
  | column {slot : Slot} {ns : List Node} {name : Text}
      (h : Clean f slot ns) (hslot : slot.startsTerm = true) :
      Clean f .comparison (ns ++ [.column name])
  | operator {slot : Slot} {ns : List Node} {name : Text} {op : Operator}
      (h : Clean f slot ns) (hslot : slot.startsTerm = true)
      (hop : op.isComparison = true) (hn : op.isNullCheck = false) :
      Clean f .value (ns ++ [.column name, .operator op])
  | nullCheck {slot : Slot} {ns : List Node} {name sql : Text}
      {op : Operator} (h : Clean f slot ns) (hslot : slot.startsTerm = true)
      (hop : op.isNullCheck = true)
      (hleaf : f.predicate name op.spelling none = .ok sql) :
      Clean f .bind (ns ++ [.column name, .operator op])
  | value {slot : Slot} {ns : List Node} {name raw sql : Text}
      {op : Operator} (h : Clean f slot ns) (hslot : slot.startsTerm = true)
      (hop : op.isComparison = true) (hn : op.isNullCheck = false)
      (hleaf : f.predicate name op.spelling (some raw) = .ok sql) :
      Clean f .bind (ns ++ [.column name, .operator op, .value raw])
  | group {slot last : Slot} {ns children : List Node}
      (h : Clean f slot ns) (hslot : slot.startsTerm = true)
      (hc : Clean f last children) (hlast : last.missing? = none) :
      Clean f .bind (ns ++ [.group children])
  | bind {ns : List Node} {op : Operator} (h : Clean f .bind ns)
      (hop : op.isBind = true) : Clean f .term (ns ++ [.operator op])

/-- The first fault in a list of nodes. Whatever stands behind it does not
count. -/
inductive FirstFault (f : Filter) : List Node → QueryError → Prop where
  /-- A node does not belong where it stands. -/
  | misplaced {slot : Slot} {before after : List Node} {n : Node}
      (h : Clean f slot before) (hn : slot.takes n = false) :
      FirstFault f (before ++ n :: after)
        (.unexpectedNode n.describe slot.awaited)
  /-- A null check is refused. -/
  | nullCheck {slot : Slot} {before after : List Node} {name : Text}
      {op : Operator} {e : QueryError} (h : Clean f slot before)
      (hslot : slot.startsTerm = true) (hop : op.isNullCheck = true)
      (he : f.predicate name op.spelling none = .error e) :
      FirstFault f (before ++ .column name :: .operator op :: after) e
  /-- A comparison with a value is refused. -/
  | value {slot : Slot} {before after : List Node} {name raw : Text}
      {op : Operator} {e : QueryError} (h : Clean f slot before)
      (hslot : slot.startsTerm = true) (hop : op.isComparison = true)
      (hn : op.isNullCheck = false)
      (he : f.predicate name op.spelling (some raw) = .error e) :
      FirstFault f
        (before ++ .column name :: .operator op :: .value raw :: after) e
  /-- The contents of a group have a fault. -/
  | inside {slot : Slot} {before after children : List Node}
      {e : QueryError} (h : Clean f slot before)
      (hslot : slot.startsTerm = true) (hc : FirstFault f children e) :
      FirstFault f (before ++ .group children :: after) e
  /-- The list ends within a term, or behind a bind operator. -/
  | incomplete {slot : Slot} {ns : List Node} (h : Clean f slot ns)
      (hslot : slot.missing? ≠ none) :
      FirstFault f ns (.incomplete slot.awaited)

variable {f : Filter}

-- ================================================================ one term

section Term

variable (b : Option Operator) (fs : List Fragment) (ms : List Node)

/-- A null check is looked up, and the rest follows if it is admitted. -/
theorem compileFrom_nullCheck {op : Operator} (hop : op.isNullCheck = true)
    (name : Text) :
    f.compileFrom ⟨.term b, fs⟩ (.column name :: .operator op :: ms)
      = f.term name op none
          >>= fun sql => f.compileFrom ⟨.bind, fs ++ [⟨b, sql⟩]⟩ ms := by
  rw [compileFrom_cons, step]
  show f.compileFrom ⟨.comparison b name, fs⟩ _ = _
  rw [compileFrom_cons, step_nullCheck hop]
  cases f.term name op none <;> rfl

/-- A comparison is looked up with its value, and the rest follows if it is
admitted. -/
theorem compileFrom_value {op : Operator} (hop : op.isComparison = true)
    (hn : op.isNullCheck = false) (name raw : Text) :
    f.compileFrom ⟨.term b, fs⟩
        (.column name :: .operator op :: .value raw :: ms)
      = f.term name op (some raw)
          >>= fun sql => f.compileFrom ⟨.bind, fs ++ [⟨b, sql⟩]⟩ ms := by
  have hop : f.step ⟨.comparison b name, fs⟩ (.operator op)
      = .ok ⟨.value b name op, fs⟩ := by
    simp [step, hop, hn]
  rw [compileFrom_cons, step]
  show f.compileFrom ⟨.comparison b name, fs⟩ _ = _
  rw [compileFrom_cons, hop]
  show f.compileFrom ⟨.value b name op, fs⟩ _ = _
  rw [compileFrom_cons, step_value]
  cases f.term name op (some raw) <;> rfl

/-- The contents of a group are compiled, and the rest follows if they
are. -/
theorem compileFrom_group (children : List Node) :
    f.compileFrom ⟨.term b, fs⟩ (.group children :: ms)
      = f.compile children >>= fun sql =>
          f.compileFrom ⟨.bind, fs ++ [⟨b, grouped sql⟩]⟩ ms := by
  rw [compileFrom_cons, step_group]
  cases f.compile children <;> rfl

end Term

-- ============================================================== clean nodes

/-- Behind the nodes at the start, the others are compiled from where those
have led. -/
theorem compile_append (ns ms : List Node) :
    f.compile (ns ++ ms)
      = f.run {} ns >>= fun p => f.compileFrom p ms := by
  unfold compile compileFrom
  rw [run_append, bind_assoc]

private theorem Steps.compile_append {ns : List Node} {a : Awaiting}
    {fs : List Fragment} (h : Steps f (.term none) ns a fs)
    (ms : List Node) : f.compile (ns ++ ms) = f.compileFrom ⟨a, fs⟩ ms := by
  have hrun : f.run {} ns = .ok ⟨a, fs⟩ := run_eq_ok_iff.2 ⟨fs, h, rfl⟩
  rw [Filter.compile_append, hrun]
  rfl

/-- Where nothing is missing the fragments are joined, and elsewhere the
list is incomplete. -/
theorem AwaitsAt.finish_eq {slot : Slot} {a : Awaiting} (h : AwaitsAt slot a)
    (fs : List Fragment) :
    Progress.finish ⟨a, fs⟩
      = if slot.missing? = none then .ok (join fs)
        else .error (.incomplete slot.awaited) := by
  cases h <;> rfl

/-- The compiler passes over clean nodes, and awaits behind them what the
slot says. -/
theorem Clean.steps {slot : Slot} {ns : List Node} (h : Clean f slot ns) :
    ∃ a fs, AwaitsAt slot a ∧ Steps f (.term none) ns a fs := by
  induction h with
  | start => exact ⟨_, [], .start, .nil⟩
  | column h hslot ih =>
      obtain ⟨a, fs, ha, hsteps⟩ := ih
      obtain ⟨b, rfl⟩ := ha.eq_term hslot
      exact ⟨_, _, .comparison, hsteps.append (.cons .column .nil)⟩
  | operator h hslot hop hn ih =>
      obtain ⟨a, fs, ha, hsteps⟩ := ih
      obtain ⟨b, rfl⟩ := ha.eq_term hslot
      exact ⟨_, _, .value,
        hsteps.append (.cons .column (.cons (.comparison hop hn) .nil))⟩
  | nullCheck h hslot hop hleaf ih =>
      obtain ⟨a, fs, ha, hsteps⟩ := ih
      obtain ⟨b, rfl⟩ := ha.eq_term hslot
      rw [predicate_spelling (Operator.isComparison_of_isNullCheck hop)]
        at hleaf
      exact ⟨_, _, .bind,
        hsteps.append ((TermText.nullCheck hop hleaf).steps b)⟩
  | value h hslot hop hn hleaf ih =>
      obtain ⟨a, fs, ha, hsteps⟩ := ih
      obtain ⟨b, rfl⟩ := ha.eq_term hslot
      rw [predicate_spelling hop] at hleaf
      exact ⟨_, _, .bind,
        hsteps.append ((TermText.comparison hop hn hleaf).steps b)⟩
  | @group slot last ns children h hslot hc hlast ih ihc =>
      obtain ⟨a, fs, ha, hsteps⟩ := ih
      obtain ⟨b, rfl⟩ := ha.eq_term hslot
      obtain ⟨a', fs', ha', hsteps'⟩ := ihc
      -- A group is compiled from the start, whatever is around it.
      have hsql : f.compile children = .ok (join fs') := by
        have hcompile := hsteps'.compile_append []
        rw [List.append_nil] at hcompile
        rw [hcompile]
        show Progress.finish ⟨a', fs'⟩ = _
        rw [ha'.finish_eq, if_pos hlast]
      exact ⟨_, _, .bind, hsteps.append ((TermText.group hsql).steps b)⟩
  | bind h hop ih =>
      obtain ⟨a, fs, ha, hsteps⟩ := ih
      cases ha with
      | bind => exact ⟨_, _, .term, hsteps.append (.cons (.bind hop) .nil)⟩

/-- A list that is clean to a slot where it may end is compiled, and one
that is clean to another slot is incomplete. -/
theorem Clean.compile_eq {slot : Slot} {ns : List Node}
    (h : Clean f slot ns) :
    ∃ fs, f.compile ns = if slot.missing? = none then .ok (join fs)
      else .error (.incomplete slot.awaited) := by
  obtain ⟨a, fs, ha, hsteps⟩ := h.steps
  refine ⟨fs, ?_⟩
  rw [← ha.finish_eq, ← List.append_nil ns, hsteps.compile_append]
  rfl

-- =================================================================== faults

private theorem step_of_not_takes {slot : Slot} {a : Awaiting} {n : Node}
    (ha : AwaitsAt slot a) (hn : slot.takes n = false)
    (fs : List Fragment) :
    f.step ⟨a, fs⟩ n
      = .error (.unexpectedNode n.describe slot.awaited) := by
  cases ha with
  | start | term =>
      cases n with
      | operator op => rfl
      | value raw => rfl
      | column name => cases hn
      | group children => cases hn
  | comparison =>
      cases n with
      | operator op =>
          -- A null check is a comparison, and would be taken here.
          have hnull : op.isNullCheck = false := by
            cases hnull : op.isNullCheck with
            | false => rfl
            | true =>
                have hop := Operator.isComparison_of_isNullCheck hnull
                exact absurd (hop.symm.trans hn) (by decide)
          have hop : op.isComparison = false := hn
          simp only [step, hnull, hop]
          rfl
      | column name => rfl
      | value raw => rfl
      | group children => rfl
  | value =>
      cases n with
      | value raw => cases hn
      | column name => rfl
      | operator op => rfl
      | group children => rfl
  | bind =>
      cases n with
      | operator op =>
          have hop : op.isBind = false := hn
          simp only [step, hop]
          rfl
      | column name => rfl
      | value raw => rfl
      | group children => rfl

/-- What has a fault is refused for it. -/
theorem FirstFault.compile_eq {ns : List Node} {e : QueryError}
    (h : FirstFault f ns e) : f.compile ns = .error e := by
  induction h with
  | @misplaced slot before after n h hn =>
      obtain ⟨a, fs, ha, hsteps⟩ := h.steps
      rw [hsteps.compile_append, compileFrom_cons, step_of_not_takes ha hn]
      rfl
  | nullCheck h hslot hop he =>
      obtain ⟨a, fs, ha, hsteps⟩ := h.steps
      obtain ⟨b, rfl⟩ := ha.eq_term hslot
      rw [predicate_spelling (Operator.isComparison_of_isNullCheck hop)] at he
      rw [hsteps.compile_append, compileFrom_nullCheck b fs _ hop, he]
      rfl
  | value h hslot hop hn he =>
      obtain ⟨a, fs, ha, hsteps⟩ := h.steps
      obtain ⟨b, rfl⟩ := ha.eq_term hslot
      rw [predicate_spelling hop] at he
      rw [hsteps.compile_append, compileFrom_value b fs _ hop hn, he]
      rfl
  | inside h hslot hc ih =>
      obtain ⟨a, fs, ha, hsteps⟩ := h.steps
      obtain ⟨b, rfl⟩ := ha.eq_term hslot
      rw [hsteps.compile_append, compileFrom_group, ih]
      rfl
  | incomplete h hslot =>
      obtain ⟨fs, hcompile⟩ := h.compile_eq
      rw [hcompile, if_neg hslot]

-- =============================================================== every list

/-- A fault that has been met is the first, whatever follows. -/
def Faulty (f : Filter) (ns : List Node) : Prop :=
  ∃ e, ∀ after, FirstFault f (ns ++ after) e

/-- The list is clean and may end, or it has a fault. -/
def Settled (f : Filter) (ns : List Node) : Prop :=
  (∃ slot, Clean f slot ns ∧ slot.missing? = none) ∨ ∃ e, FirstFault f ns e

private theorem settled_of_clean_or_faulty {ns : List Node}
    (h : (∃ slot, Clean f slot ns) ∨ Faulty f ns) : Settled f ns := by
  rcases h with ⟨slot, hclean⟩ | ⟨e, he⟩
  · by_cases hslot : slot.missing? = none
    · exact Or.inl ⟨slot, hclean, hslot⟩
    · exact Or.inr ⟨_, .incomplete hclean hslot⟩
  · exact Or.inr ⟨e, by simpa using he []⟩

/-- Behind clean nodes an operator is a bind operator, a null check or the
start of a comparison, or it does not belong there. -/
theorem Clean.extend_operator {slot : Slot} {ns : List Node}
    (h : Clean f slot ns) {op : Operator}
    (hop : slot.takes (.operator op) = true) :
    (∃ next, Clean f next (ns ++ [.operator op]))
      ∨ Faulty f (ns ++ [.operator op]) := by
  cases slot with
  | start | term | value => cases hop
  | bind => exact Or.inl ⟨_, h.bind hop⟩
  | comparison =>
      cases h with
      | @column slot ns name h hslot =>
          rw [List.append_assoc]
          cases hn : op.isNullCheck with
          | false => exact Or.inl ⟨_, h.operator hslot hop hn⟩
          | true =>
              cases hleaf : f.predicate name op.spelling none with
              | ok sql => exact Or.inl ⟨_, h.nullCheck hslot hn hleaf⟩
              | error e =>
                  refine Or.inr ⟨e, fun after => ?_⟩
                  rw [List.append_assoc]
                  exact .nullCheck h hslot hn hleaf

/-- Behind clean nodes a value completes a leaf, or it does not belong
there. -/
theorem Clean.extend_value {slot : Slot} {ns : List Node}
    (h : Clean f slot ns) {raw : Text}
    (hraw : slot.takes (.value raw) = true) :
    (∃ next, Clean f next (ns ++ [.value raw]))
      ∨ Faulty f (ns ++ [.value raw]) := by
  cases slot with
  | start | term | comparison | bind => cases hraw
  | value =>
      cases h with
      | @operator slot ns name op h hslot hop hn =>
          rw [List.append_assoc]
          cases hleaf : f.predicate name op.spelling (some raw) with
          | ok sql => exact Or.inl ⟨_, h.value hslot hop hn hleaf⟩
          | error e =>
              refine Or.inr ⟨e, fun after => ?_⟩
              rw [List.append_assoc]
              exact .value h hslot hop hn hleaf

/-- One more node behind clean ones leaves them clean, or is where the first
fault is met. -/
theorem Clean.extend {slot : Slot} {ns : List Node} (h : Clean f slot ns)
    {n : Node}
    (hgroup : ∀ children, n = .group children → Settled f children) :
    (∃ next, Clean f next (ns ++ [n])) ∨ Faulty f (ns ++ [n]) := by
  cases hn : slot.takes n with
  | false =>
      have hfault : ∀ after, FirstFault f (ns ++ n :: after)
          (.unexpectedNode n.describe slot.awaited) :=
        fun after => .misplaced h hn
      exact Or.inr ⟨_, by simpa using hfault⟩
  | true =>
      cases n with
      | column name =>
          rw [Slot.takes_column] at hn
          exact Or.inl ⟨_, h.column hn⟩
      | operator op => exact h.extend_operator hn
      | value raw => exact h.extend_value hn
      | group children =>
          rw [Slot.takes_group] at hn
          rcases hgroup children rfl with ⟨last, hc, hlast⟩ | ⟨e, he⟩
          · exact Or.inl ⟨_, h.group hn hc hlast⟩
          · refine Or.inr ⟨e, fun after => ?_⟩
            rw [List.append_assoc]
            exact .inside h hn he

/-- The nodes of a list are clean, or a fault has been met in them, if that
is known of the contents of its groups. -/
theorem clean_or_faulty {ns : List Node}
    (hgroups : ∀ children, .group children ∈ ns → Settled f children) :
    (∃ slot, Clean f slot ns) ∨ Faulty f ns := by
  induction ns using List.reverseRecOn with
  | nil => exact Or.inl ⟨_, .start⟩
  | append_singleton ns n ih =>
      have hns := ih fun children hc =>
        hgroups children (List.mem_append_left _ hc)
      rcases hns with ⟨slot, hclean⟩ | ⟨e, he⟩
      · refine hclean.extend fun children hn => hgroups children ?_
        rw [hn]
        exact List.mem_append_right _ (List.mem_singleton_self _)
      · refine Or.inr ⟨e, fun after => ?_⟩
        rw [List.append_assoc]
        exact he _

/-- Induction on the size of the nodes: the contents of a group are
smaller. -/
theorem settled (f : Filter) (ns : List Node) : Settled f ns := by
  have hgroups : ∀ children, .group children ∈ ns → Settled f children := by
    intro children hc
    have hlt := List.sizeOf_lt_of_mem hc
    exact settled f children
  exact settled_of_clean_or_faulty (clean_or_faulty hgroups)
termination_by sizeOf ns
decreasing_by
  rw [Node.group.sizeOf_spec] at hlt
  omega

-- ============================================================ the verdict

/-- Clean nodes up to a slot, and nodes that fit from there on. -/
theorem Clean.fits {slot : Slot} {ns ms : List Node} (h : Clean f slot ns)
    (hms : Fits slot ms) : Fits .start (ns ++ ms) := by
  induction h generalizing ms with
  | start => exact hms
  | column h hslot ih =>
      rw [List.append_assoc]
      exact ih (.column hslot hms)
  | operator h hslot hop hn ih =>
      rw [List.append_assoc]
      exact ih (.column hslot (.comparison hop hn hms))
  | nullCheck h hslot hop hleaf ih =>
      rw [List.append_assoc]
      exact ih (.column hslot (.nullCheck hop hms))
  | value h hslot hop hn hleaf ih =>
      rw [List.append_assoc]
      exact ih (.column hslot (.comparison hop hn (.value hms)))
  | group h hslot hc hlast ih ihc =>
      rw [List.append_assoc]
      have hchildren := ihc (.done hlast)
      rw [List.append_nil] at hchildren
      exact ih (.group hslot hchildren hms)
  | bind h hop ih =>
      rw [List.append_assoc]
      exact ih (.bind hop hms)

/-- What is compiled is well-formed, and so are the contents of its
groups. -/
theorem wellFormed_of_compile {ns : List Node} {sql : Text}
    (h : f.compile ns = .ok sql) : Node.WellFormed ns := by
  rcases settled f ns with ⟨slot, hclean, hlast⟩ | ⟨e, he⟩
  · have hfits := hclean.fits (.done hlast)
    rw [List.append_nil] at hfits
    exact fits_start_iff.1 hfits
  · rw [he.compile_eq] at h
    cases h

/-- Of nodes that fit, a leaf is admitted by its predicate if it has no
fault. -/
theorem predicate_eq_ok_iff {ns : List Node} (hns : Fits .start ns)
    {l : Leaf} (hl : l ∈ Node.leaves ns) :
    (∃ sql, f.predicate l.name l.op.spelling l.value = .ok sql)
      ↔ l.fault? f.fields = none := by
  rw [predicate_spelling (Node.isComparison_of_fits hns l hl),
    ← refusal_eq_none_iff, refusal_term]

/-- Whatever the nodes are, in whatever order and however deep, they are
compiled if and only if the list and every group in it is well-formed and
the predicate of every leaf succeeds. Otherwise they are refused, and what
they are refused for is the first fault among them. -/
theorem compile_exact (f : Filter) (ns : List Node) :
    ((∃ sql, f.compile ns = .ok sql)
      ↔ Node.WellFormed ns ∧ ∀ l ∈ Node.leaves ns,
          ∃ sql, f.predicate l.name l.op.spelling l.value = .ok sql)
      ∧ ∀ e, f.compile ns = .error e ↔ FirstFault f ns e := by
  constructor
  · constructor
    · intro h
      obtain ⟨sql, hsql⟩ := h
      have hwell := wellFormed_of_compile hsql
      have hfits := fits_start_iff.2 hwell
      refine ⟨hwell, fun l hl => (predicate_eq_ok_iff hfits hl).2 ?_⟩
      have hnone := refusal_eq_none_iff.2 ⟨sql, hsql⟩
      rw [refusal_compile hfits, List.findSome?_eq_none_iff] at hnone
      exact hnone l hl
    · intro h
      obtain ⟨hwell, hleaves⟩ := h
      have hfits := fits_start_iff.2 hwell
      rw [← refusal_eq_none_iff, refusal_compile hfits,
        List.findSome?_eq_none_iff]
      exact fun l hl => (predicate_eq_ok_iff hfits hl).1 (hleaves l hl)
  · intro e
    constructor
    · intro h
      rcases settled f ns with ⟨slot, hclean, hlast⟩ | ⟨e', he'⟩
      · obtain ⟨fs, hcompile⟩ := hclean.compile_eq
        rw [hcompile, if_pos hlast] at h
        cases h
      · have heq := he'.compile_eq
        rw [h] at heq
        obtain rfl := Except.error.inj heq
        exact he'
    · exact FirstFault.compile_eq

end Filter
end FilterQuery
