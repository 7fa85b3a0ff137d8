/-
The columns that nodes refer to. Of all that the fields of a table could
say, compiling a list of nodes asks for nothing but the terms of its own
columns: two filters that make the same of those make the same of the list
(`compile_congr_of_columns`), be it a condition or an error, and whatever the
order of the nodes is.

The induction is over the nodes from any progress on, so that the column of
the term that is being read, which is no longer among the nodes to come, is
kept beside them.
-/
import FilterQuery.Proofs.Filter.Leaves

namespace FilterQuery

namespace Node

mutual

/-- The names of the columns inside a node. -/
def columnsInside : Node → List Text
  | .column name => [name]
  | .operator _ | .value _ => []
  | .group children => columns children

/-- The names of all columns among nodes, those of a group where it
stands. -/
def columns : List Node → List Text
  | [] => []
  | n :: ns => columnsInside n ++ columns ns

end

open Grammar in
/-- What the nodes from a slot on make of the leaf that is being read: every
column is the name of a leaf, in the same order. -/
theorem columns_of_fits {slot : Slot} {ns : List Node} (h : Fits slot ns) :
    match slot with
    | .start | .term | .bind => columns ns = (leaves ns).map (·.name)
    | .comparison => ∀ name,
        columns (.column name :: ns)
          = (leaves (.column name :: ns)).map (·.name)
    | .value => ∀ name op,
        columns (.column name :: .operator op :: ns)
          = (leaves (.column name :: .operator op :: ns)).map (·.name) := by
  -- As long as a leaf is not complete, its first nodes are carried along.
  induction h with
  | @done slot h =>
      cases slot with
      | start => rfl
      | bind => rfl
      | term => cases h
      | comparison => cases h
      | value => cases h
  | @column slot name ns h hns ih =>
      cases slot with
      | start => exact ih name
      | term => exact ih name
      | comparison => cases h
      | value => cases h
      | bind => cases h
  | @group slot children ns h hc hns ihc ih =>
      have hgroup : columns (.group children :: ns)
          = (leaves (.group children :: ns)).map (·.name) := by
        have hchildren : columns children = (leaves children).map (·.name) :=
          ihc
        have hns : columns ns = (leaves ns).map (·.name) := ih
        rw [columns, columnsInside, leaves_group, List.map_append, hchildren,
          hns]
      cases slot with
      | start => exact hgroup
      | term => exact hgroup
      | comparison => cases h
      | value => cases h
      | bind => cases h
  | nullCheck hop hns ih =>
      intro name
      rw [leaves_nullCheck hns]
      exact congrArg (name :: ·) ih
  | comparison hop hn hns ih => exact fun name => ih name _
  | value hns ih =>
      intro name op
      rw [leaves_value]
      exact congrArg (name :: ·) ih
  | bind hop hns ih => exact ih

end Node

namespace Filter

open Node

variable {f g : Filter}

/-- The name that has been read of the term at hand. -/
def Awaiting.names : Awaiting → List Text
  | term _ | bind => []
  | comparison _ name | value _ name _ => [name]

/-- Two filters that make the same of every term with one of the names. -/
def SameOn (f g : Filter) (names : List Text) : Prop :=
  ∀ name ∈ names, ∀ op value, f.term name op value = g.term name op value

/-- The name that is kept after a node was kept before it, or is the name of
the node. -/
theorem Step.names {a a' : Awaiting} {n : Node} {fs : List Fragment}
    (h : Step f a n a' fs) :
    ∀ name ∈ a'.names, name ∈ a.names ++ columnsInside n := by
  intro name hname
  cases h with
  | column => exact hname
  | comparison => exact List.mem_append_left _ hname
  | group => exact absurd hname List.not_mem_nil
  | nullCheck => exact absurd hname List.not_mem_nil
  | value => exact absurd hname List.not_mem_nil
  | bind => exact absurd hname List.not_mem_nil

mutual

theorem step_congr (p : Progress) (n : Node)
    (h : SameOn f g (p.awaiting.names ++ columnsInside n)) :
    f.step p n = g.step p n := by
  obtain ⟨awaiting, fragments⟩ := p
  cases n with
  | column name => rfl
  | operator op =>
      cases awaiting with
      | comparison b name =>
          have hterm := h name (List.mem_cons_self ..)
          simp only [step, hterm op none]
      | term b => rfl
      | value b name op' => rfl
      | bind => rfl
  | value raw =>
      cases awaiting with
      | value b name op =>
          have hterm := h name (List.mem_cons_self ..)
          simp only [step, hterm op (some raw)]
      | term b => rfl
      | comparison b name => rfl
      | bind => rfl
  | group children =>
      have hchildren : SameOn f g
          ((Awaiting.term none).names ++ columns children) :=
        fun name hname => h name (List.mem_append_right _ hname)
      simp only [step, run_congr {} children hchildren]

theorem run_congr (p : Progress) (ns : List Node)
    (h : SameOn f g (p.awaiting.names ++ columns ns)) :
    f.run p ns = g.run p ns := by
  cases ns with
  | nil => rfl
  | cons n ns =>
      have hstep : f.step p n = g.step p n := by
        refine step_congr p n fun name hname => h name ?_
        rw [columns, ← List.append_assoc]
        exact List.mem_append_left _ hname
      rw [run, run, hstep]
      cases hnext : g.step p n with
      | error e => rfl
      | ok next =>
          refine run_congr next ns fun name hname => h name ?_
          obtain ⟨fs, hnames, -⟩ := step_eq_ok_iff.1 hnext
          rw [columns, ← List.append_assoc]
          rcases List.mem_append.1 hname with hname | hname
          · exact List.mem_append_left _ (hnames.names name hname)
          · exact List.mem_append_right _ hname

end

/-- Filters that make the same of the terms of all columns among the nodes
compile the nodes alike. -/
theorem compile_congr_of_columns {ns : List Node}
    (h : SameOn f g (columns ns)) : f.compile ns = g.compile ns := by
  unfold compile
  rw [run_congr {} ns h]

end Filter
end FilterQuery
