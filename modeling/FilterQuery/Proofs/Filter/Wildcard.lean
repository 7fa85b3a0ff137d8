/-
The wildcard as an abbreviation. A wildcard with its comparison says what
a group says in which every searchable field stands with the same
comparison, in their order, joined by `OR`. Written out like that, at any
depth and among any other nodes, it changes neither the condition nor the
error (`compile_expanded`).

The two are compiled by different means: the wildcard by a list of
predicates that is joined and put in parentheses, the group by the steps of
the compiler, a look-up for each id, and fragments. So the fields must be
found under their own ids (`term_of_key`), and no predicate may be
empty, or the group would hold a condition that is never met.
-/
import FilterQuery.Proofs.Filter.Faults
import FilterQuery.Proofs.Filter.Layout

namespace FilterQuery

-- ================================================================= expansion

namespace Node

/-- A column with its comparison, and the value where there is one. -/
def comparing (name : Text) (op : Operator) (value : Option Text) :
    List Node :=
  .column name :: .operator op :: (value.map Node.value).toList

/-- Every field with the same comparison, joined by `OR`. -/
def anyOf (op : Operator) (value : Option Text) : List Field → List Node
  | [] => []
  | [field] => comparing field.id op value
  | field :: other :: fields =>
      comparing field.id op value
        ++ .operator .or :: anyOf op value (other :: fields)

/-- Nodes behind which a term is expected: none, or some that end in a bind
operator. -/
def AwaitTerm (ns : List Node) : Prop :=
  ns = [] ∨ ∃ before op, op.isBind = true ∧ ns = before ++ [.operator op]

/-- A list of nodes, and the list in which one wildcard of it, somewhere, is
written out as the group of all searchable fields. -/
inductive Expanded (fields : List Field) :
    List Node → List Node → Prop where
  | here {before after : List Node} {op : Operator} {value : Option Text}
      (hbefore : AwaitTerm before) (hop : op.isComparison = true)
      (hvalue : value = none ↔ op.isNullCheck = true) :
      Expanded fields (before ++ (comparing ['*'] op value ++ after))
        (before ++ .group (anyOf op value (fields.filter (·.searchable)))
          :: after)
  | inside {before after children children' : List Node}
      (h : Expanded fields children children') :
      Expanded fields (before ++ .group children :: after)
        (before ++ .group children' :: after)

end Node

namespace Filter

open Node

variable {f : Filter} {op : Operator} {value : Option Text}

-- ================================================================= the group

/-- A column with its comparison is looked up, and the rest follows if it
is admitted. -/
private theorem compileFrom_comparing (hop : op.isComparison = true)
    (hvalue : value = none ↔ op.isNullCheck = true) (b : Option Operator)
    (fs : List Fragment) (name : Text) (ms : List Node) :
    f.compileFrom ⟨.term b, fs⟩ (comparing name op value ++ ms)
      = f.term name op value
          >>= fun sql => f.compileFrom ⟨.bind, fs ++ [⟨b, sql⟩]⟩ ms := by
  cases value with
  | none => exact compileFrom_nullCheck b fs ms (hvalue.1 rfl) name
  | some raw =>
      have hn : op.isNullCheck = false := by
        cases hn : op.isNullCheck with
        | false => rfl
        | true => cases hvalue.2 hn
      exact compileFrom_value b fs ms hop hn name raw

/-- Fragments that are joined by `OR`, the first behind what is given. -/
def alternatives (b : Option Operator) : List Text → List Fragment
  | [] => []
  | sql :: sqls => ⟨b, sql⟩ :: sqls.map fun s => ⟨some .or, s⟩

private theorem alternatives_or (parts : List Text) :
    alternatives (some .or) parts = parts.map fun s => ⟨some .or, s⟩ := by
  cases parts <;> rfl

/-- Fields that are found under their ids are compiled to their predicates,
and refused for the first of these that is. -/
theorem compileFrom_anyOf {v : Text} (hop : op.isComparison = true)
    (hvalue : value = none ↔ op.isNullCheck = true) {fields : List Field}
    (hne : fields ≠ [])
    (hfields : ∀ field ∈ fields,
      f.term field.id op value = f.fieldPredicate field op v)
    (b : Option Operator) (fs : List Fragment) :
    f.compileFrom ⟨.term b, fs⟩ (anyOf op value fields)
      = fields.mapM (f.fieldPredicate · op v)
          >>= fun parts => .ok (join (fs ++ alternatives b parts)) := by
  induction fields generalizing b fs with
  | nil => exact absurd rfl hne
  | cons field fields ih =>
      have hfield := hfields field (List.mem_cons_self ..)
      cases fields with
      | nil =>
          rw [anyOf, ← List.append_nil (comparing ..),
            compileFrom_comparing hop hvalue, hfield, List.mapM_cons]
          cases f.fieldPredicate field op v <;> rfl
      | cons other fields =>
          have ih := ih (List.cons_ne_nil _ _) fun g hg =>
            hfields g (List.mem_cons_of_mem _ hg)
          -- Between two alternatives there is one step, over the operator.
          have hor : ∀ gs, f.compileFrom ⟨.bind, gs⟩
              (.operator .or :: anyOf op value (other :: fields))
                = f.compileFrom ⟨.term (some .or), gs⟩
                    (anyOf op value (other :: fields)) := by
            intro gs
            rw [compileFrom_cons, step]
            rfl
          rw [anyOf, compileFrom_comparing hop hvalue, hfield,
            List.mapM_cons]
          simp only [hor, ih]
          cases f.fieldPredicate field op v with
          | error e => rfl
          | ok sql =>
              cases (other :: fields).mapM (f.fieldPredicate · op v) with
              | error e => rfl
              | ok parts =>
                  show Except.ok (join (fs ++ [⟨b, sql⟩]
                      ++ alternatives (some .or) parts)) = .ok (join _)
                  rw [alternatives_or, List.append_assoc]
                  rfl

/-- Conditions that ask for something, joined by `OR`. -/
private theorem join_alternatives {parts : List Text}
    (h : ∀ sql ∈ parts, sql ≠ []) :
    join (alternatives none parts) = Text.join " OR ".toList parts := by
  cases parts with
  | nil => rfl
  | cons sql sqls =>
      have hcondition : ∀ s ∈ sql :: sqls, ∀ b,
          Fragment.condition ⟨b, s⟩ = s := by
        intro s hs b
        exact if_neg (by simpa using h s hs)
      have hne : ¬(alternatives none (sql :: sqls)).all (·.sql.isEmpty) := by
        have hsql := h sql (List.mem_cons_self ..)
        simp [alternatives, hsql]
      rw [alternatives] at hne ⊢
      rw [join, if_neg hne, Text.join,
        hcondition sql (List.mem_cons_self ..), List.flatMap_map]
      congr 1
      refine List.flatMap_congr fun s hs => ?_
      rw [Fragment.continuation,
        hcondition s (List.mem_cons_of_mem _ hs)]
      rfl

/-- A wildcard is what the group of the searchable fields is. -/
theorem term_wildcard (hop : op.isComparison = true)
    (hvalue : value = none ↔ op.isNullCheck = true)
    (hne : f.fields.searchable ≠ [])
    (hfields : ∀ field ∈ f.fields.searchable,
      f.term field.id op value
        = f.fieldPredicate field op ((value.map Text.unquote).getD [])) :
    f.term ['*'] op value
      = f.compile (anyOf op value f.fields.searchable)
          >>= fun sql => .ok (grouped sql) := by
  have hkey : key ['*'] = ['*'] := by decide
  have hcompile := compileFrom_anyOf hop hvalue hne hfields none []
  unfold term wildcard
  rw [if_pos hkey]
  show _ = f.compileFrom ⟨.term none, []⟩ _ >>= _
  rw [hcompile]
  cases hparts : f.fields.searchable.mapM
      (f.fieldPredicate · op ((value.map Text.unquote).getD [])) with
  | error e => rfl
  | ok parts =>
      obtain rfl := eq_map_comparison_of_mapM hparts
      have hall : ∀ sql ∈ f.fields.searchable.map (f.comparison · op
          ((value.map Text.unquote).getD [])), sql ≠ [] := by
        intro sql hsql
        obtain ⟨field, -, rfl⟩ := List.mem_map.1 hsql
        exact comparison_ne_nil _ _ _
      obtain ⟨field, fields, hcons⟩ := List.exists_cons_of_ne_nil hne
      show _ = Except.ok (grouped (join (alternatives none _)))
      rw [join_alternatives hall, hcons, List.map_cons, Text.join, grouped,
        if_neg (by simp [comparison_ne_nil])]
      rfl

-- ============================================================== the context

/-- Where a term is expected, the compiler awaits one, if it gets there. -/
theorem awaiting_of_awaitTerm {ns : List Node} {p : Progress}
    (h : AwaitTerm ns) (hrun : f.run {} ns = .ok p) :
    ∃ b, p.awaiting = .term b := by
  rcases h with rfl | ⟨before, op, hop, rfl⟩
  · rw [run] at hrun
    obtain rfl := Except.ok.inj hrun
    exact ⟨none, rfl⟩
  · rw [run_append] at hrun
    cases hbefore : f.run {} before with
    | error e =>
        rw [hbefore] at hrun
        cases hrun
    | ok q =>
        rw [hbefore] at hrun
        obtain ⟨next, hstep, hnil⟩ := run_cons_eq_ok.1 hrun
        rw [run] at hnil
        obtain rfl := Except.ok.inj hnil
        obtain ⟨fs, hstep, -⟩ := step_eq_ok_iff.1 hstep
        generalize q.awaiting = a at hstep
        generalize next.awaiting = a' at hstep ⊢
        cases hstep with
        | bind => exact ⟨_, rfl⟩
        | nullCheck hnull =>
            have hcomparison := Operator.isComparison_of_isNullCheck hnull
            simp [Operator.isComparison, hop] at hcomparison
        | comparison hcomparison =>
            simp [Operator.isComparison, hop] at hcomparison

/-- Groups that are compiled alike are passed over alike. -/
private theorem step_group_congr {children children' : List Node}
    (h : f.compile children' = f.compile children) (p : Progress) :
    f.step p (.group children') = f.step p (.group children) := by
  obtain ⟨awaiting, fs⟩ := p
  cases awaiting with
  | term b => rw [step_group, step_group, h]
  | comparison b name => rfl
  | value b name op => rfl
  | bind => rfl

/-- Where fields have ids of their own, and those that are searchable can
be named by them, nothing depends on whether a wildcard is written out: not
the condition, and not the error. -/
theorem compile_expanded {fields : List Field}
    (hids : (fields.map (·.id)).Nodup)
    (hsome : ∃ field ∈ fields, field.searchable = true)
    (hplain : ∀ field ∈ fields, field.searchable = true → field.IsPlain)
    (hf : f.fields = .ofFields fields) {ns ms : List Node}
    (h : Expanded fields ns ms) : f.compile ms = f.compile ns := by
  induction h with
  | @here before after op value hbefore hop hvalue =>
      have hsearchable :
          f.fields.searchable = fields.filter (·.searchable) := by
        rw [hf]
        rfl
      have hne : f.fields.searchable ≠ [] := by
        obtain ⟨field, hmem, hfield⟩ := hsome
        rw [hsearchable]
        exact List.ne_nil_of_mem (List.mem_filter.2 ⟨hmem, hfield⟩)
      -- No two fields have one id, so each name finds its own field.
      have hterm := term_wildcard hop hvalue hne fun field hfield => by
        rw [hsearchable] at hfield
        obtain ⟨hmem, hfield⟩ := List.mem_filter.1 hfield
        have hplain := hplain field hmem hfield
        exact term_of_key hf (.of_nodup hids hmem) hplain hplain.key_eq op
          value
      rw [compile_append, compile_append]
      cases hrun : f.run {} before with
      | error e => rfl
      | ok p =>
          obtain ⟨awaiting, fs⟩ := p
          obtain ⟨b, rfl⟩ := awaiting_of_awaitTerm hbefore hrun
          show f.compileFrom ⟨.term b, fs⟩ _ = f.compileFrom ⟨.term b, fs⟩ _
          rw [compileFrom_group, compileFrom_comparing hop hvalue, hterm,
            bind_assoc, hsearchable]
          rfl
  | @inside before after children children' h ih =>
      rw [compile_append, compile_append]
      refine congrArg _ (funext fun p => ?_)
      rw [compileFrom_cons, compileFrom_cons, step_group_congr ih]

/-- A wildcard in a group behind a term, with an operator that both fields
admit and with one that the second does not. -/
theorem compile_expanded_nested :
    let fields : List Field :=
      [⟨"name".toList, .varchar, true⟩, ⟨"age".toList, .integer, false⟩,
        ⟨"height".toList, .decimal, true⟩]
    let f : Filter :=
      { fields := .ofFields fields, quoter := Dialect.ansi.quoter }
    let within (ns : List Node) : List Node :=
      [.column "age".toList, .operator .eq, .value ['1'], .operator .and,
        .group ns]
    let wildcard (op : Operator) : List Node :=
      [.column ['*'], .operator op, .value ['x']]
    let group (op : Operator) : List Node :=
      [.group [.column "name".toList, .operator op, .value ['x'],
        .operator .or, .column "height".toList, .operator op,
        .value ['x']]]
    f.compile (within (group .eq))
        = f.compile (within (wildcard .eq))
      ∧ f.compile (within (wildcard .eq))
        = .ok "\"age\" = 1 AND ((\"name\" = 'x' OR \"height\" = 0))".toList
      ∧ f.compile (within (group .like))
        = f.compile (within (wildcard .like))
      ∧ f.compile (within (wildcard .like))
        = .error (.invalidOperator .like "height".toList .decimal) := by
  intro fields f within wildcard group
  have hplain : ∀ field ∈ fields, field.searchable = true →
      field.IsPlain := by
    decide
  have hexpanded : ∀ op, op.isComparison = true → op.isNullCheck = false →
      f.compile (within (group op))
        = f.compile (within (wildcard op)) := by
    intro op hop hn
    have hsome : ∃ field ∈ fields, field.searchable = true :=
      ⟨_, List.mem_cons_self .., rfl⟩
    refine @compile_expanded f fields (by decide) hsome hplain rfl _ _ ?_
    have hvalue : some ['x'] = none ↔ op.isNullCheck = true := by simp [hn]
    exact @Expanded.inside fields [_, _, _, _] [] _ _
      (@Expanded.here fields [] [] op _ (Or.inl rfl) hop hvalue)
  exact ⟨hexpanded .eq rfl rfl, rfl, hexpanded .like rfl rfl, rfl⟩

end Filter
end FilterQuery
