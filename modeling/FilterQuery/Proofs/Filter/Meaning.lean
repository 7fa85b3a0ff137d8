/-
What a condition means. `Node.formula` reads a list of nodes itself as a
formula, `AND` before `OR`, with nothing for what is empty: the wildcard
without fields is false, and so is a group without terms. The condition
that is compiled from the nodes is read as a formula with the same atoms
in the same order, and both have the same truth value, whatever the values
of the atoms are (`compile_means`).

The two are not the same formula. A group with no leaf but empty ones is a
formula over falsehoods among the nodes, and one condition that is never
met in what is compiled. A formula without atoms is false, since there is
no negation (`Formula.valueFrom_of_atoms_nil`), and this is the only place
where that is needed.
-/
import FilterQuery.Proofs.Filter.Formula

namespace FilterQuery

-- ========================================================== nodes, as read

namespace Formula

/-- Operands joined to a formula, each by the operator before it. `AND`
joins the next operand to what stands before it, `OR` all that follow. -/
def chain : Formula → List (Operator × Formula) → Formula
  | φ, [] => φ
  | φ, (.or, ψ) :: rest => .or φ (chain ψ rest)
  | φ, (_, ψ) :: rest => chain (.and φ ψ) rest

/-- Operands joined; the operator before the first does not count. -/
def ofOperands : List (Operator × Formula) → Formula
  | [] => .never
  | (_, φ) :: rest => chain φ rest

end Formula

/-- A leaf by itself, as a formula. -/
def Leaf.formula (fields : Resolver) (l : Leaf) : Formula :=
  if l.isEmpty fields then .never else .atom l

namespace Node

variable (fields : Resolver)

mutual

/-- The formula of a group is that of its contents. -/
def formulaInside : Node → Formula
  | .group children => .ofOperands (operands .and children)
  | .column _ | .operator _ | .value _ => .never

/-- The terms of a list of nodes, each with the operator before it; the
one given stands before the first. -/
def operands : Operator → List Node → List (Operator × Formula)
  | _, [] => []
  | b, .column name :: .operator op :: .value raw :: ns =>
      (b, Leaf.formula fields ⟨name, op, some raw⟩) :: operands b ns
  | b, .column name :: .operator op :: ns =>
      (b, Leaf.formula fields ⟨name, op, none⟩) :: operands b ns
  | _, .operator op :: ns => operands op ns
  | b, n :: ns => (b, formulaInside n) :: operands b ns

end

/-- A list of nodes as a formula. -/
def formula (ns : List Node) : Formula := .ofOperands (operands fields .and ns)

end Node

-- ================================================================== atoms

namespace Formula

/-- A chain has the atoms of its operands, in order. -/
private theorem atoms_chain (φ : Formula) (ops : List (Operator × Formula)) :
    (chain φ ops).atoms = φ.atoms ++ ops.flatMap (·.2.atoms) := by
  induction ops generalizing φ with
  | nil => simp [chain]
  | cons p ops ih =>
      obtain ⟨op, ψ⟩ := p
      cases op <;> simp [chain, atoms, ih]

private theorem atoms_ofOperands (ops : List (Operator × Formula)) :
    (ofOperands ops).atoms = ops.flatMap (·.2.atoms) := by
  cases ops with
  | nil => rfl
  | cons p ops => exact atoms_chain p.2 ops

/-- A formula without atoms is false. -/
theorem valueFrom_of_atoms_nil {φ : Formula} (h : φ.atoms = [])
    (v : Nat → Bool) (i : Nat) : φ.valueFrom v i = false := by
  induction φ generalizing i with
  | atom l => cases h
  | never => rfl
  | and φ ψ ihφ ihψ =>
      obtain ⟨hφ, -⟩ := List.append_eq_nil_iff.1 h
      rw [valueFrom, ihφ hφ, Bool.false_and]
  | or φ ψ ihφ ihψ =>
      obtain ⟨hφ, hψ⟩ := List.append_eq_nil_iff.1 h
      rw [valueFrom, ihφ hφ, ihψ hψ, Bool.or_self]

/-- Two formulas with the same atoms, and the same value whatever the
values of the atoms are. -/
structure Same (φ ψ : Formula) : Prop where
  atoms : φ.atoms = ψ.atoms
  value : ∀ v i, φ.valueFrom v i = ψ.valueFrom v i

variable {φ φ' ψ ψ' : Formula}

theorem Same.refl (φ : Formula) : φ.Same φ := ⟨rfl, fun _ _ => rfl⟩

theorem Same.and (h : φ.Same φ') (h' : ψ.Same ψ') :
    (Formula.and φ ψ).Same (.and φ' ψ') where
  atoms := by rw [Formula.atoms, h.atoms, h'.atoms, Formula.atoms]
  value v i := by rw [valueFrom, h.value, h.atoms, h'.value, valueFrom]

theorem Same.or (h : φ.Same φ') (h' : ψ.Same ψ') :
    (Formula.or φ ψ).Same (.or φ' ψ') where
  atoms := by rw [Formula.atoms, h.atoms, h'.atoms, Formula.atoms]
  value v i := by rw [valueFrom, h.value, h.atoms, h'.value, valueFrom]

private theorem same_never (h : φ.atoms = []) : never.Same φ where
  atoms := h.symm
  value v i := (valueFrom_of_atoms_nil h v i).symm

end Formula

-- ================================================================== terms

namespace Filter

open Node

variable {f : Filter}

/-- What one term means: as it is read in a layout, and as an operand of
the nodes. -/
structure TermMeaning (f : Filter) (t : List Node) (φ ψ : Formula) :
    Prop where
  reads : Reads .factor (layout f.fields t) φ
  last : ∀ b, operands f.fields b t = [(b, ψ)]
  before : ∀ b op ns, operands f.fields b (t ++ .operator op :: ns)
    = (b, ψ) :: operands f.fields op ns
  same : φ.Same ψ
  atoms : ψ.atoms = (leaves t).filter (!·.isEmpty f.fields)

/-- What a list of nodes means: its atoms are its leaves but the empty
ones, and its layout is read as a formula that is the same. -/
structure Meaning (f : Filter) (ns : List Node) : Prop where
  atoms : (formula f.fields ns).atoms
    = (leaves ns).filter (!·.isEmpty f.fields)
  reads : allEmpty f.fields ns = false → ∃ φ,
    Reads .disjunction (layout f.fields ns) φ
      ∧ φ.Same (formula f.fields ns)

private theorem filter_leaves_of_allEmpty {fields : Resolver} {ns : List Node}
    (h : allEmpty fields ns = true) :
    (leaves ns).filter (!·.isEmpty fields) = [] := by
  rw [List.filter_eq_nil_iff]
  intro l hl
  rw [List.all_eq_true.1 h l hl]
  decide

/-- A leaf is a factor by itself. -/
private theorem reads_leaf (fields : Resolver) (l : Leaf) :
    Reads .factor [l.part fields] (l.formula fields) := by
  unfold Leaf.part Leaf.formula
  cases l.isEmpty fields
  · exact .leaf
  · exact .never

/-- Its only atom is itself, unless it is empty. -/
private theorem atoms_leaf (fields : Resolver) (l : Leaf) :
    (l.formula fields).atoms = [l].filter (!·.isEmpty fields) := by
  unfold Leaf.formula
  cases h : l.isEmpty fields <;> simp [Formula.atoms, h]

/-- A group means what its contents mean. -/
private theorem termMeaning_of_group {children : List Node}
    (h : Meaning f children) :
    ∃ φ, TermMeaning f [.group children] φ (formula f.fields children) := by
  have hlayout : layout f.fields [.group children]
      = layoutInside f.fields (.group children) := List.append_nil _
  have hleaves : leaves [.group children] = leaves children :=
    List.append_nil _
  cases hempty : allEmpty f.fields children with
  | true =>
      refine ⟨.never, ?_, fun b => rfl, fun b op ns => rfl, ?_, ?_⟩
      · rw [hlayout, layoutInside, if_pos hempty]
        exact .never
      · apply Formula.same_never
        rw [h.atoms, filter_leaves_of_allEmpty hempty]
      · rw [hleaves, h.atoms]
  | false =>
      obtain ⟨φ, hφ, hsame⟩ := h.reads hempty
      refine ⟨φ, ?_, fun b => rfl, fun b op ns => rfl, hsame, ?_⟩
      · rw [hlayout, layoutInside, if_neg (by simp [hempty])]
        exact .enclosed hφ
      · rw [hleaves, h.atoms]

/-- Every term means something, if the contents of groups do. -/
theorem TermText.meaning {t : List Node} {sql : Text}
    (h : TermText f t sql)
    (hgroups : ∀ children, .group children ∈ t → ∀ inner,
      f.compile children = .ok inner → Meaning f children) :
    ∃ φ ψ, TermMeaning f t φ ψ := by
  cases h with
  | @nullCheck name sql op hop h =>
      exact ⟨_, _, reads_leaf f.fields ⟨name, op, none⟩, fun b => rfl,
        fun b op ns => rfl, .refl _, atoms_leaf ..⟩
  | @comparison name raw sql op hop hn h =>
      exact ⟨_, _, reads_leaf f.fields ⟨name, op, some raw⟩, fun b => rfl,
        fun b op ns => rfl, .refl _, atoms_leaf ..⟩
  | @group children inner h =>
      obtain ⟨φ, hφ⟩ := termMeaning_of_group
        (hgroups children (List.mem_singleton.2 rfl) inner h)
      exact ⟨φ, _, hφ⟩

/-- The atoms of terms, whatever stands before them. -/
theorem Terms.atoms {b : Option Operator} {ns : List Node}
    {fs : List Fragment} (h : Terms f b ns fs)
    (hgroups : ∀ children, .group children ∈ ns → ∀ inner,
      f.compile children = .ok inner → Meaning f children)
    (op : Operator) :
    (operands f.fields op ns).flatMap (·.2.atoms)
      = (leaves ns).filter (!·.isEmpty f.fields) := by
  induction h generalizing op with
  | last ht =>
      obtain ⟨φ, ψ, hmeaning⟩ := ht.meaning hgroups
      rw [hmeaning.last, List.flatMap_singleton, hmeaning.atoms]
  | more ht hop hns ih =>
      obtain ⟨φ, ψ, hmeaning⟩ := ht.meaning fun children hc =>
        hgroups children (List.mem_append_left _ hc)
      rw [hmeaning.before, List.flatMap_cons, hmeaning.atoms,
        ih fun children hc => hgroups children
          (List.mem_append_right _ (List.mem_cons_of_mem _ hc)),
        ht.leaves_append, List.filter_append]

/-- Terms behind a conjunction and a bind operator. An `AND` takes the
first of them into the conjunction, an `OR` ends it. -/
theorem Terms.extend {b : Option Operator} {ns : List Node}
    {fs : List Fragment} (h : Terms f b ns fs)
    (hgroups : ∀ children, .group children ∈ ns → ∀ inner,
      f.compile children = .ok inner → Meaning f children)
    {xs : List Part} {φ ψ : Formula} (hxs : Reads .conjunction xs φ)
    (hsame : φ.Same ψ) {op : Operator} (hop : op.isBind = true) :
    ∃ χ, Reads .disjunction (xs ++ .bind op :: layout f.fields ns) χ
      ∧ χ.Same (.chain ψ (operands f.fields op ns)) := by
  induction h generalizing xs φ ψ op with
  | last ht =>
      obtain ⟨φt, ψt, hmeaning⟩ := ht.meaning hgroups
      rw [hmeaning.last]
      cases op with
      | and =>
          exact ⟨_, .conjunction (.and hxs hmeaning.reads),
            hsame.and hmeaning.same⟩
      | or =>
          exact ⟨_, .or hxs (.conjunction (.factor hmeaning.reads)),
            hsame.or hmeaning.same⟩
      | _ => cases hop
  | @more b t ns sql op' fs ht hop' hns ih =>
      obtain ⟨φt, ψt, hmeaning⟩ := ht.meaning fun children hc =>
        hgroups children (List.mem_append_left _ hc)
      have ih := @ih fun children hc => hgroups children
        (List.mem_append_right _ (List.mem_cons_of_mem _ hc))
      rw [hmeaning.before, ht.layout_append]
      cases op with
      | and =>
          -- The conjunction goes on.
          obtain ⟨χ, hχ, hchain⟩ := ih (.and hxs hmeaning.reads)
            (hsame.and hmeaning.same) hop'
          refine ⟨χ, ?_, hchain⟩
          simpa using hχ
      | or =>
          -- The conjunction ends here, and another one starts.
          obtain ⟨χ, hχ, hchain⟩ := ih (.factor hmeaning.reads)
            hmeaning.same hop'
          exact ⟨_, .or hxs hχ, hsame.or hchain⟩
      | _ => cases hop

/-- Terms that are joined mean what the tree means, if each group among them
does. -/
theorem Terms.meaning {b : Option Operator} {ns : List Node}
    {fs : List Fragment} (h : Terms f b ns fs)
    (hgroups : ∀ children, .group children ∈ ns → ∀ inner,
      f.compile children = .ok inner → Meaning f children) :
    Meaning f ns where
  atoms := by
    rw [formula, Formula.atoms_ofOperands]
    exact h.atoms hgroups .and
  reads _ := by
    cases h with
    | last ht =>
        obtain ⟨φ, ψ, hmeaning⟩ := ht.meaning hgroups
        refine ⟨φ, .conjunction (.factor hmeaning.reads), ?_⟩
        rw [formula, hmeaning.last]
        exact hmeaning.same
    | more ht hop hns =>
        obtain ⟨φ, ψ, hmeaning⟩ := ht.meaning fun children hc =>
          hgroups children (List.mem_append_left _ hc)
        rw [formula, hmeaning.before, ht.layout_append]
        exact hns.extend
          (fun children hc => hgroups children
            (List.mem_append_right _ (List.mem_cons_of_mem _ hc)))
          (.factor hmeaning.reads) hmeaning.same hop

/-- Whatever is compiled means something. -/
theorem meaning_of_compile {ns : List Node} {sql : Text}
    (h : f.compile ns = .ok sql) : Meaning f ns :=
  compile_induction (P := fun ns _ => Meaning f ns)
    ⟨rfl, fun hne => Bool.noConfusion hne⟩
    (fun _ _ hterms hgroups => hterms.meaning hgroups) h

/-- The leaves of a layout are leaves of the nodes, and not empty. -/
theorem leaf_mem_layout {ns : List Node} {sql : Text}
    (h : f.compile ns = .ok sql) (hempty : allEmpty f.fields ns = false)
    {l : Leaf} (hl : .leaf l ∈ layout f.fields ns) :
    l ∈ leaves ns ∧ l.isEmpty f.fields = false := by
  have hmeaning := meaning_of_compile h
  obtain ⟨φ, hreads, hsame⟩ := hmeaning.reads hempty
  have hatom := hreads.mem_atoms hl
  rw [hsame.atoms, hmeaning.atoms, List.mem_filter] at hatom
  simpa using hatom

-- =============================================================== the result

/-- A condition is empty exactly when every leaf is the wildcard without
fields. Otherwise it is its layout, part by part, with the conditions of
the leaves; the layout can be read in one way, its atoms are all the leaves
but the empty ones, in order, and it has the truth value of the nodes. -/
theorem compile_means {ns : List Node} {sql : Text}
    (h : f.compile ns = .ok sql) :
    (sql = [] ↔ ∀ l ∈ leaves ns,
        key l.name = ['*'] ∧ f.fields.searchable = [])
      ∧ (sql ≠ [] → sql = (layout f.fields ns).flatMap f.write
        ∧ (∀ l ∈ leaves ns,
            f.term l.name l.op l.value = .ok (f.fragment l)
              ∧ (f.fragment l = [] ↔ l.isEmpty f.fields = true))
        ∧ ∃ φ, (∀ ψ, Reads .disjunction (layout f.fields ns) ψ ↔ ψ = φ)
          ∧ φ.atoms = (leaves ns).filter (!·.isEmpty f.fields)
          ∧ (formula f.fields ns).atoms = φ.atoms
          ∧ ∀ v, φ.value v = (formula f.fields ns).value v) := by
  have hlaid := compile_laid h
  have hmeaning := meaning_of_compile h
  constructor
  · rw [hlaid.empty, allEmpty, List.all_eq_true]
    simp only [Leaf.isEmpty, Bool.and_eq_true, beq_iff_eq,
      List.isEmpty_iff]
  · intro hne
    refine ⟨hlaid.text hne, fun l hl => ?_, ?_⟩
    · have hterm := hlaid.leaves l hl
      exact ⟨hterm, term_eq_nil_iff hterm⟩
    · have hempty : allEmpty f.fields ns = false :=
        Bool.eq_false_iff.2 (hne ∘ hlaid.empty.2)
      obtain ⟨φ, hreads, hsame⟩ := hmeaning.reads hempty
      refine ⟨φ, fun ψ => ⟨fun hψ => hψ.unique hreads, ?_⟩, ?_, ?_, ?_⟩
      · rintro rfl
        exact hreads
      · rw [hsame.atoms, hmeaning.atoms]
      · exact hsame.atoms.symm
      · exact fun v => hsame.value v 0

/-- Without searchable fields: an empty wildcard keeps its `OR`, and so
does a group that holds an empty wildcard and an empty group. -/
theorem compile_means_beside_empty :
    let f : Filter :=
      { fields := .ofFields [⟨['a'], .integer, false⟩],
        quoter := Dialect.ansi.quoter }
    let ns : List Node :=
      [.column ['*'], .operator .eq, .value ['1'], .operator .or,
        .column ['a'], .operator .eq, .value ['2'], .operator .and,
        .group [.column ['*'], .operator .eq, .value ['3'],
          .operator .and, .group []]]
    let sql := "(1=0) OR \"a\" = 2 AND (1=0)".toList
    f.compile ns = .ok sql
      ∧ sql = (layout f.fields ns).flatMap f.write
      ∧ ∀ φ, Reads .disjunction (layout f.fields ns) φ →
          φ.atoms = [⟨['a'], .eq, some ['2']⟩]
            ∧ φ.value (fun _ => true) = false := by
  intro f ns sql
  have hsql : f.compile ns = .ok sql := rfl
  obtain ⟨htext, -, φ, hφ, hatoms, -, hvalue⟩ :=
    (compile_means hsql).2 (by decide)
  refine ⟨hsql, htext, fun ψ hψ => ?_⟩
  obtain rfl := (hφ ψ).1 hψ
  exact ⟨hatoms, hvalue _⟩

end Filter
end FilterQuery
