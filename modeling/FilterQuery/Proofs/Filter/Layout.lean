/-
The layout of a condition: which comparisons, bind operators and
parentheses it is made of, and in which order. The layout is told by the
nodes and by what the wildcard stands for, and by nothing that a quoter
writes; every comparison in it is a single part, whatever its text is.

A leaf is empty when it is the wildcard and no field is searchable. A term
without any other leaf, so also a group that holds no other, keeps its
place and its bind operator in the layout and is the condition that is
never met. Every other leaf is there, in order, and so are the parentheses
of every other group.

`compile_laid` ties the layout to what is compiled: the condition is empty
exactly when all leaves are, and otherwise it is its layout, part by part.
-/
import FilterQuery.Proofs.Filter.Leaves
import FilterQuery.Proofs.Sql.Structure

namespace FilterQuery

/-- One part of a condition, with a comparison as a whole. -/
inductive Part where
  | leaf (l : Leaf)
  /-- The condition that is never met. -/
  | never
  | bind (op : Operator)
  | opening
  | closing
  deriving DecidableEq, Repr

/-- The wildcard, where it stands for no field. -/
def Leaf.isEmpty (fields : Resolver) (l : Leaf) : Bool :=
  Filter.key l.name == ['*'] && fields.searchable.isEmpty

/-- A leaf in a condition. -/
def Leaf.part (fields : Resolver) (l : Leaf) : Part :=
  if l.isEmpty fields then .never else .leaf l

namespace Node

variable (fields : Resolver)

/-- No leaf asks for anything. -/
def allEmpty (ns : List Node) : Bool :=
  (leaves ns).all (·.isEmpty fields)

mutual

/-- The layout of a group: in parentheses, unless all its leaves are
empty. -/
def layoutInside : Node → List Part
  | .group children =>
      if allEmpty fields children then [.never]
      else .opening :: (layout children ++ [.closing])
  | .column _ | .operator _ | .value _ => []

/-- The layout of a list of nodes: terms and bind operators where they
stand. -/
def layout : List Node → List Part
  | [] => []
  | .column name :: .operator op :: .value raw :: ns =>
      Leaf.part fields ⟨name, op, some raw⟩ :: layout ns
  | .column name :: .operator op :: ns =>
      Leaf.part fields ⟨name, op, none⟩ :: layout ns
  | .operator op :: ns => .bind op :: layout ns
  | n :: ns => layoutInside n ++ layout ns

end

end Node

namespace Filter

/-- The condition of a leaf by itself. -/
def fragment (f : Filter) (l : Leaf) : Text :=
  match f.term l.name l.op l.value with
  | .ok sql => sql
  | .error _ => []

/-- The text of a part. -/
def write (f : Filter) : Part → Text
  | .leaf l => f.fragment l
  | .never => noMatch
  | .bind op => ' ' :: op.spelling ++ [' ']
  | .opening => ['(']
  | .closing => [')']

variable {f : Filter}

-- ============================================================= one leaf

private theorem nullTest_ne_nil (field : Field) (missing : Bool) :
    f.nullTest field missing ≠ [] := by
  unfold nullTest
  dsimp only
  split
  · exact List.append_ne_nil_of_right_ne_nil _ (by cases missing <;> decide)
  · split
    · exact List.append_ne_nil_of_right_ne_nil _
        (by cases missing <;> decide)
    · split <;> exact List.cons_ne_nil _ _

theorem comparison_ne_nil (field : Field) (op : Operator) (value : Text) :
    f.comparison field op value ≠ [] := by
  unfold comparison
  cases op with
  | isNull => exact nullTest_ne_nil field true
  | isNotNull => exact nullTest_ne_nil field false
  | _ => exact List.append_ne_nil_of_right_ne_nil _ (List.cons_ne_nil _ _)

theorem eq_comparison_of_fieldPredicate {field : Field} {op : Operator}
    {value sql : Text} (h : f.fieldPredicate field op value = .ok sql) :
    sql = f.comparison field op value := by
  unfold fieldPredicate at h
  split at h
  · exact (Except.ok.inj h).symm
  · cases h

/-- The predicates of several fields are their comparisons. -/
theorem eq_map_comparison_of_mapM {op : Operator} {value : Text}
    {fields : List Field} {parts : List Text}
    (h : fields.mapM (f.fieldPredicate · op value) = .ok parts) :
    parts = fields.map (f.comparison · op value) := by
  induction fields generalizing parts with
  | nil => exact (Except.ok.inj h).symm
  | cons field fields ih =>
      obtain ⟨sql, rest, hsql, hrest, rfl⟩ := mapM_cons_eq_ok_iff.1 h
      rw [ih hrest, eq_comparison_of_fieldPredicate hsql, List.map_cons]

/-- The conditions of a leaf: nothing for the wildcard without a field, the
comparisons of all searchable fields for any other wildcard, and else the
comparison of its field. -/
theorem term_eq_ok_cases {name : Text} {op : Operator} {value : Option Text}
    {sql : Text} (h : f.term name op value = .ok sql) :
    let v := (value.map Text.unquote).getD []
    (key name = ['*'] ∧ f.fields.searchable = [] ∧ sql = [])
    ∨ (key name = ['*'] ∧ f.fields.searchable ≠ []
        ∧ sql = '(' :: Text.join " OR ".toList
            (f.fields.searchable.map (f.comparison · op v)) ++ [')'])
    ∨ (key name ≠ ['*'] ∧ ∃ field, f.fields.find? (key name) = some field
        ∧ sql = f.comparison field op v) := by
  intro v
  unfold term at h
  dsimp only at h
  split at h
  case isTrue hkey =>
    obtain ⟨parts, hparts, hsql⟩ := bind_eq_ok_iff.1 h
    obtain rfl := eq_map_comparison_of_mapM hparts
    cases hfields : f.fields.searchable with
    | nil =>
        rw [hfields] at hsql
        exact Or.inl ⟨hkey, rfl, (Except.ok.inj hsql).symm⟩
    | cons field fields =>
        rw [hfields] at hsql
        exact Or.inr (Or.inl
          ⟨hkey, List.cons_ne_nil _ _, (Except.ok.inj hsql).symm⟩)
  case isFalse hkey =>
    cases hfield : f.fields.find? (key name) with
    | none => simp [hfield] at h
    | some field =>
        simp only [hfield] at h
        exact Or.inr (Or.inr
          ⟨hkey, field, rfl, eq_comparison_of_fieldPredicate h⟩)

/-- The condition of a leaf is empty exactly for an empty leaf. -/
theorem term_eq_nil_iff {l : Leaf} {sql : Text}
    (h : f.term l.name l.op l.value = .ok sql) :
    sql = [] ↔ l.isEmpty f.fields = true := by
  unfold Leaf.isEmpty
  rcases term_eq_ok_cases h with ⟨hkey, hnone, rfl⟩ | ⟨hkey, hsome, rfl⟩
    | ⟨hkey, field, -, rfl⟩
  · simp [hkey, hnone]
  · simp [hsome]
  · simp [hkey, comparison_ne_nil]

private theorem term_eq_fragment {l : Leaf} {sql : Text}
    (h : f.term l.name l.op l.value = .ok sql) : sql = f.fragment l := by
  unfold fragment
  rw [h]

/-- A leaf is written as its part. -/
theorem write_part {l : Leaf} {sql : Text}
    (h : f.term l.name l.op l.value = .ok sql) (b : Option Operator) :
    Fragment.condition ⟨b, sql⟩ = f.write (l.part f.fields) := by
  unfold Leaf.part
  by_cases hempty : l.isEmpty f.fields = true
  · obtain rfl := (term_eq_nil_iff h).2 hempty
    rw [if_pos hempty]
    rfl
  · rw [if_neg hempty,
      Sql.condition_of_ne_nil (hempty ∘ (term_eq_nil_iff h).1)]
    exact term_eq_fragment h

-- ================================================================ terms

open Node

/-- A bind operator ends the layout of the term before it. -/
theorem TermText.layout_append {t : List Node} {sql : Text}
    (h : TermText f t sql) (op : Operator) (ns : List Node) :
    layout f.fields (t ++ .operator op :: ns)
      = layout f.fields t ++ .bind op :: layout f.fields ns := by
  cases h with
  | nullCheck => rfl
  | comparison => rfl
  | group =>
      show layoutInside f.fields _ ++ .bind op :: layout f.fields ns
        = (layoutInside f.fields _ ++ []) ++ _
      rw [List.append_nil]

theorem TermText.leaves_append {t : List Node} {sql : Text}
    (h : TermText f t sql) (op : Operator) (ns : List Node) :
    leaves (t ++ .operator op :: ns) = leaves t ++ leaves ns := by
  cases h with
  | nullCheck => rfl
  | comparison => rfl
  | group =>
      show leavesInside _ ++ leaves ns = (leavesInside _ ++ []) ++ leaves ns
      rw [List.append_nil]

private theorem allEmpty_leaf {fields : Resolver} {ns : List Node} {l : Leaf}
    (h : leaves ns = [l]) : allEmpty fields ns = l.isEmpty fields := by
  unfold allEmpty
  rw [h, List.all_cons, List.all_nil, Bool.and_true]

/-- What the layout of nodes says about their condition. -/
structure Laid (f : Filter) (ns : List Node) (sql : Text) : Prop where
  empty : sql = [] ↔ allEmpty f.fields ns = true
  text : sql ≠ [] → sql = (layout f.fields ns).flatMap f.write
  leaves : ∀ l ∈ leaves ns, f.term l.name l.op l.value = .ok (f.fragment l)

/-- The same for one term, whose condition stands beside others. -/
structure LaidTerm (f : Filter) (t : List Node) (sql : Text) : Prop where
  empty : sql = [] ↔ allEmpty f.fields t = true
  text : ∀ b, Fragment.condition ⟨b, sql⟩
    = (layout f.fields t).flatMap f.write
  leaves : ∀ l ∈ Node.leaves t, f.term l.name l.op l.value
    = .ok (f.fragment l)

private theorem laidTerm_of_leaf {t : List Node} {l : Leaf} {sql : Text}
    (hleaves : Node.leaves t = [l])
    (hlayout : layout f.fields t = [l.part f.fields])
    (h : f.term l.name l.op l.value = .ok sql) : LaidTerm f t sql where
  empty := by rw [allEmpty_leaf hleaves, term_eq_nil_iff h]
  text b := by rw [hlayout, List.flatMap_singleton, write_part h]
  leaves m hm := by
    rw [hleaves] at hm
    obtain rfl := List.mem_singleton.1 hm
    rw [h, term_eq_fragment h]

private theorem allEmpty_group (fields : Resolver) (children : List Node) :
    allEmpty fields [.group children] = allEmpty fields children := by
  unfold allEmpty
  rw [leaves_group]
  show ((Node.leaves children) ++ []).all _ = _
  rw [List.append_nil]

private theorem laidTerm_of_group {children : List Node} {sql : Text}
    (h : Laid f children sql) :
    LaidTerm f [.group children] (grouped sql) where
  empty := by
    rw [allEmpty_group, ← h.empty]
    cases sql <;> simp [grouped]
  text b := by
    show _ = (layoutInside f.fields (.group children) ++ []).flatMap f.write
    rw [List.append_nil, layoutInside]
    by_cases hempty : allEmpty f.fields children = true
    · obtain rfl := h.empty.2 hempty
      rw [if_pos hempty]
      rfl
    · have hne : sql ≠ [] := hempty ∘ h.empty.1
      have htext := h.text hne
      rw [if_neg hempty, List.flatMap_cons, List.flatMap_append, ← htext]
      cases sql with
      | nil => exact absurd rfl hne
      | cons c sql => rfl
  leaves l hl := by
    rw [leaves_group] at hl
    exact h.leaves l (by simpa [Node.leaves] using hl)

/-- Every term is laid out, if the contents of groups are. -/
theorem TermText.laid {t : List Node} {sql : Text} (h : TermText f t sql)
    (hgroups : ∀ children, .group children ∈ t → ∀ inner,
      f.compile children = .ok inner → Laid f children inner) :
    LaidTerm f t sql := by
  cases h with
  | nullCheck hop h =>
      exact @laidTerm_of_leaf f _ ⟨_, _, none⟩ _ rfl rfl h
  | @comparison name raw _ op hop hn h =>
      exact @laidTerm_of_leaf f _ ⟨name, op, some raw⟩ _ rfl rfl h
  | @group children inner h =>
      exact laidTerm_of_group
        (hgroups children (List.mem_singleton.2 rfl) inner h)

/-- Terms are laid out one after another. -/
theorem Terms.laid {b : Option Operator} {ns : List Node}
    {fs : List Fragment} (h : Terms f b ns fs)
    (hgroups : ∀ children, .group children ∈ ns → ∀ inner,
      f.compile children = .ok inner → Laid f children inner) :
    ∃ sql ps, fs = ⟨b, sql⟩ :: ps
      ∧ fs.all (·.sql.isEmpty) = allEmpty f.fields ns
      ∧ Sql.written ⟨b, sql⟩ ps = (layout f.fields ns).flatMap f.write
      ∧ ∀ l ∈ Node.leaves ns, f.term l.name l.op l.value
          = .ok (f.fragment l) := by
  induction h with
  | @last b t sql ht =>
      have hlaid := ht.laid hgroups
      refine ⟨sql, [], rfl, ?_, ?_, hlaid.leaves⟩
      · rw [List.all_cons, List.all_nil, Bool.and_true, Bool.eq_iff_iff,
          List.isEmpty_iff]
        exact hlaid.empty
      · rw [← hlaid.text b, Sql.written, List.flatMap_nil, List.append_nil]
  | @more b t ns sql op fs ht hop hns ih =>
      have hlaid := ht.laid fun children hc =>
        hgroups children (List.mem_append_left _ hc)
      obtain ⟨sql', ps, rfl, hempty, htext, hleaves⟩ := ih
        fun children hc => hgroups children
          (List.mem_append_right _ (List.mem_cons_of_mem _ hc))
      refine ⟨sql, _, rfl, ?_, ?_, ?_⟩
      · unfold allEmpty at hempty ⊢
        rw [List.all_cons, hempty, ht.leaves_append, List.all_append]
        congr 1
        rw [Bool.eq_iff_iff, List.isEmpty_iff]
        exact hlaid.empty
      · rw [Sql.written_cons, htext, hlaid.text, ht.layout_append,
          List.flatMap_append, List.flatMap_cons]
        simp [write]
      · rw [ht.leaves_append]
        intro l hl
        rcases List.mem_append.1 hl with hl | hl
        · exact hlaid.leaves l hl
        · exact hleaves l hl

private theorem condition_ne_nil (p : Fragment) : p.condition ≠ [] := by
  unfold Fragment.condition
  split
  · decide
  · rename_i h
    exact fun hnil => h (List.isEmpty_iff.2 hnil)

/-- Fragments are joined to nothing exactly where all are empty. -/
theorem join_eq_nil_iff {fs : List Fragment} :
    join fs = [] ↔ fs.all (·.sql.isEmpty) = true := by
  cases fs with
  | nil => exact ⟨fun _ => rfl, fun _ => rfl⟩
  | cons p ps =>
      by_cases hall : (p :: ps).all (·.sql.isEmpty) = true
      · exact ⟨fun _ => hall, fun _ => if_pos hall⟩
      · rw [show join (p :: ps) = _ from if_neg hall]
        constructor
        · exact fun hnil =>
            absurd (List.append_eq_nil_iff.1 hnil).1 (condition_ne_nil p)
        · exact fun h => absurd h hall

/-- Whatever is compiled is laid out. -/
theorem compile_laid {ns : List Node} {sql : Text}
    (h : f.compile ns = .ok sql) : Laid f ns sql := by
  refine compile_induction ?_ (fun ns fs hterms hgroups => ?_) h
  · exact ⟨⟨fun _ => rfl, fun _ => rfl⟩, fun hne => absurd rfl hne,
      fun l hl => absurd hl List.not_mem_nil⟩
  · obtain ⟨sql, ps, rfl, hempty, htext, hleaves⟩ := hterms.laid hgroups
    refine ⟨?_, fun hne => ?_, hleaves⟩
    · rw [join_eq_nil_iff, hempty]
    · rw [Sql.join_eq_written hne, htext]

end Filter
end FilterQuery
