/-
The leaves of a query, each a column with its comparison, and what the
fields of a table have against them. Compiling a query is refused for the
first of its leaves that fails, from left to right and into groups as they
come, and for nothing else (`refusal_compile`): once a query is parsed, its
nodes stand where the compiler awaits them, so only names and types are
left to be wrong.

`Leaf.Admitted` and `Leaf.Fails` say what a leaf needs and what becomes of
it otherwise; `Leaf.fault?` computes that, and is what the induction over
the nodes carries.

A name means the key that is left of it without quote marks and without the
white space around it, and a key means the first field that has it for an
id. So a field can be named by its own id where that is a key already and
not the wildcard (`Field.IsPlain`), and is found by it where no field before
it has the same one (`Field.IsFirst`).
-/
import FilterQuery.Proofs.Filter.Terms
import FilterQuery.Proofs.Grammar.WellFormed
import FilterQuery.Proofs.Refusal

namespace FilterQuery

/-- A column with its comparison, and the value where the comparison takes
one. -/
structure Leaf where
  name : Text
  op : Operator
  value : Option Text
  deriving DecidableEq, Repr

namespace Node

mutual

/-- The leaves inside a node. -/
def leavesInside : Node → List Leaf
  | .group children => leaves children
  | .column _ | .operator _ | .value _ => []

/-- The leaves of a list of nodes, from left to right, those of a group
where it stands. -/
def leaves : List Node → List Leaf
  | [] => []
  | .column name :: .operator op :: .value raw :: ns =>
      ⟨name, op, some raw⟩ :: leaves ns
  | .column name :: .operator op :: ns => ⟨name, op, none⟩ :: leaves ns
  | n :: ns => leavesInside n ++ leaves ns

end

end Node

-- ============================================================= one leaf

/-- The error for a field whose type does not admit an operator. -/
def Field.fault? (op : Operator) (field : Field) : Option QueryError :=
  if field.type.admits op then none
  else some (.invalidOperator op field.id field.type)

namespace Leaf

variable (fields : Resolver) (l : Leaf)

/-- The column is known and its type admits the operator. The wildcard
stands for all searchable fields. -/
def Admitted : Prop :=
  if Filter.key l.name = ['*'] then
    ∀ field ∈ fields.searchable, field.type.admits l.op = true
  else
    ∃ field, fields.find? (Filter.key l.name) = some field
      ∧ field.type.admits l.op = true

/-- How a leaf fails. The wildcard does so for the first searchable field
that does not admit the operator. -/
inductive Fails : QueryError → Prop where
  | unknown (hkey : Filter.key l.name ≠ ['*'])
      (h : fields.find? (Filter.key l.name) = none) :
      Fails (.unknownField (Filter.key l.name))
  | field {field : Field} (hkey : Filter.key l.name ≠ ['*'])
      (h : fields.find? (Filter.key l.name) = some field)
      (hop : field.type.admits l.op = false) :
      Fails (.invalidOperator l.op field.id field.type)
  | wildcard {before after : List Field} {field : Field}
      (hkey : Filter.key l.name = ['*'])
      (h : fields.searchable = before ++ field :: after)
      (hbefore : ∀ other ∈ before, other.type.admits l.op = true)
      (hop : field.type.admits l.op = false) :
      Fails (.invalidOperator l.op field.id field.type)

/-- The error for a leaf, if it is not admitted. -/
def fault? : Option QueryError :=
  if Filter.key l.name = ['*'] then
    fields.searchable.findSome? (·.fault? l.op)
  else
    match fields.find? (Filter.key l.name) with
    | none => some (.unknownField (Filter.key l.name))
    | some field => field.fault? l.op

end Leaf

private theorem Field.fault?_eq_none_iff {op : Operator} {field : Field} :
    field.fault? op = none ↔ field.type.admits op = true := by
  unfold Field.fault?
  cases field.type.admits op <;> simp

/-- A field refuses an operator that its type does not admit, and says
which. -/
private theorem Field.fault?_eq_some_iff {op : Operator} {field : Field}
    {e : QueryError} :
    field.fault? op = some e ↔ field.type.admits op = false
      ∧ e = .invalidOperator op field.id field.type := by
  unfold Field.fault?
  cases field.type.admits op <;> simp [@eq_comm _ e]

namespace Leaf

variable {fields : Resolver} {l : Leaf}

/-- A leaf has no fault just when the fields admit it. -/
theorem fault?_eq_none_iff : l.fault? fields = none ↔ l.Admitted fields := by
  unfold fault? Admitted
  split
  · simp only [List.findSome?_eq_none_iff, Field.fault?_eq_none_iff]
  · cases fields.find? (Filter.key l.name) with
    | none => simp
    | some field => simp [Field.fault?_eq_none_iff]

/-- Its fault is that for which it fails. -/
theorem fault?_eq_some_iff {e : QueryError} :
    l.fault? fields = some e ↔ l.Fails fields e := by
  unfold fault?
  split
  · rename_i hkey
    rw [List.findSome?_eq_some_iff]
    simp only [Field.fault?_eq_none_iff, Field.fault?_eq_some_iff]
    constructor
    · intro h
      obtain ⟨before, field, after, hsplit, ⟨hop, rfl⟩, hbefore⟩ := h
      exact .wildcard hkey hsplit hbefore hop
    · intro h
      cases h with
      | unknown hne => exact absurd hkey hne
      | field hne => exact absurd hkey hne
      | wildcard _ hsplit hbefore hop =>
          exact ⟨_, _, _, hsplit, ⟨hop, rfl⟩, hbefore⟩
  · rename_i hkey
    cases hfind : fields.find? (Filter.key l.name) with
    | none =>
        constructor
        · intro h
          obtain rfl := Option.some.inj h
          exact .unknown hkey hfind
        · intro h
          cases h with
          | unknown => rfl
          | field _ hfield =>
              rw [hfind] at hfield
              cases hfield
          | wildcard hstar => exact absurd hstar hkey
    | some field =>
        simp only [Field.fault?_eq_some_iff]
        constructor
        · intro h
          obtain ⟨hop, rfl⟩ := h
          exact .field hkey hfind hop
        · intro h
          cases h with
          | unknown _ hnone =>
              rw [hfind] at hnone
              cases hnone
          | field _ hfield hop =>
              rw [hfind] at hfield
              obtain rfl := Option.some.inj hfield
              exact ⟨hop, rfl⟩
          | wildcard hstar => exact absurd hstar hkey

/-- A leaf fails for a name or a type, and for nothing else. -/
theorem Fails.isSemantic {e : QueryError} (h : l.Fails fields e) :
    e.isSemantic = true := by
  cases h <;> rfl

end Leaf

namespace Filter

variable {f : Filter}

/-- The predicate of a field is refused for the fault of the field. -/
private theorem refusal_fieldPredicate (field : Field) (op : Operator)
    (value : Text) :
    refusal (f.fieldPredicate field op value) = field.fault? op := by
  unfold fieldPredicate Field.fault?
  split <;> rfl

/-- The wildcard is refused for the first searchable field that has a
fault. -/
private theorem refusal_wildcard (op : Operator) (value : Text) :
    refusal (f.wildcard op value)
      = f.fields.searchable.findSome? (·.fault? op) := by
  have hparts : refusal (f.fields.searchable.mapM
      (f.fieldPredicate · op value))
        = f.fields.searchable.findSome? (·.fault? op) := by
    simp only [refusal_mapM, refusal_fieldPredicate]
  unfold wildcard
  rw [refusal_bind (o := none), hparts, Option.or_none]
  intro parts
  split <;> rfl

/-- A leaf is refused for its fault. -/
theorem refusal_term (l : Leaf) :
    refusal (f.term l.name l.op l.value) = l.fault? f.fields := by
  unfold term Leaf.fault?
  split
  · exact refusal_wildcard l.op _
  · cases f.fields.find? (key l.name) with
    | none => rfl
    | some field => exact refusal_fieldPredicate field l.op _

/-- An operator in its own spelling is understood. -/
theorem predicate_spelling {op : Operator} (h : op.isComparison = true)
    (name : Text) (value : Option Text) :
    f.predicate name op.spelling value = f.term name op value := by
  unfold predicate
  rw [Operator.parse?_spelling, Option.filter_some, if_pos h]

end Filter

-- ========================================================== a whole query

namespace Node

theorem leaves_group (children ns : List Node) :
    leaves (.group children :: ns) = leaves children ++ leaves ns := rfl

theorem leaves_value (name raw : Text) (op : Operator) (ns : List Node) :
    leaves (.column name :: .operator op :: .value raw :: ns)
      = ⟨name, op, some raw⟩ :: leaves ns := rfl

open Grammar in
/-- Where a bind operator or the end follows, a comparison has no value. -/
theorem leaves_nullCheck {ns : List Node} (h : Fits .bind ns) (name : Text)
    (op : Operator) :
    leaves (.column name :: .operator op :: ns)
      = ⟨name, op, none⟩ :: leaves ns := by
  cases h with
  | done => rfl
  | bind => rfl
  | column h => cases h
  | group h => cases h

open Grammar in
/-- What the nodes from a slot on make of the leaf that is being read: its
operator, and every other one, is a comparison. -/
theorem isComparison_of_fits {slot : Slot} {ns : List Node}
    (h : Fits slot ns) :
    match slot with
    | .start | .term | .bind => ∀ l ∈ leaves ns, l.op.isComparison = true
    | .comparison => ∀ name, ∀ l ∈ leaves (.column name :: ns),
        l.op.isComparison = true
    | .value => ∀ name op, op.isComparison = true →
        ∀ l ∈ leaves (.column name :: .operator op :: ns),
          l.op.isComparison = true := by
  -- A leaf is complete with its value or its null check. Up to there its
  -- first nodes are carried along in what is said of the slot.
  induction h with
  | @done slot h =>
      cases slot with
      | start => exact fun l hl => absurd hl List.not_mem_nil
      | bind => exact fun l hl => absurd hl List.not_mem_nil
      | term => cases h
      | comparison => cases h
      | value => cases h
  | @column slot name ns h hns ih =>
      cases slot with
      | start => exact ih name
      | term => exact ih name
      | comparison => cases h
      | value => cases h
      | bind => cases h
  | @group slot children ns h hc hns ihc ih =>
      have hall : ∀ l ∈ leaves (.group children :: ns),
          l.op.isComparison = true := by
        intro l hl
        rw [leaves_group] at hl
        exact (List.mem_append.1 hl).elim (ihc l) (ih l)
      cases slot with
      | start => exact hall
      | term => exact hall
      | comparison => cases h
      | value => cases h
      | bind => cases h
  | @nullCheck op ns hop hns ih =>
      intro name l hl
      rw [leaves_nullCheck hns] at hl
      rcases List.mem_cons.1 hl with rfl | hl
      · exact Operator.isComparison_of_isNullCheck hop
      · exact ih l hl
  | comparison hop hn hns ih => exact fun name => ih name _ hop
  | @value raw ns hns ih =>
      intro name op hop l hl
      rw [leaves_value] at hl
      rcases List.mem_cons.1 hl with rfl | hl
      · exact hop
      · exact ih l hl
  | bind hop hns ih => exact ih

end Node

namespace Filter

open Grammar Node

/-- What the compiler awaits where the parser has a slot. -/
inductive AwaitsAt : Slot → Awaiting → Prop where
  | start : AwaitsAt .start (.term none)
  | term {op : Operator} : AwaitsAt .term (.term (some op))
  | comparison {b : Option Operator} {name : Text} :
      AwaitsAt .comparison (.comparison b name)
  | value {b : Option Operator} {name : Text} {op : Operator} :
      AwaitsAt .value (.value b name op)
  | bind : AwaitsAt .bind .bind

/-- The nodes of the term that is being read. -/
def Awaiting.nodes : Awaiting → List Node
  | term _ | bind => []
  | comparison _ name => [.column name]
  | value _ name op => [.column name, .operator op]

variable (f : Filter)

/-- The condition of the nodes that have been read and those still to
come. -/
def compileFrom (p : Progress) (ns : List Node) :
    Except QueryError Text := do
  let last ← f.run p ns
  last.finish

variable {f}

theorem compileFrom_cons (p : Progress) (n : Node) (ns : List Node) :
    f.compileFrom p (n :: ns)
      = f.step p n >>= fun next => f.compileFrom next ns := by
  unfold compileFrom
  rw [run, bind_assoc]

theorem AwaitsAt.eq_term {slot : Slot} {a : Awaiting} (h : AwaitsAt slot a)
    (hslot : slot.startsTerm = true) : ∃ b, a = .term b := by
  cases h with
  | start => exact ⟨_, rfl⟩
  | term => exact ⟨_, rfl⟩
  | comparison => cases hslot
  | value => cases hslot
  | bind => cases hslot

/-- A term that is complete is refused for itself, or else for what is
behind it. -/
private theorem refusal_emit {r : Except QueryError Text} {g : Text → Fragment}
    {fs : List Fragment} {ns : List Node} {o : Option QueryError}
    (h : ∀ gs, refusal (f.compileFrom ⟨.bind, gs⟩ ns) = o) :
    refusal (r.map (fun sql => Progress.mk .bind (fs ++ [g sql]))
        >>= fun next => f.compileFrom next ns) = (refusal r).or o := by
  cases r with
  | error e => rfl
  | ok sql => exact h _

/-- From where a slot is awaited on, nodes that fit are refused for the
first leaf that has a fault. -/
theorem refusal_compileFrom {slot : Slot} {ns : List Node}
    (h : Fits slot ns) {a : Awaiting} (ha : AwaitsAt slot a)
    (fs : List Fragment) :
    refusal (f.compileFrom ⟨a, fs⟩ ns)
      = (leaves (a.nodes ++ ns)).findSome? (·.fault? f.fields) := by
  -- What is awaited holds the nodes of a leaf that is not complete yet.
  induction h generalizing a fs with
  | done hslot =>
      cases ha with
      | start => rfl
      | bind => rfl
      | term => cases hslot
      | comparison => cases hslot
      | value => cases hslot
  | column hslot hns ih =>
      obtain ⟨b, rfl⟩ := ha.eq_term hslot
      rw [compileFrom_cons, step]
      exact ih .comparison fs
  | @group slot children ns hslot hc hns ihc ih =>
      obtain ⟨b, rfl⟩ := ha.eq_term hslot
      have hchildren : refusal (f.compile children)
          = (leaves children).findSome? (·.fault? f.fields) :=
        ihc .start []
      rw [compileFrom_cons, step_group, refusal_emit (ih .bind), hchildren]
      exact List.findSome?_append.symm
  | @nullCheck op ns hop hns ih =>
      cases ha with
      | @comparison b name =>
          rw [compileFrom_cons, step_nullCheck hop, refusal_emit (ih .bind),
            refusal_term ⟨name, op, none⟩, ← Lists.findSome?_cons_eq_or]
          exact congrArg _ (leaves_nullCheck hns name op).symm
  | @comparison op ns hop hn hns ih =>
      cases ha with
      | @comparison b name =>
          rw [compileFrom_cons, step]
          simp only [hop, hn, if_true]
          exact ih .value fs
  | @value raw ns hns ih =>
      cases ha with
      | @value b name op =>
          rw [compileFrom_cons, step_value, refusal_emit (ih .bind),
            refusal_term ⟨name, op, some raw⟩, ← Lists.findSome?_cons_eq_or]
          rfl
  | @bind op ns hop hns ih =>
      cases ha with
      | bind =>
          rw [compileFrom_cons, step]
          simp only [hop, if_true]
          exact ih .term fs

/-- A query is refused for the first of its leaves that has a fault. -/
theorem refusal_compile {ns : List Node} (h : Fits .start ns) :
    refusal (f.compile ns) = (leaves ns).findSome? (·.fault? f.fields) :=
  refusal_compileFrom h .start []

end Filter

-- ============================================================ own names

namespace Text

/-- Where there is no mark there is none to take off. -/
private theorem withoutQuoteMarks_eq_self {t : Text}
    (h : ∀ c ∈ t, isQuoteMark c = false) : t.withoutQuoteMarks = t := by
  refine List.filter_eq_self.2 fun c hc => ?_
  rw [h c hc]
  rfl

end Text

namespace Field

/-- The id is a key as it stands, and not the wildcard. -/
structure IsPlain (field : Field) : Prop where
  unquoted : ∀ c ∈ field.id, isQuoteMark c = false
  trimmed : field.id.trim = field.id
  ne_wildcard : field.id ≠ ['*']

private theorem isPlain_iff {field : Field} :
    field.IsPlain
      ↔ field.id.all (!isQuoteMark ·) = true ∧ field.id.trim = field.id
        ∧ field.id ≠ ['*'] := by
  have hmarks : field.id.all (!isQuoteMark ·) = true
      ↔ ∀ c ∈ field.id, isQuoteMark c = false := by
    simp
  rw [hmarks]
  exact ⟨fun h => ⟨h.unquoted, h.trimmed, h.ne_wildcard⟩,
    fun ⟨hunquoted, htrimmed, hne⟩ => ⟨hunquoted, htrimmed, hne⟩⟩

instance (field : Field) : Decidable field.IsPlain :=
  decidable_of_iff' _ isPlain_iff

/-- No field before this one has the same id. -/
def IsFirst (field : Field) (fields : List Field) : Prop :=
  ∃ before after, fields = before ++ field :: after
    ∧ ∀ other ∈ before, other.id ≠ field.id

/-- No mark is part of such an id. -/
theorem IsPlain.not_mem {field : Field} (h : field.IsPlain) {mark : Char}
    (hmark : isQuoteMark mark = true) : mark ∉ field.id := by
  intro hmem
  have hunquoted := h.unquoted mark hmem
  rw [hmark] at hunquoted
  cases hunquoted

/-- A plain id is its own key. -/
theorem IsPlain.key_eq {field : Field} (h : field.IsPlain) :
    Filter.key field.id = field.id := by
  unfold Filter.key
  rw [Text.withoutQuoteMarks_eq_self h.unquoted, h.trimmed]

/-- A field is found by its id if none before it has the same. -/
theorem IsFirst.find?_eq {field : Field} {fields : List Field}
    (h : field.IsFirst fields) :
    (Resolver.ofFields fields).find? field.id = some field := by
  obtain ⟨before, after, rfl, hbefore⟩ := h
  refine List.find?_eq_some_iff_append.2
    ⟨beq_self_eq_true _, before, after, rfl, fun other hother => ?_⟩
  simpa using hbefore other hother

/-- Where all ids differ every field is the first with its own. -/
theorem IsFirst.of_nodup {field : Field} {fields : List Field}
    (hids : (fields.map (·.id)).Nodup) (h : field ∈ fields) :
    field.IsFirst fields := by
  obtain ⟨before, after, rfl⟩ := List.append_of_mem h
  refine ⟨before, after, rfl, fun other hother => ?_⟩
  rw [List.map_append, List.nodup_append] at hids
  exact hids.2.2 other.id (List.mem_map_of_mem hother) field.id
    (List.mem_cons_self ..)

end Field

namespace Filter

variable {f : Filter} {fields : List Field} {field : Field}

/-- A name that means the id of a field has the predicate of that field. -/
theorem term_of_key (hf : f.fields = .ofFields fields)
    (hfirst : field.IsFirst fields) (hplain : field.IsPlain) {name : Text}
    (hname : key name = field.id) (op : Operator) (value : Option Text) :
    f.term name op value
      = f.fieldPredicate field op ((value.map Text.unquote).getD []) := by
  have hfind : f.fields.find? field.id = some field := by
    rw [hf]
    exact hfirst.find?_eq
  unfold term
  rw [hname, if_neg hplain.ne_wildcard, hfind]

end Filter
end FilterQuery
