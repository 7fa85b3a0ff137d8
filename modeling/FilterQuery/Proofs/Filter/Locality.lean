/-
How much of a schema a query depends on. Compiling asks a resolver for the
field of the key of each column, and for the searchable fields where the key
is the wildcard. Resolvers that answer these questions alike make the same of
the query, whatever else they hold (`compile_of_agree`).

For lists of fields this says what may be done to a schema behind the back of
the queries in use. The order of the fields matters to the wildcard alone. And
fields that are put in anywhere, under ids that were not there and not
searchable, are met by no query that was compiled without them
(`compile_locality`).
-/
import FilterQuery.Proofs.Filter.Columns
import FilterQuery.Proofs.Filter.Faults

namespace FilterQuery

open Grammar Node

-- ============================================================== one question

namespace Resolver

/-- Two resolvers that answer alike what is asked about a name. -/
def AgreeOn (r s : Resolver) (name : Text) : Prop :=
  if Filter.key name = ['*'] then r.searchable = s.searchable
  else r.find? (Filter.key name) = s.find? (Filter.key name)

end Resolver

namespace Filter

variable {f : Filter}

/-- A term asks nothing else of the fields. -/
theorem term_of_agree {r : Resolver} {name : Text}
    (h : r.AgreeOn f.fields name) (op : Operator) (value : Option Text) :
    { f with fields := r }.term name op value = f.term name op value := by
  unfold Resolver.AgreeOn at h
  unfold term
  split
  · rename_i hkey
    rw [if_pos hkey] at h
    unfold wildcard
    rw [h]
    rfl
  · rename_i hkey
    rw [if_neg hkey] at h
    rw [h]
    rfl

theorem compile_of_agree {r : Resolver} {ns : List Node}
    (h : ∀ name ∈ columns ns, r.AgreeOn f.fields name) :
    { f with fields := r }.compile ns = f.compile ns :=
  compile_congr_of_columns fun name hname => term_of_agree (h name hname)

/-- What is compiled has a field for every column but the wildcard. -/
theorem exists_find?_of_compile {ns : List Node} {sql : Text}
    (h : f.compile ns = .ok sql) {name : Text} (hname : name ∈ columns ns)
    (hkey : key name ≠ ['*']) :
    ∃ field, f.fields.find? (key name) = some field := by
  have hfits := fits_start_iff.2 (wellFormed_of_compile h)
  have hcolumns : columns ns = (leaves ns).map (·.name) :=
    columns_of_fits hfits
  rw [hcolumns] at hname
  obtain ⟨l, hl, rfl⟩ := List.mem_map.1 hname
  have hnone := refusal_eq_none_iff.2 ⟨sql, h⟩
  rw [refusal_compile hfits, List.findSome?_eq_none_iff] at hnone
  have hadmitted := Leaf.fault?_eq_none_iff.1 (hnone l hl)
  unfold Leaf.Admitted at hadmitted
  rw [if_neg hkey] at hadmitted
  obtain ⟨field, hfield, -⟩ := hadmitted
  exact ⟨field, hfield⟩

end Filter

-- ============================================================ lists of fields

namespace Field

/-- Where all ids differ the order of the fields does not matter to a
look-up. -/
theorem find?_of_perm {fields fields' : List Field}
    (hids : (fields.map (·.id)).Nodup) (h : fields.Perm fields') (id : Text) :
    (Resolver.ofFields fields').find? id
      = (Resolver.ofFields fields).find? id := by
  have hids' : (fields'.map (·.id)).Nodup := (h.map _).nodup_iff.1 hids
  cases hfind : (Resolver.ofFields fields).find? id with
  | none =>
      refine List.find?_eq_none.2 fun field hfield => ?_
      exact List.find?_eq_none.1 hfind field (h.mem_iff.2 hfield)
  | some field =>
      obtain rfl : field.id = id := by simpa using List.find?_some hfind
      have hmem := h.mem_iff.1 (List.mem_of_find?_eq_some hfind)
      exact (IsFirst.of_nodup hids' hmem).find?_eq

/-- Two lists dealt into one: `wide` holds the fields of either in their
order, and no others. -/
inductive Dealt : List Field → List Field → List Field → Prop where
  | nil : Dealt [] [] []
  | left {fields added wide : List Field} (field : Field)
      (h : Dealt fields added wide) :
      Dealt (field :: fields) added (field :: wide)
  | right {fields added wide : List Field} (field : Field)
      (h : Dealt fields added wide) :
      Dealt fields (field :: added) (field :: wide)

variable {fields added wide : List Field}

/-- An id that none of the added fields has is looked up as before. -/
theorem Dealt.find?_eq (h : Dealt fields added wide) {id : Text}
    (hid : ∀ field ∈ added, field.id ≠ id) :
    (Resolver.ofFields wide).find? id
      = (Resolver.ofFields fields).find? id := by
  show wide.find? _ = fields.find? _
  induction h with
  | nil => rfl
  | left field h ih => rw [List.find?_cons, List.find?_cons, ih hid]
  | right field h ih =>
      have hne : (field.id == id) = false :=
        beq_false_of_ne (hid field (List.mem_cons_self ..))
      rw [List.find?_cons, hne]
      exact ih fun other hother => hid other (List.mem_cons_of_mem _ hother)

/-- The wildcard does not stand for the added fields. -/
theorem Dealt.searchable_eq (h : Dealt fields added wide)
    (hadded : ∀ field ∈ added, field.searchable = false) :
    (Resolver.ofFields wide).searchable
      = (Resolver.ofFields fields).searchable := by
  show wide.filter _ = fields.filter _
  induction h with
  | nil => rfl
  | left field h ih => rw [List.filter_cons, List.filter_cons, ih hadded]
  | right field h ih =>
      have hfield := hadded field (List.mem_cons_self ..)
      rw [List.filter_cons_of_neg (by simp [hfield])]
      exact ih fun other hother =>
        hadded other (List.mem_cons_of_mem _ hother)

end Field

namespace Filter

variable {f : Filter} {fields fields' added wide : List Field}

/-- The order of the fields matters to the wildcard alone. -/
theorem compile_of_perm (hf : f.fields = .ofFields fields)
    (hids : (fields.map (·.id)).Nodup) (h : fields.Perm fields')
    {ns : List Node} (hns : ∀ name ∈ columns ns, key name ≠ ['*']) :
    { f with fields := .ofFields fields' }.compile ns = f.compile ns := by
  refine compile_of_agree fun name hname => ?_
  unfold Resolver.AgreeOn
  rw [if_neg (hns name hname), hf]
  exact Field.find?_of_perm hids h _

/-- What was compiled does not meet fields with other ids that the wildcard
does not stand for. -/
theorem compile_of_dealt (hf : f.fields = .ofFields fields)
    (h : Field.Dealt fields added wide)
    (hadded : ∀ field ∈ added,
      field.searchable = false ∧ field.id ∉ fields.map (·.id))
    {ns : List Node} {sql : Text} (hsql : f.compile ns = .ok sql) :
    { f with fields := .ofFields wide }.compile ns = .ok sql := by
  rw [← hsql]
  refine compile_of_agree fun name hname => ?_
  have hsearchable := h.searchable_eq fun field hfield =>
    (hadded field hfield).1
  unfold Resolver.AgreeOn
  rw [hf]
  split
  · exact hsearchable
  · rename_i hkey
    obtain ⟨found, hfound⟩ := exists_find?_of_compile hsql hname hkey
    rw [hf] at hfound
    refine h.find?_eq fun field hfield hid => (hadded field hfield).2 ?_
    -- An added field with the key of the column would have the id of the
    -- field that was found.
    have hkey : found.id = key name := by simpa using List.find?_some hfound
    rw [hid, ← hkey]
    exact List.mem_map_of_mem (List.mem_of_find?_eq_some hfound)

/-- What holds of the nodes that a query is read as holds of the query. -/
theorem compileQuery_of_nodes {r : Resolver} {query : Text}
    (h : ∀ ns, Node.parse f.mode query = .ok ns →
      { f with fields := r }.compile ns = f.compile ns) :
    { f with fields := r }.compileQuery query = f.compileQuery query := by
  unfold compileQuery
  show Node.parse f.mode query >>= _ = Node.parse f.mode query >>= _
  cases hns : Node.parse f.mode query with
  | error e => rfl
  | ok ns => exact h ns hns

/-- Resolvers that answer alike what is asked about the columns of a list of
nodes, or of the nodes that a query is read as, have it compiled alike, be it
to a condition or an error. So where all ids differ the fields may be put in
another order, for all that does not mention the wildcard; and further fields
may be put in among them, if they have other ids and are not searchable, for
all that is compiled without them, wildcards or not. -/
theorem compile_locality (f : Filter) :
    (∀ r ns, (∀ name ∈ columns ns, r.AgreeOn f.fields name) →
        { f with fields := r }.compile ns = f.compile ns)
      ∧ (∀ r query,
        (∀ ns, Node.parse f.mode query = .ok ns →
          ∀ name ∈ columns ns, r.AgreeOn f.fields name) →
        { f with fields := r }.compileQuery query = f.compileQuery query)
      ∧ ∀ fields : List Field, f.fields = .ofFields fields →
        (fields.map (·.id)).Nodup →
          (∀ fields', fields.Perm fields' →
            let g : Filter := { f with fields := .ofFields fields' }
            (∀ ns, (∀ name ∈ columns ns, key name ≠ ['*']) →
                g.compile ns = f.compile ns)
              ∧ ∀ query,
                (∀ ns, Node.parse f.mode query = .ok ns →
                  ∀ name ∈ columns ns, key name ≠ ['*']) →
                g.compileQuery query = f.compileQuery query)
          ∧ ∀ added wide, Field.Dealt fields added wide →
            (∀ field ∈ added,
              field.searchable = false ∧ field.id ∉ fields.map (·.id)) →
            let g : Filter := { f with fields := .ofFields wide }
            (∀ ns sql, f.compile ns = .ok sql → g.compile ns = .ok sql)
              ∧ ∀ query sql, f.compileQuery query = .ok sql →
                g.compileQuery query = .ok sql := by
  refine ⟨fun r ns => compile_of_agree, fun r query h => ?_,
    fun fields hf hids => ⟨fun fields' hperm => ⟨fun ns hns => ?_,
      fun query hquery => ?_⟩, fun added wide hwide hadded =>
      ⟨fun ns sql hsql => ?_, fun query sql hsql => ?_⟩⟩⟩
  · exact compileQuery_of_nodes fun ns hns => compile_of_agree (h ns hns)
  · exact compile_of_perm hf hids hperm hns
  · exact compileQuery_of_nodes fun ns hns =>
      compile_of_perm hf hids hperm (hquery ns hns)
  · exact compile_of_dealt hf hwide hadded hsql
  · obtain ⟨ns, hns, hcompile⟩ := bind_eq_ok_iff.1 hsql
    exact bind_eq_ok_iff.2
      ⟨ns, hns, compile_of_dealt hf hwide hadded hcompile⟩

/-- A column in quotes and blanks and a wildcard in a group, with a field put
in before and one behind; and an unknown column, which the other order does
not find either. -/
theorem compile_locality_spellings :
    let name : Field := ⟨"name".toList, .varchar, true⟩
    let age : Field := ⟨"age".toList, .integer, true⟩
    let born : Field := ⟨"born".toList, .date, false⟩
    let note : Field := ⟨"note".toList, .text, false⟩
    let f (fields : List Field) : Filter :=
      { fields := .ofFields fields, quoter := Dialect.ansi.quoter }
    let known : List Node :=
      [.column "'name '".toList, .operator .eq, .value ['x'],
        .operator .or, .group [.column "\"*".toList, .operator .ne,
          .value ['1']]]
    let unknown : List Node :=
      [.column "age".toList, .operator .isNull, .operator .and,
        .column "born".toList, .operator .isNull]
    (f [name, age]).compile known
        = .ok "\"name\" = 'x' OR ((\"name\" != '1' OR \"age\" != 1))".toList
      ∧ (f [born, name, age, note]).compile known
        = (f [name, age]).compile known
      ∧ (f [age, name]).compile unknown
        = .error (.unknownField "born".toList)
      ∧ (f [age, name]).compile unknown = (f [name, age]).compile unknown := by
  intro name age born note f known unknown
  have hknown : (f [name, age]).compile known
      = .ok "\"name\" = 'x' OR ((\"name\" != '1' OR \"age\" != 1))".toList :=
    rfl
  obtain ⟨hperm, hwide⟩ :=
    (compile_locality (f [name, age])).2.2 [name, age] rfl (by decide)
  have hdealt : Field.Dealt [name, age] [born, note]
      [born, name, age, note] :=
    .right born (.left name (.left age (.right note .nil)))
  have hsame := (hwide [born, note] _ hdealt (by decide)).1 known _ hknown
  have hnames : ∀ x ∈ columns unknown, key x ≠ ['*'] := by decide
  have hswap := (hperm [age, name] (.swap ..)).1 unknown hnames
  exact ⟨hknown, hsame.trans hknown.symm, rfl, hswap⟩

end Filter
end FilterQuery
