/-
Conditions as templates. What a query is compiled into is the same for all
quoters and qualifiers, up to what they write: either one error, or one row
of pieces in which every id and every quoted value stands in a slot of its
own (`compile_template`). So the quoter is never asked anything: what it
returns is copied, and neither a branch of the compiler nor the order of
the columns depends on it.

For an error this is an induction over the nodes that carries what is
awaited and forgets the fragments. For a success the layout is at hand
already, which no quoter takes part in, and only the comparisons are left
to be taken apart.
-/
import FilterQuery.Proofs.Filter.Meaning

namespace FilterQuery

/-- One piece of a template. -/
inductive Piece where
  /-- The same text, whatever the quoter is. -/
  | text (t : Text)
  /-- The column with an id. -/
  | column (id : Text)
  /-- A value as a string literal. -/
  | value (v : Text)
  deriving DecidableEq, Repr

namespace Piece

/-- A piece as it is written. A column is qualified, unless the qualifier
is blank. -/
def render (quoter : Quoter) (qualifier : Text) : Piece → Text
  | text t => t
  | column id =>
      if qualifier.isBlank then quoter.identifier id
      else qualifier ++ '.' :: quoter.identifier id
  | value v => quoter.value v

/-- The fixed texts of a condition, operators and numerals aside. -/
def phrases : List Text :=
  ["(".toList, ")".toList, "(1=0)".toList, "TRUE".toList, "FALSE".toList,
   "lower(".toList, ") like lower(".toList, " IS NULL".toList,
   " IS NOT NULL".toList, " is null".toList, " is not null".toList,
   " is null or ".toList, " is not null and ".toList, "= '')".toList,
   "!= '')".toList]

end Piece

namespace Leaf

/-- The value of a leaf without its quote marks. -/
def text (l : Leaf) : Text := (l.value.map Text.unquote).getD []

/-- The fields that a leaf speaks of. -/
def Reaches (fields : Resolver) (l : Leaf) (field : Field) : Prop :=
  if Filter.key l.name = ['*'] then field ∈ fields.searchable
  else fields.find? (Filter.key l.name) = some field

end Leaf

/-- Where a piece may come from. Only the values of numeric fields are
written into a text, as numerals; a quoted value belongs to a field that
holds neither numbers nor truth values. -/
inductive Piece.ComesFrom (fields : Resolver) (ls : List Leaf) :
    Piece → Prop where
  | phrase {t : Text} (h : t ∈ phrases) : ComesFrom fields ls (.text t)
  | operator (op : Operator) :
      ComesFrom fields ls (.text (' ' :: op.spelling ++ [' ']))
  | number {l : Leaf} {field : Field} (hl : l ∈ ls)
      (hfield : l.Reaches fields field)
      (hty : field.type.isNumeric = true) :
      ComesFrom fields ls (.text (Literal.number l.text))
  | column {l : Leaf} {field : Field} (hl : l ∈ ls)
      (hfield : l.Reaches fields field) :
      ComesFrom fields ls (.column field.id)
  | value {l : Leaf} {field : Field} (hl : l ∈ ls)
      (hfield : l.Reaches fields field) (hbool : field.type ≠ .boolean)
      (hnum : field.type.isNumeric = false) :
      ComesFrom fields ls (.value l.text)

-- ========================================================== the templates

namespace Field

variable (field : Field)

/-- The template of a test for a missing value. -/
def nullPieces (missing : Bool) : List Piece :=
  if field.type = .boolean ∨ field.type.isNumeric then
    [.column field.id,
     .text (if missing then " IS NULL" else " IS NOT NULL").toList]
  else if field.type = .uuid then
    [.column field.id,
     .text (if missing then " is null" else " is not null").toList]
  else if missing then
    [.text "(".toList, .column field.id, .text " is null or ".toList,
     .column field.id, .text "= '')".toList]
  else
    [.text "(".toList, .column field.id, .text " is not null and ".toList,
     .column field.id, .text "!= '')".toList]

/-- The template of a literal. -/
def literalPiece (v : Text) : Piece :=
  if field.type = .boolean then .text (Literal.boolean v)
  else if field.type.isNumeric then .text (Literal.number v)
  else .value v

/-- The template of a comparison. -/
def pieces (op : Operator) (v : Text) : List Piece :=
  match op with
  | .isNull => field.nullPieces true
  | .isNotNull => field.nullPieces false
  | .like =>
      [.text "lower(".toList, .column field.id,
       .text ") like lower(".toList, .value v, .text ")".toList]
  | _ =>
      [.column field.id, .text (' ' :: op.spelling ++ [' ']),
       field.literalPiece v]

end Field

/-- The templates of several comparisons, with `OR` between them. -/
def Piece.alternatives : List (List Piece) → List Piece
  | [] => []
  | ps :: rest => ps ++ rest.flatMap (.text " OR ".toList :: ·)

/-- The template of a leaf. -/
def Leaf.pieces (fields : Resolver) (l : Leaf) : List Piece :=
  if Filter.key l.name = ['*'] then
    .text "(".toList
      :: Piece.alternatives (fields.searchable.map (·.pieces l.op l.text))
      ++ [.text ")".toList]
  else
    match fields.find? (Filter.key l.name) with
    | none => []
    | some field => field.pieces l.op l.text

/-- The template of a part. -/
def Part.pieces (fields : Resolver) : Part → List Piece
  | .leaf l => l.pieces fields
  | .never => [.text Filter.noMatch]
  | .bind op => [.text (' ' :: op.spelling ++ [' '])]
  | .opening => [.text "(".toList]
  | .closing => [.text ")".toList]

/-- The template of a list of nodes that is compiled. -/
def Node.pieces (fields : Resolver) (ns : List Node) : List Piece :=
  if allEmpty fields ns then []
  else (layout fields ns).flatMap (·.pieces fields)

-- ====================================================== templates, written

namespace Filter

open Node

variable {f g : Filter}

/-- A piece as a filter writes it. -/
def render (f : Filter) : Piece → Text
  | .text t => t
  | .column id =>
      match f.qualifier with
      | none => f.quoter.identifier id
      | some qualifier => qualifier ++ '.' :: f.quoter.identifier id
  | .value v => f.quoter.value v

@[simp] theorem render_text (t : Text) : f.render (.text t) = t := rfl

@[simp] theorem render_column (field : Field) :
    f.render (.column field.id) = f.column field := rfl

@[simp] theorem render_value (v : Text) :
    f.render (.value v) = f.quoter.value v := rfl

/-- A qualifier shows in columns only. -/
private theorem render_withQualifier (qualifier : Text) (p : Piece) :
    (f.withQualifier qualifier).render p
      = p.render f.quoter qualifier := by
  cases p with
  | text t => rfl
  | value v => rfl
  | column id =>
      unfold render withQualifier Piece.render
      cases qualifier.isBlank <;> rfl

/-- A test for a missing value is the text of its pieces. -/
private theorem nullTest_eq (field : Field) (missing : Bool) :
    f.nullTest field missing
      = (field.nullPieces missing).flatMap f.render := by
  unfold nullTest Field.nullPieces
  dsimp only
  by_cases hplain : field.type = .boolean ∨ field.type.isNumeric
  · rw [if_pos hplain, if_pos hplain]
    simp
  · rw [if_neg hplain, if_neg hplain]
    by_cases huuid : field.type = .uuid
    · rw [if_pos huuid, if_pos huuid]
      simp
    · rw [if_neg huuid, if_neg huuid]
      cases missing <;> simp

/-- So is a literal. -/
private theorem literal_eq (field : Field) (v : Text) :
    f.literal field.type v = f.render (field.literalPiece v) := by
  unfold literal Field.literalPiece
  split
  · rfl
  · split <;> rfl

/-- So is a comparison. -/
private theorem comparison_eq (field : Field) (op : Operator) (v : Text) :
    f.comparison field op v = (field.pieces op v).flatMap f.render := by
  unfold comparison Field.pieces
  cases op with
  | isNull => exact nullTest_eq field true
  | isNotNull => exact nullTest_eq field false
  | like => simp
  | _ => simp [literal_eq]

/-- So are alternatives. -/
private theorem join_eq (pss : List (List Piece)) :
    Text.join " OR ".toList (pss.map (·.flatMap f.render))
      = (Piece.alternatives pss).flatMap f.render := by
  cases pss with
  | nil => rfl
  | cons ps rest =>
      simp [Text.join, Piece.alternatives, List.flatMap_append,
        List.flatMap_assoc, List.flatMap_map]

/-- The condition of a leaf is its template, written. -/
theorem term_eq_pieces {l : Leaf} {sql : Text}
    (h : f.term l.name l.op l.value = .ok sql)
    (hne : l.isEmpty f.fields = false) :
    sql = (l.pieces f.fields).flatMap f.render := by
  unfold Leaf.pieces
  rcases term_eq_ok_cases h with ⟨hkey, hnone, -⟩ | ⟨hkey, -, rfl⟩
    | ⟨hkey, field, hfield, rfl⟩
  · simp [Leaf.isEmpty, hkey, hnone] at hne
  · have hparts : f.fields.searchable.map (f.comparison · l.op l.text)
        = (f.fields.searchable.map (·.pieces l.op l.text)).map
            (·.flatMap f.render) := by
      rw [List.map_map]
      exact List.map_congr_left fun field _ => comparison_eq ..
    rw [if_pos hkey, ← Leaf.text, hparts, join_eq]
    simp
  · rw [if_neg hkey, hfield, ← Leaf.text]
    exact comparison_eq ..

/-- What is compiled is the template of its nodes, written. -/
theorem compile_eq_pieces {ns : List Node} {sql : Text}
    (h : f.compile ns = .ok sql) :
    sql = (Node.pieces f.fields ns).flatMap f.render := by
  have hlaid := compile_laid h
  unfold Node.pieces
  by_cases hempty : allEmpty f.fields ns = true
  · rw [if_pos hempty]
    exact hlaid.empty.2 hempty
  · rw [if_neg hempty, hlaid.text (hempty ∘ hlaid.empty.1),
      List.flatMap_assoc]
    refine List.flatMap_congr fun p hp => ?_
    cases p with
    | leaf l =>
        have hl := leaf_mem_layout h (Bool.eq_false_iff.2 hempty) hp
        exact term_eq_pieces (hlaid.leaves l hl.1) hl.2
    | never => exact (List.append_nil _).symm
    | bind op => exact (List.append_nil _).symm
    | opening => rfl
    | closing => rfl

example :
    Node.pieces (.ofFields [⟨['a'], .varchar, true⟩])
        [.column ['*'], .operator .like, .value "'x'".toList]
      = [.text "(".toList, .text "lower(".toList, .column ['a'],
         .text ") like lower(".toList, .value ['x'], .text ")".toList,
         .text ")".toList] := by
  decide

-- ================================================================= origins

end Filter

open Piece (ComesFrom phrases)

variable {fields : Resolver} {ls : List Leaf}

section OneLeaf

variable {l : Leaf} {field : Field} {p : Piece}

private theorem Field.comesFrom_nullPieces (hl : l ∈ ls)
    (hfield : l.Reaches fields field) {missing : Bool}
    (hp : p ∈ field.nullPieces missing) : p.ComesFrom fields ls := by
  have hcolumn : ComesFrom fields ls (.column field.id) :=
    .column hl hfield
  unfold Field.nullPieces at hp
  split at hp
  · simp only [List.mem_cons, List.not_mem_nil, or_false] at hp
    rcases hp with rfl | rfl
    · exact hcolumn
    · exact .phrase (by cases missing <;> decide)
  · split at hp
    · simp only [List.mem_cons, List.not_mem_nil, or_false] at hp
      rcases hp with rfl | rfl
      · exact hcolumn
      · exact .phrase (by cases missing <;> decide)
    · split at hp
      all_goals
        simp only [List.mem_cons, List.not_mem_nil, or_false] at hp
        rcases hp with rfl | rfl | rfl | rfl | rfl
        · exact .phrase (by decide)
        · exact hcolumn
        · exact .phrase (by decide)
        · exact hcolumn
        · exact .phrase (by decide)

private theorem Field.comesFrom_literalPiece (hl : l ∈ ls)
    (hfield : l.Reaches fields field) :
    (field.literalPiece l.text).ComesFrom fields ls := by
  unfold Field.literalPiece
  by_cases hbool : field.type = .boolean
  · rw [if_pos hbool]
    rcases Sql.boolean_cases l.text with htext | htext
    · rw [htext]
      exact .phrase (by decide)
    · rw [htext]
      exact .phrase (by decide)
  · rw [if_neg hbool]
    cases hnum : field.type.isNumeric with
    | true => exact .number hl hfield hnum
    | false => exact .value hl hfield hbool hnum

private theorem Field.comesFrom_pieces {op : Operator} (hl : l ∈ ls)
    (hfield : l.Reaches fields field)
    (hop : field.type.admits op = true) (hp : p ∈ field.pieces op l.text) :
    p.ComesFrom fields ls := by
  have hcolumn : ComesFrom fields ls (.column field.id) :=
    .column hl hfield
  unfold Field.pieces at hp
  cases op with
  | isNull => exact Field.comesFrom_nullPieces hl hfield hp
  | isNotNull => exact Field.comesFrom_nullPieces hl hfield hp
  | like =>
      obtain ⟨hbool, hnum⟩ := Sql.quoted_of_admits_like hop
      simp only [List.mem_cons, List.not_mem_nil, or_false] at hp
      rcases hp with rfl | rfl | rfl | rfl | rfl
      · exact .phrase (by decide)
      · exact hcolumn
      · exact .phrase (by decide)
      · exact .value hl hfield hbool hnum
      · exact .phrase (by decide)
  | _ =>
      simp only [List.mem_cons, List.not_mem_nil, or_false] at hp
      rcases hp with rfl | rfl | rfl
      · exact hcolumn
      · exact .operator _
      · exact Field.comesFrom_literalPiece hl hfield

private theorem Piece.mem_alternatives {pss : List (List Piece)}
    (hp : p ∈ alternatives pss) :
    (∃ ps ∈ pss, p ∈ ps) ∨ p = .text " OR ".toList := by
  cases pss with
  | nil => cases hp
  | cons ps rest =>
      rcases List.mem_append.1 hp with hp | hp
      · exact Or.inl ⟨ps, List.mem_cons_self, hp⟩
      · obtain ⟨qs, hqs, hp⟩ := List.mem_flatMap.1 hp
        rcases List.mem_cons.1 hp with rfl | hp
        · exact Or.inr rfl
        · exact Or.inl ⟨qs, List.mem_cons_of_mem _ hqs, hp⟩

/-- The pieces of a leaf that is admitted. -/
theorem Leaf.comesFrom_pieces (hl : l ∈ ls) (h : l.Admitted fields)
    (hp : p ∈ l.pieces fields) : p.ComesFrom fields ls := by
  unfold Leaf.pieces at hp
  unfold Leaf.Admitted at h
  by_cases hkey : Filter.key l.name = ['*']
  · rw [if_pos hkey] at h hp
    rw [List.cons_append, List.mem_cons, List.mem_append,
      List.mem_singleton] at hp
    rcases hp with rfl | hp | rfl
    · exact .phrase (by decide)
    · rcases Piece.mem_alternatives hp with ⟨ps, hps, hp⟩ | rfl
      · obtain ⟨field, hmem, rfl⟩ := List.mem_map.1 hps
        have hfield : l.Reaches fields field := by
          rw [Leaf.Reaches, if_pos hkey]
          exact hmem
        exact Field.comesFrom_pieces hl hfield (h field hmem) hp
      · exact .operator .or
    · exact .phrase (by decide)
  · rw [if_neg hkey] at h hp
    obtain ⟨field, hfind, hop⟩ := h
    rw [hfind] at hp
    have hfield : l.Reaches fields field := by
      rw [Leaf.Reaches, if_neg hkey]
      exact hfind
    exact Field.comesFrom_pieces hl hfield hop hp

end OneLeaf

namespace Filter

open Node

variable {f g : Filter}

/-- The pieces of what is compiled. -/
theorem comesFrom_pieces {ns : List Node} {sql : Text}
    (h : f.compile ns = .ok sql) {p : Piece}
    (hp : p ∈ Node.pieces f.fields ns) :
    p.ComesFrom f.fields (leaves ns) := by
  unfold Node.pieces at hp
  cases hempty : allEmpty f.fields ns with
  | true =>
      rw [if_pos hempty] at hp
      cases hp
  | false =>
      rw [if_neg (by simp [hempty])] at hp
      obtain ⟨part, hpart, hp⟩ := List.mem_flatMap.1 hp
      -- Only a leaf has pieces that are not fixed.
      cases part with
      | leaf l =>
          obtain ⟨hl, -⟩ := leaf_mem_layout h hempty hpart
          have hadmitted : l.Admitted f.fields := by
            rw [← Leaf.fault?_eq_none_iff, ← refusal_term (f := f),
              (compile_laid h).leaves l hl]
            rfl
          exact Leaf.comesFrom_pieces hl hadmitted hp
      | never =>
          obtain rfl := List.mem_singleton.1 hp
          exact .phrase (by decide)
      | bind op =>
          obtain rfl := List.mem_singleton.1 hp
          exact .operator op
      | opening =>
          obtain rfl := List.mem_singleton.1 hp
          exact .phrase (by decide)
      | closing =>
          obtain rfl := List.mem_singleton.1 hp
          exact .phrase (by decide)

-- ================================================================= errors

/-- Where a term is complete, what comes next depends on whether it is
refused, and on nothing else of it. -/
private theorem awaiting_emit {r s : Except QueryError Text}
    (h : refusal r = refusal s) (F G : Text → List Fragment) :
    (r.map fun sql => Progress.mk .bind (F sql)).map Progress.awaiting
      = (s.map fun sql => Progress.mk .bind (G sql)).map
          Progress.awaiting := by
  cases r with
  | ok sql => cases s with
    | ok sql' => rfl
    | error e => cases h
  | error e => cases s with
    | ok sql => cases h
    | error e' =>
        obtain rfl := Option.some.inj h
        rfl

/-- Two runs that await the same: both are refused for one error, or they
differ in their fragments at most. -/
theorem alike_cases {r s : Except QueryError Progress}
    (h : r.map Progress.awaiting = s.map Progress.awaiting) :
    (∃ e, r = .error e ∧ s = .error e)
      ∨ ∃ a fs gs, r = .ok ⟨a, fs⟩ ∧ s = .ok ⟨a, gs⟩ := by
  cases r with
  | error e => cases s with
    | error e' =>
        obtain rfl := Except.error.inj h
        exact Or.inl ⟨e, rfl, rfl⟩
    | ok q => cases h
  | ok p => cases s with
    | error e => cases h
    | ok q =>
        obtain ⟨a, fs⟩ := p
        obtain ⟨a', gs⟩ := q
        obtain rfl : a = a' := Except.ok.inj h
        exact Or.inr ⟨a, fs, gs, rfl, rfl⟩

/-- Nothing but what is awaited decides whether the nodes may end. -/
theorem refusal_finish {r s : Except QueryError Progress}
    (h : r.map Progress.awaiting = s.map Progress.awaiting) :
    refusal (r >>= Progress.finish) = refusal (s >>= Progress.finish) := by
  rcases alike_cases h with ⟨e, rfl, rfl⟩ | ⟨a, fs, gs, rfl, rfl⟩
  · rfl
  · show refusal (Progress.finish ⟨a, fs⟩)
      = refusal (Progress.finish ⟨a, gs⟩)
    cases a with
    | term b => cases b <;> rfl
    | _ => rfl

/-- What a leaf is refused for is a matter of the fields alone. -/
private theorem refusal_term_congr (h : f.fields = g.fields) (l : Leaf) :
    refusal (f.term l.name l.op l.value)
      = refusal (g.term l.name l.op l.value) := by
  rw [refusal_term, refusal_term, h]

mutual

/-- Two filters over the same fields await the same after a node, or are
refused it for the same, whatever fragments they have. -/
theorem awaiting_step (h : f.fields = g.fields) (a : Awaiting)
    (fs gs : List Fragment) (n : Node) :
    (f.step ⟨a, fs⟩ n).map Progress.awaiting
      = (g.step ⟨a, gs⟩ n).map Progress.awaiting := by
  cases n with
  | column name => cases a <;> rfl
  | operator op =>
      cases a with
      | term b => rfl
      | value b name op' => rfl
      | bind =>
          simp only [step]
          cases op.isBind <;> rfl
      | comparison b name =>
          cases hop : op.isNullCheck with
          | true =>
              rw [step_nullCheck hop, step_nullCheck hop]
              exact awaiting_emit
                (refusal_term_congr h ⟨name, op, none⟩) _ _
          | false =>
              simp only [step, hop]
              cases op.isComparison <;> rfl
  | value raw =>
      cases a with
      | value b name op =>
          rw [step_value, step_value]
          exact awaiting_emit
            (refusal_term_congr h ⟨name, op, some raw⟩) _ _
      | _ => rfl
  | group children =>
      cases a with
      | term b =>
          rw [step_group, step_group]
          exact awaiting_emit
            (refusal_finish (awaiting_run h _ [] [] children)) _ _
      | _ => rfl

/-- What is awaited next is a matter of the nodes and the fields alone. -/
theorem awaiting_run (h : f.fields = g.fields) (a : Awaiting)
    (fs gs : List Fragment) (ns : List Node) :
    (f.run ⟨a, fs⟩ ns).map Progress.awaiting
      = (g.run ⟨a, gs⟩ ns).map Progress.awaiting := by
  cases ns with
  | nil => rfl
  | cons n ns =>
      rw [run, run]
      rcases alike_cases (awaiting_step h a fs gs n) with
        ⟨e, hf, hg⟩ | ⟨a', fs', gs', hf, hg⟩
      · rw [hf, hg]
        rfl
      · rw [hf, hg]
        exact awaiting_run h a' fs' gs' ns

end

/-- Whether nodes are refused, and what for, depends on the fields alone. -/
theorem refusal_compile_congr (h : f.fields = g.fields) (ns : List Node) :
    refusal (f.compile ns) = refusal (g.compile ns) :=
  refusal_finish (awaiting_run h _ [] [] ns)

-- =============================================================== the result

/-- For every resolver and every list of nodes there is one error, or one
template, and it is what any quoter and any qualifier compile the nodes to.
A blank qualifier is none. Ids and values that are not numerals or truth
values stand in slots, each that of a leaf among the nodes. -/
theorem compile_template (fields : Resolver) (ns : List Node) :
    (∃ e, ∀ (quoter : Quoter) (qualifier : Text) (mode : Mode),
      ((⟨fields, quoter, none, mode⟩ : Filter).withQualifier
        qualifier).compile ns = .error e)
    ∨ ∃ template : List Piece,
      (∀ p ∈ template, p.ComesFrom fields (leaves ns))
        ∧ ∀ (quoter : Quoter) (qualifier : Text) (mode : Mode),
          ((⟨fields, quoter, none, mode⟩ : Filter).withQualifier
            qualifier).compile ns
              = .ok (template.flatMap (Piece.render quoter qualifier)) := by
  let f₀ : Filter := { fields := fields, quoter := Dialect.ansi.quoter }
  have hrefusal : ∀ quoter qualifier mode,
      refusal (((⟨fields, quoter, none, mode⟩ : Filter).withQualifier
        qualifier).compile ns) = refusal (f₀.compile ns) := by
    intro quoter qualifier mode
    refine refusal_compile_congr ?_ ns
    rfl
  cases h₀ : f₀.compile ns with
  | error e =>
      refine Or.inl ⟨e, fun quoter qualifier mode => ?_⟩
      rw [← refusal_eq_some_iff, hrefusal, h₀]
      rfl
  | ok sql₀ =>
      refine Or.inr ⟨Node.pieces fields ns,
        fun p hp => comesFrom_pieces (f := f₀) h₀ hp,
        fun quoter qualifier mode => ?_⟩
      obtain ⟨sql, hsql⟩ : ∃ sql,
          ((⟨fields, quoter, none, mode⟩ : Filter).withQualifier
            qualifier).compile ns = .ok sql := by
        rw [← refusal_eq_none_iff, hrefusal, h₀]
        rfl
      rw [hsql, compile_eq_pieces hsql]
      refine congrArg _ (List.flatMap_congr fun p _ => ?_)
      exact render_withQualifier qualifier p

end Filter
end FilterQuery
