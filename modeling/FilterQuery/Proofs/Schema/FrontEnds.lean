/-
A schema in print, with all of its parts and nothing else, is read alike as
JSON and as YAML. The print is a text of the schema in JSON, so what it is
read as there is known already; in YAML it is one flow mapping, and its
nodes decode to the same parts: what is quoted stays a text, even where
the same word would be nothing, a truth value or a number if it were plain.
-/
import FilterQuery.Proofs.Schema.Encodings
import FilterQuery.Proofs.Yaml.Compact

namespace FilterQuery

open Json (Value)

/-- A field with all of its parts. -/
def Field.toValue (f : Field) : Value :=
  .object [("id".toList, .string f.id), ("type".toList, .string f.type.name),
    ("searchable".toList, .bool f.searchable)]

namespace Schema

/-- A text, or nothing in its place. -/
def optionalValue : Option Text → Value
  | none => .null
  | some t => .string t

/-- A schema with all of its parts. -/
def toValue (S : Schema) : Value :=
  .object [("dialect".toList, .string S.dialect.name),
    ("prefix".toList, optionalValue S.qualifier),
    ("lenient".toList, .bool S.lenient),
    ("cache_capacity".toList, .number (Text.ofNat S.cacheCapacity)),
    ("fields".toList, .array (S.fields.map Field.toValue))]

/-- A schema in print. -/
def compact (S : Schema) : Text := S.toValue.compact

-- ================================================================== parts

section

variable {isNumber isText isKey : Text → Prop}

/-- What holds of the parts of a schema holds of its value. -/
theorem all_toValue {S : Schema} (hnumber : ∀ n, isNumber (Text.ofNat n))
    (hkey : ∀ k ∈ keys ++ fieldKeys, isKey k)
    (hdialect : isText S.dialect.name)
    (hqualifier : ∀ p, S.qualifier = some p → isText p)
    (hid : ∀ f ∈ S.fields, isText f.id)
    (htype : ∀ ty : DataType, isText ty.name) :
    S.toValue.All isNumber isText isKey := by
  have hfield : ∀ f ∈ S.fields, f.toValue.All isNumber isText isKey := by
    intro f hf
    exact ⟨hkey _ (by decide), hid f hf, hkey _ (by decide), htype f.type,
      hkey _ (by decide), trivial, trivial⟩
  have hfields : ∀ fs : List Field,
      (∀ f ∈ fs, f.toValue.All isNumber isText isKey) →
      Value.AllItems isNumber isText isKey (fs.map Field.toValue) := by
    intro fs hfs
    induction fs with
    | nil => trivial
    | cons f fs ih =>
        exact ⟨hfs f (List.mem_cons_self ..),
          ih fun g hg => hfs g (List.mem_cons_of_mem _ hg)⟩
  have hoptional : (optionalValue S.qualifier).All isNumber isText isKey := by
    cases hq : S.qualifier with
    | none => trivial
    | some p => exact hqualifier p hq
  exact ⟨hkey _ (by decide), hdialect, hkey _ (by decide), hoptional,
    hkey _ (by decide), trivial, hkey _ (by decide), hnumber _,
    hkey _ (by decide), hfields _ hfield, trivial⟩

end

-- =================================================================== JSON

/-- The compact object of a field encodes it. -/
private theorem encodesField_toValue (f : Field) :
    EncodesField f f.toValue.toTree :=
  @EncodesField.object f f.type.name _ [] _ (DataType.parse?_name f.type)
    .written (List.forall_mem_nil _) (List.Perm.refl _)

/-- A dialect is printed by one of its names. -/
private theorem name_mem_names (d : Dialect) :
    (d.name, d) ∈ Dialect.names := by
  cases d <;> decide

/-- The compact object of a schema encodes it. -/
theorem encodes_toValue (S : Schema) : Encodes S S.toValue.toTree := by
  have hitems : List.Forall₂ EncodesField S.fields
      (Value.itemTrees (S.fields.map Field.toValue)) := by
    induction S.fields with
    | nil => exact .nil
    | cons f fs ih => exact .cons (encodesField_toValue f) ih
  have hoptional : (optionalValue S.qualifier).toTree
      = optionalTree S.qualifier := by
    cases S.qualifier <;> rfl
  refine .object (name_mem_names S.dialect) .written .written .written
    .written hitems ?_
  rw [← hoptional]
  exact List.Perm.refl _

/-- The print of a schema is one of its texts. -/
theorem denotes_compact (S : Schema) : Denotes S S.compact := by
  have hall : S.toValue.All Json.IsNumeral (fun _ => True) fun _ => True :=
    all_toValue Json.isNumeral_ofNat (fun _ _ => trivial) trivial
      (fun _ _ => trivial) (fun _ _ => trivial) fun _ => trivial
  have hwritten := Value.written_compact (fun _ h => h) S.toValue hall
  exact ⟨S.toValue.toTree, encodes_toValue S, hwritten.bare⟩

-- =================================================================== YAML

private theorem foldlM_digits {ds : Text} (h : ∀ d ∈ ds, d.isDigit = true)
    (n : Nat) :
    ds.foldlM (fun n c => do
        let d ← hexDigit? c
        if d < 10 then some (10 * n + d) else none) n
      = some (Nat.ofDigitChars 10 ds n) := by
  induction ds generalizing n with
  | nil => rfl
  | cons d ds ih =>
      have hd := h d (List.mem_cons_self ..)
      have hsmall : d.toNat - '0'.toNat < 10 := by
        simp only [Char.isDigit, Bool.and_eq_true, decide_eq_true_eq,
          UInt32.le_iff_toNat_le] at hd
        have hnine : '9'.val.toNat = 57 := rfl
        have hzero : '0'.toNat = 48 := rfl
        have hval : d.toNat = d.val.toNat := rfl
        omega
      have hhex : hexDigit? d = some (d.toNat - '0'.toNat) := if_pos hd
      rw [List.foldlM_cons, hhex]
      simp only [Option.bind_eq_bind, Option.bind_some, if_pos hsmall]
      rw [Nat.ofDigitChars_cons]
      exact ih (fun e he => h e (List.mem_cons_of_mem _ he)) _

private theorem digitsOf?_ofNat {n : Nat} (h : n < naturalBound) :
    digitsOf? 10 (Text.ofNat n) = some n := by
  have hnonempty : (Text.ofNat n).isEmpty = false := by
    rw [List.isEmpty_eq_false_iff]
    exact Nat.toDigits_ne_nil
  have hfold := foldlM_digits (@Text.isDigit_of_mem_ofNat n) 0
  rw [Text.ofDigitChars_ofNat] at hfold
  unfold digitsOf?
  simp only [hnonempty, Bool.false_eq_true, if_false]
  rw [hfold]
  exact if_pos h

/-- A number in decimal digits has no sign and no base of its own. -/
theorem yamlNaturalOf?_ofNat {n : Nat} (h : n < naturalBound) :
    yamlNaturalOf? (Text.ofNat n) = some n := by
  rcases Nat.eq_zero_or_pos n with rfl | hn
  · decide
  · obtain ⟨c, ds, hds, hc⟩ := Json.exists_cons_ofNat hn
    have hdigit : c.isDigit = true :=
      Text.isDigit_of_mem_ofNat c (hds ▸ List.mem_cons_self ..)
    have hplus : c ≠ '+' := by
      rintro rfl
      cases hdigit
    have hdigits := digitsOf?_ofNat h
    rw [hds] at hdigits ⊢
    simpa [yamlNaturalOf?, Text.dropLeading, hplus, hc] using hdigits

private theorem isWord_ofNat (n : Nat) : Yaml.IsWord (Text.ofNat n) := by
  refine ⟨Nat.toDigits_ne_nil, ?_⟩
  intro c hc
  simp [Char.isAlphanum, Text.isDigit_of_mem_ofNat c hc]

variable (root : Yaml.Node)

/-- Read as YAML, the compact object of a field is the field. -/
private theorem decodeField_toValue (f : Field) :
    decodeField (yamlReading root) (Yaml.ofValue f.toValue) = .ok f := by
  have htype : decodeType (yamlReading root) (Yaml.quoted f.type.name)
      = .ok f.type :=
    decodeType_of_text _ rfl (DataType.parse?_name f.type)
  have hbool : given ((yamlReading root).bool
      (Yaml.ofValue (.bool f.searchable))) = .ok f.searchable := by
    cases f.searchable <;> rfl
  have hruns : FieldRuns (yamlReading root) {}
      [(some "id".toList, Yaml.quoted f.id),
        (some "type".toList, Yaml.quoted f.type.name),
        (some "searchable".toList, Yaml.ofValue (.bool f.searchable))]
      f.id f.type (some f.searchable) := by
    refine ⟨?_, ?_, ?_, ?_⟩
    · exact .here rfl (.other (by decide) (.other (by decide) .nil))
    · exact .other (by decide) (.here htype (.other (by decide) .nil))
    · exact .other (by decide) (.other (by decide) (.here hbool .nil))
    · intro m hm _ _ _
      simp only [List.mem_cons, List.not_mem_nil, or_false] at hm
      rcases hm with rfl | rfl | rfl <;> rfl
  exact FieldParts.readAll_of_runs (yamlReading root) hruns

/-- Read as YAML, the compact object of a schema is the schema. -/
theorem decode_toValue {S : Schema} (h : S.cacheCapacity < naturalBound) :
    decode (yamlReading root) (Yaml.ofValue S.toValue) = .ok S := by
  have hdialect : decodeDialect (yamlReading root)
      (Yaml.quoted S.dialect.name) = .ok S.dialect :=
    decodeDialect_of_choice _ rfl (ofName?_of_mem (name_mem_names S.dialect))
  have hqualifier : given ((yamlReading root).optionalText
      (Yaml.ofValue (optionalValue S.qualifier))) = .ok S.qualifier := by
    cases S.qualifier <;> rfl
  have hlenient : given ((yamlReading root).bool
      (Yaml.ofValue (.bool S.lenient))) = .ok S.lenient := by
    cases S.lenient <;> rfl
  have hcapacity : given ((yamlReading root).natural
      (Yaml.ofValue (.number (Text.ofNat S.cacheCapacity))))
        = .ok S.cacheCapacity :=
    congrArg given (yamlNaturalOf?_ofNat h)
  have hfields : decodeFields (yamlReading root)
      (Yaml.ofValue (.array (S.fields.map Field.toValue)))
        = .ok S.fields := by
    apply decodeFields_of_forall₂ (yamlReading root) rfl
    induction S.fields with
    | nil => exact .nil
    | cons f fs ih => exact .cons (decodeField_toValue root f) ih
  -- Each part is filled by one member, and passes over the others.
  have hruns : Runs (yamlReading root) {}
      [(some "dialect".toList, Yaml.quoted S.dialect.name),
        (some "prefix".toList, Yaml.ofValue (optionalValue S.qualifier)),
        (some "lenient".toList, Yaml.ofValue (.bool S.lenient)),
        (some "cache_capacity".toList,
          Yaml.ofValue (.number (Text.ofNat S.cacheCapacity))),
        (some "fields".toList,
          Yaml.ofValue (.array (S.fields.map Field.toValue)))]
      (some S.dialect) (some S.qualifier) (some S.lenient)
      (some S.cacheCapacity) S.fields := by
    refine ⟨?_, ?_, ?_, ?_, ?_, ?_⟩
    · exact .here hdialect (.other (by decide) (.other (by decide)
        (.other (by decide) (.other (by decide) .nil))))
    · exact .other (by decide) (.here hqualifier (.other (by decide)
        (.other (by decide) (.other (by decide) .nil))))
    · exact .other (by decide) (.other (by decide) (.here hlenient
        (.other (by decide) (.other (by decide) .nil))))
    · exact .other (by decide) (.other (by decide) (.other (by decide)
        (.here hcapacity (.other (by decide) .nil))))
    · exact .other (by decide) (.other (by decide) (.other (by decide)
        (.other (by decide) (.here hfields .nil))))
    · intro m hm k hk
      simp only [List.mem_cons, List.not_mem_nil, or_false] at hm
      rcases hm with rfl | rfl | rfl | rfl | rfl
      all_goals
        obtain rfl := Option.some.inj hk
        decide
  exact Parts.readAll_of_runs (yamlReading root) hruns

/-- The print of a schema of printable ids and prefix is read alike in both
formats: as the schema, or with a complaint about the same id. -/
theorem ofYaml_compact {S : Schema}
    (hbound : S.cacheCapacity < naturalBound)
    (hid : ∀ f ∈ S.fields, f.id.IsPrintable)
    (hqualifier : ∀ p, S.qualifier = some p → p.IsPrintable) :
    ofYaml S.compact = ofJson S.compact
      ∧ ((S.fields.map (·.id)).Nodup → ofJson S.compact = .ok S)
      ∧ (¬(S.fields.map (·.id)).Nodup → ∃ before f after,
          S.fields = before ++ f :: after
            ∧ (before.map (·.id)).Nodup ∧ f.id ∈ before.map (·.id)
            ∧ ofJson S.compact = .error (.repeatedId f.id)) := by
  have hcommon : Yaml.Common S.toValue := by
    apply all_toValue isWord_ofNat (by decide) _ hqualifier hid
    · intro ty
      cases ty <;> decide
    · cases S.dialect <;> decide
  have hyaml : ofYaml S.compact = checked S := by
    unfold ofYaml
    rw [compact, toValue, Yaml.ofText_compact hcommon]
    exact ofDocument_of_decode _ (decode_toValue _ hbound) .yaml
  rw [hyaml, ofJson_eq_checked (denotes_compact S) hbound]
  exact ⟨rfl, checked_cases S⟩

/-- A prefix that would be nothing if it were plain, and an id with blanks,
both escapes and signs of either format in it. -/
theorem ofYaml_compact_marks :
    ofYaml ("\x7b\"dialect\":\"mysql\",\"prefix\":\"null\",".toList
        ++ "\"lenient\":true,\"cache_capacity\":0,\"fields\":[".toList
        ++ "\x7b\"id\":\"- #\\\": \x7b\\\\ \",\"type\":\"date\",".toList
        ++ "\"searchable\":false\x7d]\x7d".toList)
      = .ok {
        dialect := .mysql
        qualifier := some "null".toList
        lenient := true
        cacheCapacity := 0
        fields := [⟨"- #\": \x7b\\ ".toList, .date, false⟩] } := by
  have hqualifier : ∀ p, some "null".toList = some p →
      Text.IsPrintable p := by
    intro p hp
    obtain rfl := Option.some.inj hp
    decide
  obtain ⟨heq, hok, -⟩ := @ofYaml_compact
    { dialect := .mysql, qualifier := some "null".toList, lenient := true
      cacheCapacity := 0
      fields := [⟨"- #\": \x7b\\ ".toList, .date, false⟩] }
    (by decide) (by decide) hqualifier
  exact heq.trans (hok (by decide))

end Schema
end FilterQuery
