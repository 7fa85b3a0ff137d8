/-
All the JSON texts of a schema. A schema is written as an object, and each
of its fields as one; the members stand in any order. A part that is at its
default may be left out, a name may be any of those accepted, and a field
may have members under other keys besides (`Encodes`). The text of the
object is then any that the format has for it (`Denotes`).

`ofJson_of_denotes` says that nothing of all this is lost or confused: the
schema comes back as it is, or the first id that stands twice is named.
-/
import FilterQuery.Proofs.Json.Printing
import FilterQuery.Proofs.Json.Reading
import FilterQuery.Proofs.Schema.Decoding
import FilterQuery.Schema.Formats

namespace FilterQuery
namespace Schema

open Json (Tree Written)

-- ============================================================= encodings

/-- The member for a part; there may be none if the part is at its
default. -/
inductive IsPart (key : Text) (isDefault : Prop) (v : Tree) :
    List (Option Text × Tree) → Prop where
  | omitted (h : isDefault) : IsPart key isDefault v []
  | written : IsPart key isDefault v [(some key, v)]

/-- A text, or nothing in its place. -/
def optionalTree : Option Text → Tree
  | none => .null
  | some t => .string (some t)

/-- The objects of a field. Members under unknown keys may have any value. -/
inductive EncodesField (f : Field) : Tree → Prop where
  | object {name : Text} {searchable extra ms : List (Option Text × Tree)}
      (hname : DataType.parse? name = some f.type)
      (hsearchable : IsPart "searchable".toList (f.searchable = false)
        (.bool f.searchable) searchable)
      (hextra : ∀ m ∈ extra, ∃ k, m.1 = some k ∧ k ∉ fieldKeys)
      (hms : ms.Perm ((some "id".toList, .string (some f.id))
        :: (some "type".toList, .string (some name))
        :: (searchable ++ extra))) :
      EncodesField f (.object ms)

/-- The objects of a schema. -/
inductive Encodes (S : Schema) : Tree → Prop where
  | object {name : Text} {items : List Tree}
      {dialect qualifier lenient capacity ms : List (Option Text × Tree)}
      (hname : (name, S.dialect) ∈ Dialect.names)
      (hdialect : IsPart "dialect".toList (S.dialect = .ansi)
        (.string (some name)) dialect)
      (hqualifier : IsPart "prefix".toList (S.qualifier = none)
        (optionalTree S.qualifier) qualifier)
      (hlenient : IsPart "lenient".toList (S.lenient = false)
        (.bool S.lenient) lenient)
      (hcapacity : IsPart "cache_capacity".toList
        (S.cacheCapacity = Cache.defaultCapacity)
        (.number (Text.ofNat S.cacheCapacity)) capacity)
      (hitems : List.Forall₂ EncodesField S.fields items)
      (hms : ms.Perm (dialect ++ (qualifier ++ (lenient ++ (capacity
        ++ [(some "fields".toList, .array items)]))))) :
      Encodes S (.object ms)

/-- The text is one of the schema's, in whichever form. -/
def Denotes (S : Schema) (t : Text) : Prop :=
  ∃ v, Encodes S v ∧ Written (.padded v) t

-- ============================================================== one part

variable {β : Type} {key : Text} {isDefault : Prop} {v : Tree}
  {part : List (Option Text × Tree)}

/-- The member of a part fills its place with its value, and what is left
out with the default. -/
theorem IsPart.fills {decode : Tree → Decoded β} {b default : β}
    (h : IsPart key isDefault v part) (hv : decode v = .ok b)
    (hdefault : isDefault → b = default) :
    ∃ c, Fills key decode none part c ∧ c.getD default = b := by
  cases h with
  | omitted h => exact ⟨none, .nil, (hdefault h).symm⟩
  | written => exact ⟨some b, .here hv .nil, rfl⟩

/-- The members of a part have its key. -/
theorem IsPart.has_key (h : IsPart key isDefault v part) :
    ∀ m ∈ part, m.1 = some key := by
  intro m hm
  cases h with
  | omitted => cases hm
  | written =>
      obtain rfl := List.mem_singleton.1 hm
      rfl

private theorem naturalOf?_ofNat {n : Nat} (h : n < naturalBound) :
    naturalOf? (Text.ofNat n) = some n := by
  unfold naturalOf?
  rw [if_pos (Text.isDigits_ofNat n), Text.ofDigitChars_ofNat, if_pos h]

-- =============================================================== decoding

private theorem isWhole_of_mem {ms : List (Option Text × Tree)}
    (h : Tree.allMembersWhole ms = true) : ∀ m ∈ ms, m.2.isWhole = true := by
  induction ms with
  | nil => intro m hm; cases hm
  | cons m ms ih =>
      obtain ⟨hm, hms⟩ : m.2.isWhole = true ∧ Tree.allMembersWhole ms = true :=
        by simpa [Tree.allMembersWhole] using h
      intro n hn
      rcases List.mem_cons.1 hn with rfl | hn
      · exact hm
      · exact ih hms n hn

/-- The members for the parts of a field, by their keys. -/
def fieldGroups (id type : Tree) (searchable : List (Option Text × Tree)) :
    List (Text × List (Option Text × Tree)) :=
  [("id".toList, [(some "id".toList, id)]),
    ("type".toList, [(some "type".toList, type)]),
    ("searchable".toList, searchable)]

/-- The members for the parts of a schema, by their keys. -/
def groups (dialect qualifier lenient capacity : List (Option Text × Tree))
    (fields : Tree) : List (Text × List (Option Text × Tree)) :=
  [("dialect".toList, dialect), ("prefix".toList, qualifier),
    ("lenient".toList, lenient), ("cache_capacity".toList, capacity),
    ("fields".toList, [(some "fields".toList, fields)])]

variable {read : Tree → Decoded β} {c : Option β}
  {searchable extra ms : List (Option Text × Tree)}

/-- Of the members of a field only those for a part matter to the part. -/
theorem fills_of_fieldGroup {id type : Tree}
    (hsearchable : ∀ m ∈ searchable, m.1 = some "searchable".toList)
    (hextra : ∀ m ∈ extra, ∃ k, m.1 = some k ∧ k ∉ fieldKeys)
    (hms : ms.Perm ((some "id".toList, id) :: (some "type".toList, type)
      :: (searchable ++ extra)))
    (hmem : (key, part) ∈ fieldGroups id type searchable)
    (h : Fills key read none part c) : Fills key read none ms c := by
  have hkeys : ∀ g ∈ fieldGroups id type searchable,
      ∀ m ∈ g.2, m.1 = some g.1 := by
    simp only [fieldGroups, List.forall_mem_cons]
    exact ⟨⟨trivial, List.forall_mem_nil _⟩,
      ⟨trivial, List.forall_mem_nil _⟩, hsearchable, List.forall_mem_nil _⟩
  have hnodup : ((fieldGroups id type searchable).map (·.1)).Nodup := by
    show fieldKeys.Nodup
    decide
  have hkey : key ∈ fieldKeys := List.mem_map_of_mem (f := (·.1)) hmem
  have hskip : Fills key read c extra c := by
    apply Fills.of_others
    intro m hm
    obtain ⟨k, hk, hne⟩ := hextra m hm
    exact ⟨k, hk, fun heq => hne (heq ▸ hkey)⟩
  apply Fills.perm hms.symm
  have hall := (h.of_groups hkeys hnodup hmem).append hskip
  simpa [fieldGroups] using hall

variable {dialect qualifier lenient capacity : List (Option Text × Tree)}

private theorem has_key_groups {fields : Tree}
    (hdialect : ∀ m ∈ dialect, m.1 = some "dialect".toList)
    (hqualifier : ∀ m ∈ qualifier, m.1 = some "prefix".toList)
    (hlenient : ∀ m ∈ lenient, m.1 = some "lenient".toList)
    (hcapacity : ∀ m ∈ capacity, m.1 = some "cache_capacity".toList) :
    ∀ g ∈ groups dialect qualifier lenient capacity fields,
      ∀ m ∈ g.2, m.1 = some g.1 := by
  simp only [groups, List.forall_mem_cons]
  exact ⟨hdialect, hqualifier, hlenient, hcapacity,
    ⟨trivial, List.forall_mem_nil _⟩, List.forall_mem_nil _⟩

/-- Of the members of a schema only those for a part matter to the part. -/
theorem fills_of_group {fields : Tree}
    (hkeys : ∀ g ∈ groups dialect qualifier lenient capacity fields,
      ∀ m ∈ g.2, m.1 = some g.1)
    (hms : ms.Perm
      ((groups dialect qualifier lenient capacity fields).flatMap (·.2)))
    (hmem : (key, part) ∈ groups dialect qualifier lenient capacity fields)
    (h : Fills key read none part c) : Fills key read none ms c := by
  have hnodup : ((groups dialect qualifier lenient capacity fields).map
      (·.1)).Nodup := by
    show keys.Nodup
    decide
  exact (h.of_groups hkeys hnodup hmem).perm hms.symm

private theorem decodeField_of_encodes {f : Field} (h : EncodesField f v)
    (hwhole : v.isWhole = true) : decodeField jsonReading v = .ok f := by
  cases h with
  | @object name searchable extra ms hname hsearchable hextra hms =>
      have htype : decodeType jsonReading (.string (some name))
          = .ok f.type :=
        decodeType_of_text jsonReading rfl hname
      have hsearchableRun : ∃ c, Fills "searchable".toList
            (fun v => given (jsonReading.bool v)) none searchable c
          ∧ c.getD false = f.searchable :=
        hsearchable.fills rfl id
      obtain ⟨c, hc, hvalue⟩ := hsearchableRun
      have hrecord : FieldRuns jsonReading {} ms f.id f.type c := by
        refine ⟨?_, ?_, ?_, ?_⟩
        · exact fills_of_fieldGroup hsearchable.has_key hextra hms (.head _)
            (.here rfl .nil)
        · exact fills_of_fieldGroup hsearchable.has_key hextra hms
            (.tail _ (.head _)) (.here htype .nil)
        · exact fills_of_fieldGroup hsearchable.has_key hextra hms
            (.tail _ (.tail _ (.head _))) hc
        · intro m hm _ _ _
          exact isWhole_of_mem (by simpa [Tree.isWhole] using hwhole) m hm
      show FieldParts.readAll jsonReading {} ms = .ok f
      rw [FieldParts.readAll_of_runs jsonReading hrecord, hvalue]

private theorem decodeItems_of_encodes {fields : List Field}
    {items : List Tree} (h : List.Forall₂ EncodesField fields items)
    (hwhole : Tree.allWhole items = true) :
    decodeFields jsonReading (.array items) = .ok fields := by
  apply decodeFields_of_forall₂ jsonReading rfl
  induction h with
  | nil => exact .nil
  | @cons f v fields items hf h ih =>
      obtain ⟨hv, hitems⟩ : v.isWhole = true ∧ Tree.allWhole items = true := by
        simpa [Tree.allWhole] using hwhole
      exact .cons (decodeField_of_encodes hf hv) (ih hitems)

/-- Every accepted name is looked up as what it stands for. -/
theorem ofName?_of_mem {name : Text} {d : Dialect}
    (h : (name, d) ∈ Dialect.names) : Dialect.ofName? name = some d := by
  have hall : ∀ p ∈ Dialect.names, Dialect.ofName? p.1 = some p.2 := by
    decide
  exact hall _ h

theorem decode_of_encodes {S : Schema} (h : Encodes S v)
    (hwhole : v.isWhole = true) (hbound : S.cacheCapacity < naturalBound) :
    decode jsonReading v = .ok S := by
  cases h with
  | @object name items dialect qualifier lenient capacity ms hname hdialect
      hqualifier hlenient hcapacity hitems hms =>
      have hmembers : Tree.allMembersWhole ms = true := by
        simpa [Tree.isWhole] using hwhole
      have hdecode : decodeFields jsonReading (.array items)
          = .ok S.fields := by
        apply decodeItems_of_encodes hitems
        have hmem : (some "fields".toList, Tree.array items) ∈ ms :=
          hms.symm.mem_iff.1 (by simp)
        simpa [Tree.isWhole] using isWhole_of_mem hmembers _ hmem
      have hoptional : jsonReading.optionalText (optionalTree S.qualifier)
          = some S.qualifier := by
        cases S.qualifier <;> rfl
      have hnatural : jsonReading.natural
          (.number (Text.ofNat S.cacheCapacity)) = some S.cacheCapacity :=
        naturalOf?_ofNat hbound
      -- A part that is written is filled by its member, and one that is
      -- omitted has its default.
      obtain ⟨d, hd, hdvalue⟩ : ∃ c, Fills "dialect".toList
            (decodeDialect jsonReading) none dialect c
          ∧ c.getD .ansi = S.dialect :=
        hdialect.fills
          (decodeDialect_of_choice jsonReading rfl (ofName?_of_mem hname)) id
      obtain ⟨q, hq, hqvalue⟩ : ∃ c, Fills "prefix".toList
            (fun v => given (jsonReading.optionalText v)) none qualifier c
          ∧ c.getD none = S.qualifier :=
        hqualifier.fills (by rw [hoptional]; rfl) id
      obtain ⟨l, hl, hlvalue⟩ : ∃ c, Fills "lenient".toList
            (fun v => given (jsonReading.bool v)) none lenient c
          ∧ c.getD false = S.lenient :=
        hlenient.fills rfl id
      obtain ⟨n, hn, hnvalue⟩ : ∃ c, Fills "cache_capacity".toList
            (fun v => given (jsonReading.natural v)) none capacity c
          ∧ c.getD Cache.defaultCapacity = S.cacheCapacity :=
        hcapacity.fills (by rw [hnatural]; rfl) id
      have hkeys := @has_key_groups _ _ _ _ (.array items) hdialect.has_key
        hqualifier.has_key hlenient.has_key hcapacity.has_key
      -- In whatever order they are written, the members fall into groups by
      -- their keys.
      have hgroups : ms.Perm ((groups dialect qualifier lenient capacity
          (.array items)).flatMap (·.2)) := by
        simpa [groups] using hms
      have hrecord : Runs jsonReading {} ms d q l n S.fields := by
        refine ⟨?_, ?_, ?_, ?_, ?_, ?_⟩
        · exact fills_of_group hkeys hgroups (.head _) hd
        · exact fills_of_group hkeys hgroups (.tail _ (.head _)) hq
        · exact fills_of_group hkeys hgroups (.tail _ (.tail _ (.head _))) hl
        · exact fills_of_group hkeys hgroups
            (.tail _ (.tail _ (.tail _ (.head _)))) hn
        · exact fills_of_group hkeys hgroups
            (.tail _ (.tail _ (.tail _ (.tail _ (.head _)))))
            (.here hdecode .nil)
        · intro m hm k hk
          obtain ⟨g, hg, hmg⟩ := List.mem_flatMap.1 (hgroups.mem_iff.1 hm)
          have hkey := hkeys g hg m hmg
          rw [hk] at hkey
          obtain rfl := Option.some.inj hkey
          exact List.mem_map_of_mem (f := (·.1)) hg
      show Parts.readAll jsonReading {} ms = .ok S
      rw [Parts.readAll_of_runs jsonReading hrecord, hdvalue, hqvalue, hlvalue,
        hnvalue]

theorem ofJson_eq_checked {S : Schema} {t : Text} (h : Denotes S t)
    (hbound : S.cacheCapacity < naturalBound) : ofJson t = checked S := by
  obtain ⟨v, hv, ht⟩ := h
  have hdecode : decode jsonReading v = .ok S :=
    decode_of_encodes hv (Json.isWhole_of_written ht) hbound
  rw [ofJson, Json.ofText_of_written ht]
  exact ofDocument_of_decode jsonReading hdecode .json

/-- Every text of a schema is read as the schema, its fields in their
order, if no two of them have the same id. Otherwise the complaint is about
the first field whose id stands before it. -/
theorem ofJson_of_denotes {S : Schema} {t : Text} (h : Denotes S t)
    (hbound : S.cacheCapacity < naturalBound) :
    ((S.fields.map (·.id)).Nodup → ofJson t = .ok S)
      ∧ (¬(S.fields.map (·.id)).Nodup → ∃ before f after,
          S.fields = before ++ f :: after
            ∧ (before.map (·.id)).Nodup ∧ f.id ∈ before.map (·.id)
            ∧ ofJson t = .error (.repeatedId f.id)) := by
  rw [ofJson_eq_checked h hbound]
  exact checked_cases S

/-- A type by a second name in capitals between spaces, a dialect by an
alias and behind the fields, an id in escapes that need two units for one
character, a member that no field has, and defaults left out. -/
theorem ofJson_of_denotes_escaped :
    ofJson (" \x7b\"fields\":[\x7b\"note\":[ ],\"type\":\" INT \",".toList
        ++ "\"id\":\"\\u0061\\uD83d\\uDE00\"\x7d],".toList
        ++ "\"dialect\":\"postgres\"\x7d\n".toList)
      = .ok { fields := [⟨['a', .ofNat 0x1F600], .integer, false⟩] } := by
  have hfirst : Json.IsUnit 0x61 ['0', '0', '6', '1'] :=
    @Json.IsUnit.digits _ _ _ _ 0 0 6 1 rfl rfl rfl rfl
  have hhigh : Json.IsUnit 0xD83D ['D', '8', '3', 'd'] :=
    @Json.IsUnit.digits _ _ _ _ 13 8 3 13 rfl rfl rfl rfl
  have hlow : Json.IsUnit 0xDE00 ['D', 'E', '0', '0'] :=
    @Json.IsUnit.digits _ _ _ _ 13 14 0 0 rfl rfl rfl rfl
  -- The two units are the halves of one character.
  have hpair := Json.IsBodyOf.pair hhigh hlow (by omega) (by omega) .nil
  have hcode : 0x10000 + (0xD83D - 0xD800) * 0x400 + (0xDE00 - 0xDC00)
      = 0x1F600 := rfl
  rw [hcode] at hpair
  have hid := Json.IsString.text
    (.unit hfirst (by unfold Json.IsHalf; omega) hpair)
  have hspace : ∀ c ∈ [' ', '\n'], Json.IsSpace [c] := by
    simp [Json.IsSpace]
  -- From the inside out: the members of the field, then those of the schema.
  have hnote : Written (.value (.array [])) _ :=
    .emptyArray (hspace ' ' (by decide))
  have htype : Written (.value (.string (some " INT ".toList))) _ :=
    .string (Json.isString_quote _)
  have hfield : Written (.value (.object _)) _ :=
    .object (.members (hnote.bareMember "note".toList)
      (.members (htype.bareMember "type".toList)
        (.lastMember ((Written.string hid).bareMember "id".toList))))
  have hdialect : Written (.value (.string (some "postgres".toList))) _ :=
    .string (Json.isString_quote _)
  have hschema : Written (.value (.object _)) _ :=
    .object (.members
      ((Written.array (.item hfield.bare)).bareMember "fields".toList)
      (.lastMember (hdialect.bareMember "dialect".toList)))
  have hpadded :=
    Written.padded (hspace ' ' (by decide)) hschema (hspace '\n' (by decide))
  refine (ofJson_of_denotes ⟨_, ?_, hpadded⟩ (by decide)).1 (by decide)
  refine @Encodes.object _ "postgres".toList [_]
    [(some "dialect".toList, .string (some "postgres".toList))] [] [] [] _
    (by decide) .written (.omitted rfl) (.omitted rfl) (.omitted rfl)
    (.cons ?_ .nil) (List.reverse_perm
      [(some "dialect".toList, _), (some "fields".toList, _)])
  refine @EncodesField.object _ " INT ".toList []
    [(some "note".toList, .array [])] _ (by decide) (.omitted rfl) ?_
    (List.reverse_perm [(some "id".toList, _), (some "type".toList, _),
      (some "note".toList, _)])
  intro m hm
  obtain rfl := List.mem_singleton.1 hm
  exact ⟨_, rfl, by decide⟩

end Schema
end FilterQuery
