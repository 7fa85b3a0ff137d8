/-
What a record decodes to, in whichever order its entries stand. Of all that
is done at an entry only what its key stands for matters to the part of
that key, so each part has a run of its own through the entries (`Fills`),
and such a run survives every rearrangement of them (`Fills.perm`). A
record decodes to the values that the runs of its parts end with.

The keys and values are those of any format: nothing is asked of a
`Reading` but what it makes of the single entries.
-/
import FilterQuery.Schema.Decoding
import Mathlib.Data.List.Forall2

namespace FilterQuery
namespace Schema

variable {α β : Type}

-- =============================================================== one key

/-- A run through entries for the part of a key: what is there of the part
before it and after it. The key may stand once, if nothing was there. -/
inductive Fills (key : Text) (decode : α → Decoded β) :
    Option β → List (Option Text × α) → Option β → Prop where
  | nil {b : Option β} : Fills key decode b [] b
  | here {v : α} {b : β} {ms : List (Option Text × α)} {c : Option β}
      (hv : decode v = .ok b) (h : Fills key decode (some b) ms c) :
      Fills key decode none ((some key, v) :: ms) c
  | other {k : Text} {v : α} {ms : List (Option Text × α)}
      {b c : Option β} (hk : k ≠ key) (h : Fills key decode b ms c) :
      Fills key decode b ((some k, v) :: ms) c

namespace Fills

variable {key : Text} {decode : α → Decoded β} {a b c : Option β}
  {ms ns : List (Option Text × α)}

/-- Entries under other keys change nothing. -/
theorem of_others (h : ∀ m ∈ ms, ∃ k, m.1 = some k ∧ k ≠ key) :
    Fills key decode b ms b := by
  induction ms with
  | nil => exact .nil
  | cons m ms ih =>
      obtain ⟨key', v⟩ := m
      obtain ⟨k, hm, hk⟩ := h _ (List.mem_cons_self ..)
      obtain rfl : key' = some k := hm
      exact .other hk (ih fun n hn => h n (List.mem_cons_of_mem _ hn))

/-- A part may be filled in two stretches. -/
theorem append (h : Fills key decode a ms b) (h' : Fills key decode b ns c) :
    Fills key decode a (ms ++ ns) c := by
  induction h with
  | nil => exact h'
  | here hv h ih => exact .here hv (ih h')
  | other hk h ih => exact .other hk (ih h')

/-- The order of the entries does not matter. -/
theorem perm (hp : ms.Perm ns) (h : Fills key decode a ms b) :
    Fills key decode a ns b := by
  induction hp generalizing a b with
  | nil => exact h
  | cons m hp ih =>
      cases h with
      | here hv h => exact .here hv (ih h)
      | other hk h => exact .other hk (ih h)
  | swap m n ms =>
      cases h with
      | here hv h =>
          cases h with
          | other hk h => exact .other hk (.here hv h)
      | other hk h =>
          cases h with
          | here hv h => exact .here hv (.other hk h)
          | other hk' h => exact .other hk' (.other hk h)
  | trans hp hq ihp ihq => exact ihq (ihp h)

/-- Where the entries come in groups of one key each, those of the key do
all there is to do for it. -/
theorem of_groups {groups : List (Text × List (Option Text × α))}
    (hkeys : ∀ g ∈ groups, ∀ m ∈ g.2, m.1 = some g.1)
    (hnodup : (groups.map (·.1)).Nodup) (hmem : (key, ms) ∈ groups)
    (h : Fills key decode none ms c) :
    Fills key decode none (groups.flatMap (·.2)) c := by
  induction groups with
  | nil => cases hmem
  | cons g groups ih =>
      rw [List.map_cons, List.nodup_cons] at hnodup
      have hkeys' := fun g hg => hkeys g (List.mem_cons_of_mem _ hg)
      rw [List.flatMap_cons]
      rcases List.mem_cons.1 hmem with rfl | hmem
      · apply h.append
        apply of_others
        intro m hm
        obtain ⟨g, hg, hmg⟩ := List.mem_flatMap.1 hm
        refine ⟨g.1, hkeys' g hg m hmg, ?_⟩
        rintro rfl
        exact hnodup.1 (List.mem_map.2 ⟨g, hg, rfl⟩)
      · have hskip : Fills key decode none g.2 none := by
          apply of_others
          intro m hm
          refine ⟨g.1, hkeys g (List.mem_cons_self ..) m hm, ?_⟩
          rintro rfl
          exact hnodup.1 (List.mem_map.2 ⟨_, hmem, rfl⟩)
        exact hskip.append (ih hkeys' hnodup.2 hmem)

/-- What reading the part of the key does at an entry under the key. -/
theorem once {v : α} (h : Fills key decode a ((some key, v) :: ms) c) :
    ∃ b, Schema.once key a (decode v) = .ok b
      ∧ Fills key decode b ms c := by
  cases h with
  | @here v b ms c hv h =>
      refine ⟨some b, ?_, h⟩
      rw [Schema.once, hv]
      rfl
  | other hk h => exact absurd rfl hk

/-- Members of another key leave it as it is. -/
private theorem past {k : Text} {v : α} (hk : k ≠ key)
    (h : Fills key decode a ((some k, v) :: ms) c) :
    Fills key decode a ms c := by
  cases h with
  | here hv h => exact absurd rfl hk
  | other hk h => exact h

/-- Every entry has a key. -/
theorem key_isSome (h : Fills key decode a ms b) :
    ∀ m ∈ ms, ∃ k, m.1 = some k := by
  induction h with
  | nil => intro m hm; cases hm
  | here hv h ih =>
      intro m hm
      rcases List.mem_cons.1 hm with rfl | hm
      · exact ⟨_, rfl⟩
      · exact ih m hm
  | other hk h ih =>
      intro m hm
      rcases List.mem_cons.1 hm with rfl | hm
      · exact ⟨_, rfl⟩
      · exact ih m hm

end Fills

-- =============================================================== records

variable (r : Reading α)

theorem given_some_bind {β γ : Type} (b : β) (f : β → Decoded γ) :
    (given (some b) >>= f) = f b := rfl

theorem decodeType_of_text {v : α} {name : Text} {ty : DataType}
    (hv : r.text v = some name) (hname : DataType.parse? name = some ty) :
    decodeType r v = .ok ty := by
  simp only [decodeType, hv, given_some_bind, hname]

theorem decodeDialect_of_choice {v : α} {name : Text} {d : Dialect}
    (hv : r.choice v = some (name, true))
    (hname : Dialect.ofName? name = some d) :
    decodeDialect r v = .ok d := by
  simp only [decodeDialect, hv, given_some_bind, hname, if_true]

/-- The runs of all parts of a field through its entries. What stands under
another key has to be well written. -/
structure FieldRuns (p : FieldParts) (ms : List (Option Text × α))
    (id : Text) (type : DataType) (searchable : Option Bool) : Prop where
  id : Fills "id".toList (fun v => given (r.text v)) p.id ms (some id)
  type : Fills "type".toList (decodeType r) p.type ms (some type)
  searchable : Fills "searchable".toList (fun v => given (r.bool v))
    p.searchable ms searchable
  extra : ∀ m ∈ ms, ∀ k, m.1 = some k → k ∉ fieldKeys →
    r.isWhole m.2 = true

/-- Reading an entry leaves the runs through the other entries. -/
theorem FieldRuns.step {p : FieldParts} {k : Text} {v : α}
    {ms : List (Option Text × α)} {id : Text} {type : DataType}
    {searchable : Option Bool}
    (h : FieldRuns r p ((some k, v) :: ms) id type searchable) :
    ∃ p', p.read r k v = .ok p'
      ∧ FieldRuns r p' ms id type searchable := by
  obtain ⟨hid, htype, hsearchable, hextra⟩ := h
  have hrest := fun m hm => hextra m (List.mem_cons_of_mem _ hm)
  unfold FieldParts.read
  by_cases hkid : k = "id".toList
  · subst hkid
    obtain ⟨b, hb, hrun⟩ := hid.once
    refine ⟨{ p with id := b }, ?_, hrun, htype.past (by decide),
      hsearchable.past (by decide), hrest⟩
    rw [if_pos rfl, hb]
    rfl
  by_cases hktype : k = "type".toList
  · subst hktype
    obtain ⟨b, hb, hrun⟩ := htype.once
    refine ⟨{ p with type := b }, ?_, hid.past (by decide), hrun,
      hsearchable.past (by decide), hrest⟩
    rw [if_neg (by decide), if_pos rfl, hb]
    rfl
  by_cases hksearchable : k = "searchable".toList
  · subst hksearchable
    obtain ⟨b, hb, hrun⟩ := hsearchable.once
    refine ⟨{ p with searchable := b }, ?_, hid.past (by decide),
      htype.past (by decide), hrun, hrest⟩
    rw [if_neg (by decide), if_neg (by decide), if_pos rfl, hb]
    rfl
  · have hwhole : r.isWhole v = true := by
      apply hextra _ (List.mem_cons_self ..) k rfl
      simp only [fieldKeys, List.mem_cons, List.not_mem_nil, or_false, not_or]
      exact ⟨hkid, hktype, hksearchable⟩
    refine ⟨p, ?_, hid.past hkid, htype.past hktype,
      hsearchable.past hksearchable, hrest⟩
    rw [if_neg hkid, if_neg hktype, if_neg hksearchable, if_pos hwhole]

theorem FieldParts.readAll_of_runs {p : FieldParts}
    {ms : List (Option Text × α)} {id : Text} {type : DataType}
    {searchable : Option Bool} (h : FieldRuns r p ms id type searchable) :
    p.readAll r ms
      = .ok { id, type, searchable := searchable.getD false } := by
  induction ms generalizing p with
  | nil =>
      obtain ⟨id', type', searchable'⟩ := p
      obtain ⟨hid, htype, hsearchable, -⟩ := h
      cases hid
      cases htype
      cases hsearchable
      rfl
  | cons m ms ih =>
      obtain ⟨key, v⟩ := m
      obtain ⟨k, hk⟩ := h.id.key_isSome _ (List.mem_cons_self ..)
      obtain rfl : key = some k := hk
      obtain ⟨p', hp', hruns⟩ := h.step
      rw [readAll, hp']
      exact ih hruns

/-- The runs of all parts of a schema through its entries, which have no
other keys. -/
structure Runs (p : Parts) (ms : List (Option Text × α))
    (dialect : Option Dialect) (qualifier : Option (Option Text))
    (lenient : Option Bool) (cacheCapacity : Option Nat)
    (fields : List Field) : Prop where
  dialect : Fills "dialect".toList (decodeDialect r) p.dialect ms dialect
  qualifier : Fills "prefix".toList (fun v => given (r.optionalText v))
    p.qualifier ms qualifier
  lenient : Fills "lenient".toList (fun v => given (r.bool v)) p.lenient ms
    lenient
  cacheCapacity : Fills "cache_capacity".toList
    (fun v => given (r.natural v)) p.cacheCapacity ms cacheCapacity
  fields : Fills "fields".toList (decodeFields r) p.fields ms (some fields)
  keys : ∀ m ∈ ms, ∀ k, m.1 = some k → k ∈ keys

/-- Reading an entry leaves the runs through the other entries. -/
theorem Runs.step {p : Parts} {k : Text} {v : α}
    {ms : List (Option Text × α)} {dialect : Option Dialect}
    {qualifier : Option (Option Text)} {lenient : Option Bool}
    {cacheCapacity : Option Nat} {fields : List Field}
    (h : Runs r p ((some k, v) :: ms) dialect qualifier lenient
      cacheCapacity fields) :
    ∃ p', p.read r k v = .ok p'
      ∧ Runs r p' ms dialect qualifier lenient cacheCapacity fields := by
  obtain ⟨hdialect, hqualifier, hlenient, hcapacity, hfields, hkeys⟩ := h
  have hrest := fun m hm => hkeys m (List.mem_cons_of_mem _ hm)
  have hk := hkeys _ (List.mem_cons_self ..) k rfl
  simp only [Schema.keys, List.mem_cons, List.not_mem_nil, or_false] at hk
  unfold Parts.read
  -- The member fills the part of its key, and the others pass over it.
  rcases hk with rfl | rfl | rfl | rfl | rfl
  · obtain ⟨b, hb, hrun⟩ := hdialect.once
    refine ⟨{ p with dialect := b }, ?_, hrun, hqualifier.past (by decide),
      hlenient.past (by decide), hcapacity.past (by decide),
      hfields.past (by decide), hrest⟩
    rw [if_pos rfl, hb]
    rfl
  · obtain ⟨b, hb, hrun⟩ := hqualifier.once
    refine ⟨{ p with qualifier := b }, ?_, hdialect.past (by decide), hrun,
      hlenient.past (by decide), hcapacity.past (by decide),
      hfields.past (by decide), hrest⟩
    rw [if_neg (by decide), if_pos rfl, hb]
    rfl
  · obtain ⟨b, hb, hrun⟩ := hlenient.once
    refine ⟨{ p with lenient := b }, ?_, hdialect.past (by decide),
      hqualifier.past (by decide), hrun, hcapacity.past (by decide),
      hfields.past (by decide), hrest⟩
    rw [if_neg (by decide), if_neg (by decide), if_pos rfl, hb]
    rfl
  · obtain ⟨b, hb, hrun⟩ := hcapacity.once
    refine ⟨{ p with cacheCapacity := b }, ?_, hdialect.past (by decide),
      hqualifier.past (by decide), hlenient.past (by decide), hrun,
      hfields.past (by decide), hrest⟩
    rw [if_neg (by decide), if_neg (by decide), if_neg (by decide),
      if_pos rfl, hb]
    rfl
  · obtain ⟨b, hb, hrun⟩ := hfields.once
    refine ⟨{ p with fields := b }, ?_, hdialect.past (by decide),
      hqualifier.past (by decide), hlenient.past (by decide),
      hcapacity.past (by decide), hrun, hrest⟩
    rw [if_neg (by decide), if_neg (by decide), if_neg (by decide),
      if_neg (by decide), if_pos rfl, hb]
    rfl

theorem Parts.readAll_of_runs {p : Parts} {ms : List (Option Text × α)}
    {dialect : Option Dialect} {qualifier : Option (Option Text)}
    {lenient : Option Bool} {cacheCapacity : Option Nat}
    {fields : List Field}
    (h : Runs r p ms dialect qualifier lenient cacheCapacity fields) :
    p.readAll r ms = .ok {
      dialect := dialect.getD .ansi
      qualifier := qualifier.getD none
      lenient := lenient.getD false
      cacheCapacity := cacheCapacity.getD Cache.defaultCapacity
      fields := fields } := by
  induction ms generalizing p with
  | nil =>
      obtain ⟨dialect', qualifier', lenient', capacity', fields'⟩ := p
      obtain ⟨hdialect, hqualifier, hlenient, hcapacity, hfields, -⟩ := h
      cases hdialect
      cases hqualifier
      cases hlenient
      cases hcapacity
      cases hfields
      rfl
  | cons m ms ih =>
      obtain ⟨key, v⟩ := m
      obtain ⟨k, hk⟩ := h.fields.key_isSome _ (List.mem_cons_self ..)
      obtain rfl : key = some k := hk
      obtain ⟨p', hp', hruns⟩ := h.step
      rw [readAll, hp']
      exact ih hruns

/-- A list of fields decodes to the fields that its items decode to. -/
theorem decodeFields_of_forall₂ {v : α} {items : List α}
    {fields : List Field} (hv : r.list v = some items)
    (h : List.Forall₂ (fun f u => decodeField r u = .ok f) fields items) :
    decodeFields r v = .ok fields := by
  have hitems : items.mapM (decodeField r) = .ok fields := by
    clear hv
    induction h with
    | nil => rfl
    | cons hf h ih =>
        rw [List.mapM_cons, hf, ih]
        rfl
  rw [decodeFields, hv]
  exact hitems

-- =============================================================== outcome

/-- The ids of the fields are distinct, and none was seen before. -/
def Fresh (seen : List Text) (fields : List Field) : Prop :=
  (fields.map (·.id)).Nodup ∧ ∀ f ∈ fields, f.id ∉ seen

private theorem Fresh.cons {seen : List Text} {g : Field} {fields : List Field}
    (hg : g.id ∉ seen) (h : Fresh (g.id :: seen) fields) :
    Fresh seen (g :: fields) := by
  obtain ⟨hnodup, hnew⟩ := h
  have hhead : g.id ∉ fields.map (·.id) := by
    intro hmem
    obtain ⟨f, hf, hid⟩ := List.mem_map.1 hmem
    exact hnew f hf (hid ▸ List.mem_cons_self ..)
  refine ⟨List.nodup_cons.2 ⟨hhead, hnodup⟩, ?_⟩
  intro f hf
  rcases List.mem_cons.1 hf with rfl | hf
  · exact hg
  · intro hseen
    exact hnew f hf (List.mem_cons_of_mem _ hseen)

/-- Where no id repeats, all are new. -/
private theorem fresh_of_repeatedId?_eq_none {seen : List Text}
    {fields : List Field} (h : repeatedId? seen fields = none) :
    Fresh seen fields := by
  induction fields generalizing seen with
  | nil => exact ⟨List.nodup_nil, fun f hf => by cases hf⟩
  | cons g fields ih =>
      rw [repeatedId?] at h
      by_cases hg : g.id ∈ seen
      · rw [if_pos hg] at h
        cases h
      · rw [if_neg hg] at h
        exact (ih h).cons hg

/-- The id that is found is that of the first field whose id was seen or
stands before it. -/
theorem split_of_repeatedId?_eq_some {seen : List Text}
    {fields : List Field} {id : Text}
    (h : repeatedId? seen fields = some id) :
    ∃ before f after, fields = before ++ f :: after ∧ f.id = id
      ∧ Fresh seen before
      ∧ (f.id ∈ seen ∨ f.id ∈ before.map (·.id)) := by
  induction fields generalizing seen with
  | nil => cases h
  | cons g fields ih =>
      rw [repeatedId?] at h
      by_cases hg : g.id ∈ seen
      · rw [if_pos hg] at h
        have hnil : Fresh seen [] :=
          ⟨List.nodup_nil, fun f hf => by cases hf⟩
        exact ⟨[], g, fields, rfl, Option.some.inj h, hnil, .inl hg⟩
      · rw [if_neg hg] at h
        obtain ⟨before, f, after, rfl, hid, hfresh, hf⟩ := ih h
        refine ⟨g :: before, f, after, rfl, hid, hfresh.cons hg, ?_⟩
        rcases hf with hf | hf
        · rcases List.mem_cons.1 hf with hf | hf
          · exact .inr (hf ▸ List.mem_cons_self ..)
          · exact .inl hf
        · exact .inr (List.mem_cons_of_mem _ hf)

/-- What comes of a complete text of a schema: the schema, unless an id
stands twice in it. -/
def checked (S : Schema) : Except Error Schema :=
  match repeatedId? [] S.fields with
  | some id => .error (.repeatedId id)
  | none => .ok S

/-- A document that is decoded is the schema, unless two of its fields have
one id. -/
theorem ofDocument_of_decode {root : α} {S : Schema}
    (h : decode r root = .ok S) (format : Format) :
    ofDocument r format true root = checked S := by
  simp only [ofDocument, h, if_true]
  rfl

/-- It is the schema if no two fields have the same id, else a complaint
about the first field whose id stands before it. -/
theorem checked_cases (S : Schema) :
    ((S.fields.map (·.id)).Nodup → checked S = .ok S)
      ∧ (¬(S.fields.map (·.id)).Nodup → ∃ before f after,
          S.fields = before ++ f :: after
            ∧ (before.map (·.id)).Nodup ∧ f.id ∈ before.map (·.id)
            ∧ checked S = .error (.repeatedId f.id)) := by
  unfold checked
  cases hid : repeatedId? [] S.fields with
  | none =>
      have hnodup := (fresh_of_repeatedId?_eq_none hid).1
      exact ⟨fun _ => rfl, fun hrepeated => absurd hnodup hrepeated⟩
  | some id =>
      obtain ⟨before, f, after, hsplit, rfl, hfresh, hf⟩ :=
        split_of_repeatedId?_eq_some hid
      have hbefore : f.id ∈ before.map (·.id) := by
        rcases hf with hf | hf
        · cases hf
        · exact hf
      refine ⟨fun hnodup => ?_, fun _ => ?_⟩
      · rw [hsplit, List.map_append, List.nodup_append] at hnodup
        exact absurd rfl
          (hnodup.2.2 _ hbefore _ (List.mem_cons_self ..))
      · exact ⟨before, f, after, hsplit, hfresh.1, hbefore, rfl⟩

end Schema
end FilterQuery
