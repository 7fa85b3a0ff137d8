/-
What a cache holds. After any run its keys are the queries that have been
compiled with success since the store was last emptied, each of them once,
and so it never holds more conditions than it may.

Three things empty the store: new fields, clearing it, and a query that is
not stored, is compiled with success and finds the store full
(`Cache.Wipes`). The last one is itself compiled after the store has been
emptied, so it is the one key that is left. A query that is found and one
that is refused change nothing.

`keys_step` says what one step does to the keys, and everything about runs
is an induction on it. The induction goes along the steps as they are
taken, so at the end of the list: what a run has kept is told by its last
step and by what was kept before.
-/
import Mathlib.Data.List.Induction
import FilterQuery.Proofs.Cache.Transparency
import FilterQuery.Proofs.Grammar.Filling

namespace FilterQuery
namespace Cache

/-- A query with the qualifier of its columns. -/
abbrev Key := Text × Text

/-- What conditions are stored for. -/
def keys (c : Cache) : List Key := c.entries.map Prod.fst

/-- The cache at the end of a run. -/
def after (c : Cache) (steps : List Step) : Cache := (c.run steps).2

/-- A key is compiled with success, be it from the store or afresh. -/
def Compiles (c : Cache) (key : Key) : Prop :=
  ∃ sql, (c.compile key.1 key.2).1 = .ok sql

/-- A step that empties the store: new fields, clearing, or a query that
has to be added to a full store. -/
def Wipes (c : Cache) : Step → Prop
  | .compile query qualifier =>
      (query, qualifier) ∉ c.keys ∧ c.Compiles (query, qualifier)
        ∧ c.capacity ≤ c.size
  | .replaceFields _ | .clear => True

/-- A key has been compiled with success in the course of a run, and no
step of the run has emptied the store after that one. -/
def CompiledSinceWipe (c : Cache) (steps : List Step) (key : Key) : Prop :=
  ∃ before later, steps = before ++ .compile key.1 key.2 :: later
    ∧ (c.after before).Compiles key
    ∧ ∀ mid s rest, later = mid ++ s :: rest →
        ¬((c.after (before ++ .compile key.1 key.2 :: mid)).Wipes s)

/-- The fields that a step puts in. -/
def Step.fields? : Step → Option (List Field)
  | .replaceFields fields => some fields
  | .compile .. | .clear => none

variable {c : Cache}

-- ============================================================ one query

/-- What is not found has no key in the store. -/
private theorem lookup_eq_none_iff {key : Key} :
    c.entries.lookup key = none ↔ key ∉ c.keys := by
  rw [List.lookup_eq_none_iff]
  constructor
  · intro h hkey
    obtain ⟨entry, hentry, rfl⟩ := List.mem_map.1 hkey
    exact absurd (h entry hentry) (by simp)
  · intro h entry hentry
    rw [bne_iff_ne]
    rintro rfl
    exact h (List.mem_map_of_mem hentry)

/-- What becomes of a query: it is found, it is refused, or it is added to
the store. -/
theorem compile_cases (c : Cache) (key : Key) :
    (key ∈ c.keys ∧ c.Compiles key ∧ (c.compile key.1 key.2).2 = c)
    ∨ (key ∉ c.keys ∧ ¬c.Compiles key ∧ (c.compile key.1 key.2).2 = c)
    ∨ (key ∉ c.keys ∧ c.Compiles key
        ∧ ∃ sql, (c.compile key.1 key.2).2 = c.insert key sql) := by
  unfold Compiles compile
  cases hlookup : c.entries.lookup key with
  | some sql =>
      have hkey : key ∈ c.keys := by
        by_contra hkey
        rw [lookup_eq_none_iff.2 hkey] at hlookup
        cases hlookup
      exact Or.inl ⟨hkey, ⟨sql, rfl⟩, rfl⟩
  | none =>
      have hkey := lookup_eq_none_iff.1 hlookup
      cases (c.filter key.2).compileQuery key.1 with
      | error e =>
          refine Or.inr (Or.inl ⟨hkey, ?_, rfl⟩)
          rintro ⟨sql, h⟩
          cases h
      | ok sql => exact Or.inr (Or.inr ⟨hkey, ⟨sql, rfl⟩, sql, rfl⟩)

/-- A full store is emptied before a condition is added to it. -/
private theorem keys_insert_of_full {key : Key} {sql : Text}
    (hpos : 0 < c.capacity) (hfull : c.capacity ≤ c.size) :
    (c.insert key sql).keys = [key] := by
  unfold insert
  rw [if_neg (Nat.ne_of_gt hpos), if_pos hfull]
  rfl

/-- With room left the key joins the others. -/
private theorem keys_insert_of_room {key : Key} {sql : Text}
    (hroom : c.size < c.capacity) :
    (c.insert key sql).keys = key :: c.keys := by
  unfold insert
  rw [if_neg (by omega), if_neg (by omega)]
  rfl

private theorem insert_of_capacity_zero {key : Key} {sql : Text}
    (h : c.capacity = 0) : c.insert key sql = c := if_pos h

private theorem size_eq_length_keys : c.size = c.keys.length := by
  unfold size keys
  rw [List.length_map]

-- ============================================================= one step

private theorem step_compile (c : Cache) (query qualifier : Text) :
    (c.step (.compile query qualifier)).2 = (c.compile query qualifier).2 :=
  rfl

/-- The key of a query that empties the store is the only one in it
then. -/
theorem keys_compile_of_wipes {key : Key} (hpos : 0 < c.capacity)
    (h : c.Wipes (.compile key.1 key.2)) :
    (c.compile key.1 key.2).2.keys = [key] := by
  obtain ⟨hmiss, hcompiles, hfull⟩ := h
  rcases c.compile_cases key with ⟨hkey, -, -⟩ | ⟨-, hno, -⟩
    | ⟨-, -, sql, hnext⟩
  · exact absurd hkey hmiss
  · exact absurd hcompiles hno
  · rw [hnext]
    exact keys_insert_of_full hpos hfull

/-- What is stored after a step: what it has compiled with success, and
what was stored before, unless the step has emptied the store. -/
theorem keys_step (hpos : 0 < c.capacity) (s : Step) (key : Key) :
    key ∈ (c.step s).2.keys
      ↔ (s = .compile key.1 key.2 ∧ c.Compiles key)
        ∨ (key ∈ c.keys ∧ ¬c.Wipes s) := by
  cases s with
  | replaceFields fields => simp [step, replaceFields, keys, Wipes]
  | clear => simp [step, clear, keys, Wipes]
  | compile query qualifier =>
      have hself : (Step.compile query qualifier
          = .compile key.1 key.2) ↔ key = (query, qualifier) := by
        rw [Step.compile.injEq, Prod.ext_iff]
        exact and_congr eq_comm eq_comm
      rw [step_compile, hself]
      -- A hit and a failure leave the keys alone. A miss adds its key, and
      -- wipes the others if the store is full.
      rcases c.compile_cases (query, qualifier) with ⟨hkey, hok, hnext⟩
        | ⟨hkey, hno, hnext⟩ | ⟨hkey, hok, sql, hnext⟩
      · have hwipes : ¬c.Wipes (.compile query qualifier) :=
          fun hw => hw.1 hkey
        rw [hnext]
        constructor
        · exact fun h => Or.inr ⟨h, hwipes⟩
        · rintro (⟨rfl, -⟩ | ⟨h, -⟩)
          · exact hkey
          · exact h
      · have hwipes : ¬c.Wipes (.compile query qualifier) :=
          fun hw => hno hw.2.1
        rw [hnext]
        constructor
        · exact fun h => Or.inr ⟨h, hwipes⟩
        · rintro (⟨rfl, hok⟩ | ⟨h, -⟩)
          · exact absurd hok hno
          · exact h
      · by_cases hfull : c.capacity ≤ c.size
        · have hwipes : c.Wipes (.compile query qualifier) :=
            ⟨hkey, hok, hfull⟩
          rw [hnext, keys_insert_of_full hpos hfull, List.mem_singleton]
          constructor
          · rintro rfl
            exact Or.inl ⟨rfl, hok⟩
          · rintro (⟨rfl, -⟩ | ⟨-, h⟩)
            · rfl
            · exact absurd hwipes h
        · have hwipes : ¬c.Wipes (.compile query qualifier) :=
            fun hw => hfull hw.2.2
          rw [hnext, keys_insert_of_room (Nat.lt_of_not_le hfull),
            List.mem_cons]
          constructor
          · rintro (rfl | h)
            · exact Or.inl ⟨rfl, hok⟩
            · exact Or.inr ⟨h, hwipes⟩
          · rintro (⟨rfl, -⟩ | ⟨h, -⟩)
            · exact Or.inl rfl
            · exact Or.inr h

/-- A store in which every key stands once and which holds no more than it
may. -/
def Tidy (c : Cache) : Prop := c.keys.Nodup ∧ c.size ≤ c.capacity

private theorem tidy_of_entries_nil (h : c.entries = []) : c.Tidy := by
  unfold Tidy keys size
  rw [h]
  exact ⟨List.nodup_nil, Nat.zero_le _⟩

private theorem capacity_insert (c : Cache) (key : Key) (sql : Text) :
    (c.insert key sql).capacity = c.capacity := by
  unfold insert
  split
  · rfl
  · split <;> rfl

/-- Adding a key that is not stored keeps a store tidy. -/
theorem Tidy.insert (hc : c.Tidy) {key : Key} (hkey : key ∉ c.keys)
    (sql : Text) : (c.insert key sql).Tidy := by
  rcases Nat.eq_zero_or_pos c.capacity with hzero | hpos
  · rwa [insert_of_capacity_zero hzero]
  · unfold Tidy
    rw [size_eq_length_keys, capacity_insert]
    by_cases hfull : c.capacity ≤ c.size
    · rw [keys_insert_of_full hpos hfull]
      exact ⟨by simp, hpos⟩
    · have hroom := Nat.lt_of_not_le hfull
      rw [keys_insert_of_room hroom, List.length_cons,
        ← size_eq_length_keys]
      exact ⟨List.nodup_cons.2 ⟨hkey, hc.1⟩, hroom⟩

/-- Order is kept by every step. -/
private theorem Tidy.step (hc : c.Tidy) (s : Step) : (c.step s).2.Tidy := by
  cases s with
  | replaceFields fields => exact tidy_of_entries_nil rfl
  | clear => exact tidy_of_entries_nil rfl
  | compile query qualifier =>
      rw [step_compile]
      rcases c.compile_cases (query, qualifier) with ⟨-, -, hnext⟩
        | ⟨-, -, hnext⟩ | ⟨hkey, -, sql, hnext⟩
      · rwa [hnext]
      · rwa [hnext]
      · rw [hnext]
        exact hc.insert hkey sql

/-- No step changes the capacity. -/
private theorem capacity_step (c : Cache) (s : Step) :
    (c.step s).2.capacity = c.capacity := by
  cases s with
  | replaceFields fields => rfl
  | clear => rfl
  | compile query qualifier =>
      rw [step_compile]
      rcases c.compile_cases (query, qualifier) with ⟨-, -, hnext⟩
        | ⟨-, -, hnext⟩ | ⟨-, -, sql, hnext⟩
      · rw [hnext]
      · rw [hnext]
      · rw [hnext, capacity_insert]

/-- The fields are those that the step puts in, if it does. -/
private theorem fields_step (c : Cache) (s : Step) :
    (c.step s).2.fields = s.fields?.getD c.fields := by
  cases s with
  | replaceFields fields => rfl
  | clear => rfl
  | compile query qualifier => exact (settings_compile c _ _).1

-- ================================================================== runs

private theorem after_append (c : Cache) (steps more : List Step) :
    c.after (steps ++ more) = (c.after steps).after more := by
  induction steps generalizing c with
  | nil => rfl
  | cons s steps ih => exact ih _

/-- The last step is taken from where the others lead. -/
private theorem after_concat (c : Cache) (steps : List Step) (s : Step) :
    c.after (steps ++ [s]) = ((c.after steps).step s).2 := by
  rw [after_append]
  rfl

private theorem capacity_after (c : Cache) (steps : List Step) :
    (c.after steps).capacity = c.capacity := by
  induction steps using List.reverseRecOn with
  | nil => rfl
  | append_singleton steps s ih => rw [after_concat, capacity_step, ih]

/-- Order is kept through every run. -/
theorem Tidy.after (hc : c.Tidy) (steps : List Step) :
    (c.after steps).Tidy := by
  induction steps using List.reverseRecOn with
  | nil => exact hc
  | append_singleton steps s ih =>
      rw [after_concat]
      exact ih.step s

/-- The fields are those that were put in last. -/
theorem fields_after (c : Cache) (steps : List Step) :
    (c.after steps).fields
      = (steps.filterMap Step.fields?).getLast?.getD c.fields := by
  induction steps using List.reverseRecOn with
  | nil => rfl
  | append_singleton steps s ih =>
      rw [after_concat, fields_step, ih, List.filterMap_append,
        List.getLast?_append]
      cases hs : s.fields? <;> simp [hs]

/-- Kept is what the last step has compiled, and what was kept before it,
unless it has emptied the store. -/
theorem compiledSinceWipe_concat (c : Cache) (steps : List Step) (s : Step)
    (key : Key) :
    c.CompiledSinceWipe (steps ++ [s]) key
      ↔ (s = .compile key.1 key.2 ∧ (c.after steps).Compiles key)
        ∨ (c.CompiledSinceWipe steps key ∧ ¬(c.after steps).Wipes s) := by
  constructor
  · rintro ⟨before, later, hsplit, hok, hkept⟩
    rcases Lists.append_cons_eq_concat hsplit.symm with
      ⟨rfl, rfl, rfl⟩ | ⟨mid, rfl, rfl⟩
    · exact Or.inl ⟨rfl, hok⟩
    · refine Or.inr ⟨⟨before, mid, rfl, hok, ?_⟩, hkept mid s [] rfl⟩
      rintro mid t rest rfl
      exact hkept mid t (rest ++ [s]) (by simp)
  · rintro (⟨rfl, hok⟩ | ⟨⟨before, later, rfl, hok, hkept⟩, hs⟩)
    · refine ⟨steps, [], rfl, hok, fun mid t rest hnil => ?_⟩
      exact absurd hnil (by simp)
    · refine ⟨before, later ++ [s], by simp, hok, ?_⟩
      intro mid t rest hlater
      rcases Lists.append_cons_eq_concat hlater.symm with
        ⟨rfl, rfl, rfl⟩ | ⟨rest, rfl, rfl⟩
      · exact hs
      · exact hkept mid t rest rfl

/-- From an empty store that may hold something, the keys are what has been
compiled since the store was last emptied. -/
theorem keys_after (hempty : c.entries = []) (hpos : 0 < c.capacity)
    (steps : List Step) (key : Key) :
    key ∈ (c.after steps).keys ↔ c.CompiledSinceWipe steps key := by
  induction steps using List.reverseRecOn with
  | nil =>
      constructor
      · intro h
        unfold keys at h
        rw [show (c.after []).entries = [] from hempty] at h
        cases h
      · rintro ⟨before, later, hsplit, -⟩
        exact absurd hsplit (by simp)
  | append_singleton steps s ih =>
      have hpos' : 0 < (c.after steps).capacity := by
        rwa [capacity_after]
      rw [after_concat, keys_step hpos', compiledSinceWipe_concat, ih]

/-- After every run of a new cache, whatever its settings are: if it may
hold something, then its keys are, each of them once, those compiled with
success since the store was last emptied, and one that empties it is the
only one left; a query that is found or refused changes nothing; no more is
held than may be, so nothing at all where that is zero; and the fields are
the last that were put in. -/
theorem after_contents (fields : List Field) (dialect : Dialect)
    (mode : Mode) (capacity : Nat) (steps : List Step) :
    let start : Cache := { fields, dialect, mode, capacity }
    let c := start.after steps
    (0 < capacity →
        c.keys.Nodup
        ∧ (∀ key, key ∈ c.keys ↔ start.CompiledSinceWipe steps key)
        ∧ ∀ key : Key, c.Wipes (.compile key.1 key.2) →
            (c.compile key.1 key.2).2.keys = [key])
      ∧ (∀ key : Key, key ∈ c.keys ∨ ¬c.Compiles key →
          (c.compile key.1 key.2).2 = c)
      ∧ c.size ≤ capacity
      ∧ (capacity = 0 → c.entries = [])
      ∧ c.fields = (steps.filterMap Step.fields?).getLast?.getD fields := by
  intro start c
  have htidy : c.Tidy := Tidy.after (tidy_of_entries_nil rfl) steps
  have hcapacity : c.capacity = capacity := capacity_after start steps
  have hsize : c.size ≤ capacity := hcapacity ▸ htidy.2
  refine ⟨fun hpos => ⟨htidy.1, keys_after rfl hpos steps, ?_⟩, ?_, hsize,
    fun hzero => ?_, fields_after start steps⟩
  · exact fun key => keys_compile_of_wipes (hcapacity ▸ hpos)
  · rintro key (hkey | hno)
    · rcases c.compile_cases key with ⟨-, -, hnext⟩ | ⟨hmiss, -, -⟩
        | ⟨hmiss, -, -⟩
      · exact hnext
      · exact absurd hkey hmiss
      · exact absurd hkey hmiss
    · rcases c.compile_cases key with ⟨-, hok, -⟩ | ⟨-, -, hnext⟩
        | ⟨-, hok, -⟩
      · exact absurd hok hno
      · exact hnext
      · exact absurd hok hno
  · exact List.eq_nil_of_length_eq_zero (Nat.le_zero.1 (hzero ▸ hsize))

/-- A store of one entry: a query is added, another is refused, and a third
one finds the store full. Without room nothing is stored at all. -/
theorem after_contents_overflow :
    let fields : List Field := [⟨"a".toList, .integer, false⟩]
    let start (capacity : Nat) : Cache :=
      { fields, dialect := .ansi, mode := .strict, capacity }
    let steps : List Step :=
      [.compile "a = 1".toList [], .compile "b = 1".toList []]
    let key : Key := ("a = 2".toList, [])
    let c := (start 1).after steps
    0 < (start 1).capacity
      ∧ c.keys.Nodup
      ∧ ("a = 1".toList, []) ∈ c.keys
      ∧ (start 1).CompiledSinceWipe steps ("a = 1".toList, [])
      ∧ ¬(start 1).CompiledSinceWipe steps ("b = 1".toList, [])
      ∧ c.Wipes (.compile key.1 key.2)
      ∧ (c.compile key.1 key.2).2.keys = [key]
      ∧ ((start 0).after steps).entries = [] := by
  intro fields start steps key c
  let f : Filter := ⟨.ofFields fields, Dialect.ansi.quoter, none, .strict⟩
  have hone : f.compileQuery "a = 1".toList = .ok "\"a\" = 1".toList := by
    rw [Filter.compileQuery, Node.parse, Node.parseAt_eq]
    rfl
  have hother : f.compileQuery "b = 1".toList
      = .error (.unknownField ['b']) := by
    rw [Filter.compileQuery, Node.parse, Node.parseAt_eq]
    rfl
  have htwo : f.compileQuery "a = 2".toList = .ok "\"a\" = 2".toList := by
    rw [Filter.compileQuery, Node.parse, Node.parseAt_eq]
    rfl
  have hc : c = { start 1 with
      entries := [(("a = 1".toList, []), "\"a\" = 1".toList)] } := by
    have hfirst : (start 1).compile "a = 1".toList []
        = (.ok "\"a\" = 1".toList, { start 1 with
            entries := [(("a = 1".toList, []), "\"a\" = 1".toList)] }) := by
      unfold compile
      rw [show (start 1).filter [] = f from rfl, hone]
      rfl
    show ((((start 1).compile _ []).2.compile "b = 1".toList []).2) = _
    rw [hfirst]
    unfold compile
    rw [show Cache.filter _ [] = f from rfl, hother]
    rfl
  have hwipes : c.Wipes (.compile key.1 key.2) := by
    rw [hc]
    refine ⟨by decide, ⟨"\"a\" = 2".toList, ?_⟩, Nat.le_refl 1⟩
    unfold compile
    rw [show Cache.filter _ key.2 = f from rfl, htwo]
    rfl
  obtain ⟨hfull, -⟩ := after_contents fields .ansi .strict 1 steps
  obtain ⟨hnodup, hkeys, honly⟩ := hfull Nat.one_pos
  obtain ⟨-, -, -, hnone, -⟩ := after_contents fields .ansi .strict 0 steps
  have hstored : ("a = 1".toList, []) ∈ c.keys := by
    rw [hc]
    decide
  have hrefused : ("b = 1".toList, []) ∉ c.keys := by
    rw [hc]
    decide
  exact ⟨Nat.one_pos, hnodup, hstored, (hkeys _).1 hstored,
    fun h => hrefused ((hkeys _).2 h), hwipes, honly key hwipes, hnone rfl⟩

end Cache
end FilterQuery
