/-
A cache is never seen in the answers: whatever was compiled, emptied or
replaced before, compiling through it gives what a fresh filter over the
current fields gives, the same condition or the same error.

The second system, `Uncached`, has the same operations and remembers
nothing but the fields. Two facts carry the comparison through a run. The
settings of the two systems stay equal (`Uncached.Agrees`), and every
stored condition is the one its key compiles to under the fields of the
moment (`Cache.Sound`). A stale entry would break the second, which is
why replacing the fields has to empty the store.
-/
import FilterQuery.Schema

namespace FilterQuery

-- ============================================================== the runs

namespace Cache

/-- One operation on a cache. -/
inductive Step where
  | compile (query qualifier : Text)
  | replaceFields (fields : List Field)
  | clear
  deriving DecidableEq, Repr

/-- Whether a step puts other fields in. -/
def Step.replaces : Step → Bool
  | .replaceFields _ => true
  | .compile .. | .clear => false

/-- What a step answers: compiling has a result, the rest has none. -/
abbrev Answer := Option (Except QueryError Text)

/-- One operation: its answer, and the cache afterwards. -/
def step (c : Cache) : Step → Answer × Cache
  | .compile query qualifier =>
      let (result, next) := c.compile query qualifier
      (some result, next)
  | .replaceFields fields => (none, c.replaceFields fields)
  | .clear => (none, c.clear)

/-- Operations one after another: their answers, and the cache at the
end. -/
def run (c : Cache) : List Step → List Answer × Cache
  | [] => ([], c)
  | s :: steps =>
      let (answer, next) := c.step s
      let (answers, last) := next.run steps
      (answer :: answers, last)

end Cache

/-- What a query is compiled with when nothing is remembered. -/
structure Uncached where
  fields : List Field
  dialect : Dialect
  mode : Mode

namespace Uncached

/-- Every query is compiled afresh, with a filter made for it. -/
def compile (u : Uncached) (query qualifier : Text) :
    Except QueryError Text :=
  (Filter.withQualifier
    { fields := .ofFields u.fields, quoter := u.dialect.quoter,
      mode := u.mode } qualifier).compileQuery query

/-- One operation, as on a cache; there is nothing to clear. -/
def step (u : Uncached) : Cache.Step → Cache.Answer × Uncached
  | .compile query qualifier => (some (u.compile query qualifier), u)
  | .replaceFields fields => (none, { u with fields := fields })
  | .clear => (none, u)

/-- Operations one after another. -/
def run (u : Uncached) : List Cache.Step → List Cache.Answer × Uncached
  | [] => ([], u)
  | s :: steps =>
      let (answer, next) := u.step s
      let (answers, last) := next.run steps
      (answer :: answers, last)

/-- The settings of a cache, without its store. -/
def Agrees (u : Uncached) (c : Cache) : Prop :=
  u.fields = c.fields ∧ u.dialect = c.dialect ∧ u.mode = c.mode

end Uncached

-- ========================================================= the invariant

namespace Cache

/-- Every stored condition is the one that its query and qualifier compile
to under the current fields. -/
def Sound (c : Cache) : Prop :=
  ∀ query qualifier sql,
    c.entries.lookup (query, qualifier) = some sql →
      (c.filter qualifier).compileQuery query = .ok sql

private theorem sound_of_entries_nil {c : Cache} (h : c.entries = []) :
    c.Sound := by
  intro query qualifier sql hlookup
  rw [h] at hlookup
  cases hlookup

/-- The store is all that `insert` touches. -/
theorem filter_insert (c : Cache) (key : Text × Text) (sql : Text) :
    (c.insert key sql).filter = c.filter := by
  unfold insert
  split
  · rfl
  · split <;> rfl

/-- What a store answers after an insertion, it has just been given or
answered before: emptying a full store only makes it answer less. -/
theorem lookup_insert {c : Cache} {key key' : Text × Text} {sql sql' : Text}
    (h : (c.insert key sql).entries.lookup key' = some sql') :
    key' = key ∧ sql' = sql ∨ c.entries.lookup key' = some sql' := by
  unfold insert at h
  split at h
  · exact Or.inr h
  · by_cases hkey : key' = key
    · subst hkey
      have hsql : sql' = sql := by
        split at h
        · simpa using h.symm
        · simpa using h.symm
      exact Or.inl ⟨rfl, hsql⟩
    · have hne : (key' == key) = false := by simpa using hkey
      split at h
      · simp [List.lookup_cons, hne] at h
      · exact Or.inr (by simpa [List.lookup_cons, hne] using h)

/-- Storing the condition that a key compiles to keeps the store sound. -/
theorem Sound.insert {c : Cache} (hc : c.Sound)
    {query qualifier sql : Text}
    (h : (c.filter qualifier).compileQuery query = .ok sql) :
    (c.insert (query, qualifier) sql).Sound := by
  intro query' qualifier' sql' hlookup
  rw [filter_insert]
  rcases lookup_insert hlookup with ⟨hkey, rfl⟩ | hold
  · obtain ⟨rfl, rfl⟩ := Prod.mk.inj hkey
    exact h
  · exact hc _ _ _ hold

/-- Compiling through a sound cache answers what its filter answers. -/
theorem Sound.compile_fst {c : Cache} (hc : c.Sound)
    (query qualifier : Text) :
    (c.compile query qualifier).1
      = (c.filter qualifier).compileQuery query := by
  unfold compile
  cases hlookup : c.entries.lookup (query, qualifier) with
  | some sql => exact (hc _ _ _ hlookup).symm
  | none =>
      cases (c.filter qualifier).compileQuery query with
      | ok sql => rfl
      | error e => rfl

/-- Compiling changes the store at most, and keeps it sound. -/
theorem Sound.compile_snd {c : Cache} (hc : c.Sound)
    (query qualifier : Text) :
    (c.compile query qualifier).2.Sound := by
  unfold compile
  cases hlookup : c.entries.lookup (query, qualifier) with
  | some sql => exact hc
  | none =>
      cases hcompile : (c.filter qualifier).compileQuery query with
      | error e => simpa [hcompile] using hc
      | ok sql => simpa [hcompile] using hc.insert hcompile

/-- Compiling leaves the settings alone. -/
theorem settings_compile (c : Cache) (query qualifier : Text) :
    let next := (c.compile query qualifier).2
    next.fields = c.fields ∧ next.dialect = c.dialect
      ∧ next.mode = c.mode := by
  unfold compile insert
  split
  · exact ⟨rfl, rfl, rfl⟩
  · split
    · split
      · exact ⟨rfl, rfl, rfl⟩
      · split <;> exact ⟨rfl, rfl, rfl⟩
    · exact ⟨rfl, rfl, rfl⟩

-- ========================================================= the simulation

/-- One step on either system: the answers are equal, the settings stay
equal, and the store stays sound. -/
theorem Sound.step {c : Cache} {u : Uncached} (hc : c.Sound)
    (hu : u.Agrees c) (s : Step) :
    (c.step s).1 = (u.step s).1 ∧ (c.step s).2.Sound
      ∧ (u.step s).2.Agrees (c.step s).2 := by
  obtain ⟨hfields, hdialect, hmode⟩ := hu
  cases s with
  | compile query qualifier =>
      refine ⟨?_, hc.compile_snd query qualifier, ?_⟩
      · have hanswer : (c.filter qualifier).compileQuery query
            = u.compile query qualifier := by
          unfold Uncached.compile filter
          rw [hfields, hdialect, hmode]
        show some (c.compile query qualifier).1
          = some (u.compile query qualifier)
        rw [hc.compile_fst, hanswer]
      · obtain ⟨h1, h2, h3⟩ := settings_compile c query qualifier
        exact ⟨hfields.trans h1.symm, hdialect.trans h2.symm,
          hmode.trans h3.symm⟩
  | replaceFields fields =>
      exact ⟨rfl, sound_of_entries_nil rfl, rfl, hdialect, hmode⟩
  | clear =>
      exact ⟨rfl, sound_of_entries_nil rfl, hfields, hdialect, hmode⟩

/-- A run on either system, from settings that agree and a sound store. -/
theorem Sound.run {c : Cache} {u : Uncached} (hc : c.Sound)
    (hu : u.Agrees c) (steps : List Step) :
    (c.run steps).1 = (u.run steps).1 ∧ (c.run steps).2.Sound
      ∧ (u.run steps).2.Agrees (c.run steps).2 := by
  induction steps generalizing c u with
  | nil => exact ⟨rfl, hc, hu⟩
  | cons s steps ih =>
      obtain ⟨hanswer, hc', hu'⟩ := hc.step hu s
      obtain ⟨hanswers, hlast⟩ := ih hc' hu'
      refine ⟨?_, hlast⟩
      show (c.step s).1 :: ((c.step s).2.run steps).1
        = (u.step s).1 :: ((u.step s).2.run steps).1
      rw [hanswer, hanswers]

end Cache

/-- Without a replacement a run leaves the fields as they are. -/
theorem Uncached.run_of_not_replaces (u : Uncached)
    {steps : List Cache.Step} (h : ∀ s ∈ steps, s.replaces = false) :
    (u.run steps).2 = u := by
  induction steps with
  | nil => rfl
  | cons s steps ih =>
      have hstep : (u.step s).2 = u := by
        have hs := h s (List.mem_cons_self ..)
        cases s with
        | compile query qualifier => rfl
        | replaceFields fields => cases hs
        | clear => rfl
      show ((u.step s).2.run steps).2 = u
      rw [hstep]
      exact ih fun s hs => h s (List.mem_cons_of_mem _ hs)

-- ========================================================= transparency

namespace Cache

/-- A cache made from fields, or from a schema whatever its capacity,
answers every run as if it remembered nothing. While the fields of a
schema are not replaced, compiling with the qualifier of the schema is
what the filter of the schema does. -/
theorem run_transparent (steps : List Step) :
    (∀ fields dialect,
      ((Cache.ofFields fields dialect).run steps).1
        = ((⟨fields, dialect, .strict⟩ : Uncached).run steps).1)
    ∧ (∀ s : Schema,
      (s.cache.run steps).1
        = ((⟨s.fields, s.dialect, .ofLenient s.lenient⟩ : Uncached).run
            steps).1)
    ∧ (∀ s : Schema, (∀ t ∈ steps, t.replaces = false) → ∀ query,
      ((s.cache.run steps).2.compile query (s.qualifier.getD [])).1
        = s.filter.compileQuery query) := by
  refine ⟨fun fields dialect => ?_, fun s => ?_, fun s h query => ?_⟩
  · exact (Sound.run (sound_of_entries_nil rfl) ⟨rfl, rfl, rfl⟩ steps).1
  · exact (Sound.run (sound_of_entries_nil rfl) ⟨rfl, rfl, rfl⟩ steps).1
  · let u : Uncached := ⟨s.fields, s.dialect, .ofLenient s.lenient⟩
    obtain ⟨-, hsound, hagrees⟩ :=
      Sound.run (c := s.cache) (u := u) (sound_of_entries_nil rfl)
        ⟨rfl, rfl, rfl⟩ steps
    rw [Uncached.run_of_not_replaces u h] at hagrees
    obtain ⟨hfields, hdialect, hmode⟩ := hagrees
    rw [hsound.compile_fst]
    unfold filter Schema.filter
    rw [← hfields, ← hdialect, ← hmode]

/-- A store of one entry that is filled, overfilled and emptied. -/
theorem run_transparent_overflow :
    let s : Schema :=
      { cacheCapacity := 1, qualifier := some "t".toList,
        fields := [{ id := "a".toList, type := .integer }] }
    let steps : List Step :=
      [.compile "a = 1".toList [], .compile "a = 2".toList "t".toList,
        .clear, .compile "b = 1".toList [], .compile "a = 1".toList []]
    (∀ t ∈ steps, t.replaces = false)
      ∧ ((s.cache.run steps).2.compile "a = 1".toList
          (s.qualifier.getD [])).1
        = s.filter.compileQuery "a = 1".toList := by
  intro s steps
  have h : ∀ t ∈ steps, t.replaces = false := by decide
  exact ⟨h, (run_transparent steps).2.2 s h _⟩

end Cache
end FilterQuery
