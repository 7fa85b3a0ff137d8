/-
The options of a command line as they are meant, however they are spelled:
a list, in order, of which each names one setting and its value or raises
one flag. `Gives` says what such a list comes to, by counting: it gives
nothing twice but the wish for more detail, a dialect by one of its names,
and no empty path. No order shows in it.

`addAll_eq_ok_iff` ties it to the settings that are gathered one option
after another. What the last of some options must have added is said once
for each kind of option, of `Gives` and of the settings, and the two are the
same (`holds_concat_iff`); the rest is induction from the end.
-/
import Mathlib.Data.List.Induction
import Mathlib.Tactic.MkIffOfInductiveProp
import FilterQuery.Invocation.Arguments
import FilterQuery.Proofs.Lists
import FilterQuery.Proofs.Refusal

namespace FilterQuery

namespace Invocation

-- ============================================================== options

/-- One option, with its value where it takes one. -/
inductive Given where
  | setting (s : Setting) (value : Text)
  | lenient
  | verbose
  deriving DecidableEq, Repr

/-- The value that an option gives for a setting. -/
def Given.value? (s : Setting) : Given → Option Text
  | setting s' value => if s' = s then some value else none
  | lenient | verbose => none

/-- The values that are given for a setting, in order. -/
def values (s : Setting) (gs : List Given) : List Text :=
  gs.filterMap (·.value? s)

/-- What options come to. -/
@[mk_iff gives_iff]
structure Gives (gs : List Given) (schema qualifier : Option Text)
    (dialect : Option Dialect) (lenient : Bool) (verbosity : Nat) :
    Prop where
  schema_eq : values .schema gs = schema.toList
  schema_ne_empty : schema ≠ some []
  qualifier_eq : values .qualifier gs = qualifier.toList
  dialect_eq :
    (values .dialect gs).map Dialect.parse? = (dialect.map some).toList
  lenient_eq : gs.count .lenient = lenient.toNat
  verbosity_eq : gs.count .verbose = verbosity

/-- What the last option gives for a setting comes last. -/
private theorem values_concat (s : Setting) (gs : List Given) (g : Given) :
    values s (gs ++ [g]) = values s gs ++ (g.value? s).toList := by
  unfold values
  rw [List.filterMap_append]
  cases h : g.value? s <;> simp [h]

section
variable {gs : List Given} {schema qualifier : Option Text}
  {dialect : Option Dialect} {lenient : Bool} {verbosity : Nat}

/-- Options come to the same in any order. -/
theorem Gives.perm {hs : List Given}
    (h : Gives gs schema qualifier dialect lenient verbosity)
    (hperm : gs.Perm hs) :
    Gives hs schema qualifier dialect lenient verbosity := by
  have hvalues : ∀ s, (values s hs).Perm (values s gs) := fun s =>
    hperm.symm.filterMap _
  refine ⟨?_, h.schema_ne_empty, ?_, ?_, ?_, ?_⟩
  · exact Lists.perm_toList_iff.1 (h.schema_eq ▸ hvalues .schema)
  · exact Lists.perm_toList_iff.1 (h.qualifier_eq ▸ hvalues .qualifier)
  · exact Lists.perm_toList_iff.1 (h.dialect_eq ▸ (hvalues .dialect).map _)
  · rw [← hperm.count_eq, h.lenient_eq]
  · rw [← hperm.count_eq, h.verbosity_eq]

/-- A path that is given last is the only one, and is not empty. -/
private theorem gives_schema_iff {value : Text} :
    Gives (gs ++ [.setting .schema value]) schema qualifier dialect lenient
        verbosity
      ↔ Gives gs none qualifier dialect lenient verbosity
        ∧ value ≠ [] ∧ schema = some value := by
  grind [gives_iff, values_concat, Given.value?, Lists.concat_eq_toList_iff]

/-- A qualifier that is given last is the only one. -/
private theorem gives_qualifier_iff {value : Text} :
    Gives (gs ++ [.setting .qualifier value]) schema qualifier dialect
        lenient verbosity
      ↔ Gives gs schema none dialect lenient verbosity
        ∧ qualifier = some value := by
  grind [gives_iff, values_concat, Given.value?, Lists.concat_eq_toList_iff]

/-- A dialect that is given last is the only one, and its name is known. -/
private theorem gives_dialect_iff {value : Text} :
    Gives (gs ++ [.setting .dialect value]) schema qualifier dialect lenient
        verbosity
      ↔ Gives gs schema qualifier none lenient verbosity
        ∧ ∃ d, Dialect.parse? value = some d ∧ dialect = some d := by
  have hlast : (values .dialect gs).map Dialect.parse?
          ++ [Dialect.parse? value] = (dialect.map some).toList
      ↔ values .dialect gs = []
        ∧ ∃ d, Dialect.parse? value = some d ∧ dialect = some d := by
    rw [Lists.concat_eq_toList_iff, List.map_eq_nil_iff,
      Option.map_eq_some_iff]
    grind
  grind [gives_iff, values_concat, Given.value?]

/-- Leniency that is asked for last was not asked for before. -/
private theorem gives_lenient_iff :
    Gives (gs ++ [.lenient]) schema qualifier dialect lenient verbosity
      ↔ Gives gs schema qualifier dialect false verbosity
        ∧ lenient = true := by
  cases lenient <;> simp [gives_iff, values_concat, Given.value?]

/-- More detail may be asked for again, and each time counts. -/
private theorem gives_verbose_iff :
    Gives (gs ++ [.verbose]) schema qualifier dialect lenient verbosity
      ↔ ∃ n, verbosity = n + 1
        ∧ Gives gs schema qualifier dialect lenient n := by
  have hcount : (gs ++ [Given.verbose]).count .verbose
      = gs.count .verbose + 1 := by
    rw [List.count_append, List.count_singleton_self]
  constructor
  · intro h
    refine ⟨gs.count .verbose, h.verbosity_eq.symm.trans hcount, ?_⟩
    grind [gives_iff, values_concat, Given.value?]
  · rintro ⟨n, rfl, h⟩
    grind [gives_iff, values_concat, Given.value?]

end

-- ============================================================= settings

namespace Settings

/-- The settings with one more option. -/
def add (o : Settings) : Given → Except Refusal Settings
  | .setting s value => o.set s value
  | .lenient => o.raise .lenient
  | .verbose => o.raise .verbose

/-- The settings with more options, one after another. -/
def addAll (o : Settings) (gs : List Given) : Except Refusal Settings :=
  gs.foldlM add o

/-- No value waits to be looked at. -/
def IsSettled (o : Settings) : Prop := o.pending = none

/-- Where no value waits there is nothing to look at. -/
theorem IsSettled.settle_eq {o : Settings} (h : o.IsSettled) :
    o.settle = .ok o := by
  unfold settle
  rw [h]

/-- What one more option comes to, where it is no fault. -/
private theorem add_schema_eq_ok_iff {o o' : Settings} {t : Text} :
    o.add (.setting .schema t) = .ok o'
      ↔ o.schema = none ∧ t ≠ [] ∧ o' = { o with schema := some t } := by
  unfold add set
  cases h : o.schema <;> cases t <;> simp [eq_comm]

/-- A qualifier is set where there is none yet, an empty one too. -/
private theorem add_qualifier_eq_ok_iff {o o' : Settings} {t : Text} :
    o.add (.setting .qualifier t) = .ok o'
      ↔ o.qualifier = none ∧ o' = { o with qualifier := some t } := by
  unfold add set
  cases h : o.qualifier <;> simp [eq_comm]

/-- A dialect is set where there is none yet, by one of its names. -/
private theorem add_dialect_eq_ok_iff {o o' : Settings} {t : Text} :
    o.add (.setting .dialect t) = .ok o'
      ↔ o.dialect = none ∧ ∃ d, Dialect.parse? t = some d
        ∧ o' = { o with dialect := some d } := by
  unfold add set
  cases h : o.dialect <;> cases hd : Dialect.parse? t <;>
    simp [hd, eq_comm]

/-- Leniency is set once. -/
private theorem IsSettled.add_lenient_eq_ok_iff {o o' : Settings}
    (h : o.IsSettled) :
    o.add .lenient = .ok o'
      ↔ o.lenient = false ∧ o' = { o with lenient := true } := by
  unfold add raise
  rw [h.settle_eq]
  cases hl : o.lenient <;> simp [bind, Except.bind, hl, eq_comm]

/-- The wish for more detail is counted, and never refused. -/
private theorem IsSettled.add_verbose_eq_ok_iff {o o' : Settings}
    (h : o.IsSettled) :
    o.add .verbose = .ok o'
      ↔ o' = { o with verbosity := o.verbosity + 1 } := by
  unfold add raise
  rw [h.settle_eq]
  simp [bind, Except.bind, eq_comm]

/-- An option that is added to settings leaves nothing to be looked at. -/
theorem IsSettled.of_add {o o' : Settings} {g : Given} (h : o.IsSettled)
    (hadd : o.add g = .ok o') : o'.IsSettled := by
  cases g with
  | setting s value =>
      cases s with
      | schema =>
          obtain ⟨-, -, rfl⟩ := add_schema_eq_ok_iff.1 hadd
          exact h
      | qualifier =>
          obtain ⟨-, rfl⟩ := add_qualifier_eq_ok_iff.1 hadd
          exact h
      | dialect =>
          obtain ⟨-, d, -, rfl⟩ := add_dialect_eq_ok_iff.1 hadd
          exact h
  | lenient =>
      obtain ⟨-, rfl⟩ := h.add_lenient_eq_ok_iff.1 hadd
      exact h
  | verbose =>
      obtain rfl := h.add_verbose_eq_ok_iff.1 hadd
      exact h

@[simp] theorem addAll_nil (o : Settings) : o.addAll [] = .ok o := rfl

theorem addAll_cons (o : Settings) (g : Given) (gs : List Given) :
    o.addAll (g :: gs) = o.add g >>= (·.addAll gs) := List.foldlM_cons

/-- Options in two parts are added part by part. -/
theorem addAll_append (o : Settings) (gs hs : List Given) :
    o.addAll (gs ++ hs) = o.addAll gs >>= (·.addAll hs) :=
  List.foldlM_append

/-- Nor do many of them. -/
theorem IsSettled.of_addAll {o o' : Settings} {gs : List Given}
    (h : o.IsSettled) (hgs : o.addAll gs = .ok o') : o'.IsSettled := by
  induction gs generalizing o with
  | nil => exact Except.ok.inj hgs ▸ h
  | cons g gs ih =>
      rw [addAll_cons, bind_eq_ok_iff] at hgs
      obtain ⟨o₁, hadd, hrest⟩ := hgs
      exact ih (h.of_add hadd) hrest

/-- The settings have been looked at, and are what options come to. -/
def Holds (o : Settings) (gs : List Given) : Prop :=
  o.IsSettled
    ∧ Gives gs o.schema o.qualifier o.dialect o.lenient o.verbosity

/-- Without options nothing is set. -/
private theorem holds_nil_iff {o : Settings} : o.Holds [] ↔ o = {} := by
  constructor
  · rintro ⟨hsettled, h⟩
    obtain ⟨schema, qualifier, dialect, lenient, verbosity, pending⟩ := o
    obtain rfl : pending = none := hsettled
    have hschema : schema = none :=
      Option.toList_eq_nil_iff.1 h.schema_eq.symm
    have hqualifier : qualifier = none :=
      Option.toList_eq_nil_iff.1 h.qualifier_eq.symm
    have hdialect : dialect = none :=
      Option.map_eq_none_iff.1 (Option.toList_eq_nil_iff.1 h.dialect_eq.symm)
    have hlenient : lenient = false := Bool.toNat_eq_zero.1 h.lenient_eq.symm
    have hverbosity : verbosity = 0 := h.verbosity_eq.symm
    rw [hschema, hqualifier, hdialect, hlenient, hverbosity]
  · rintro rfl
    exact ⟨rfl, rfl, nofun, rfl, rfl, rfl, rfl⟩

/-- More options are held by what the last of them was added to. -/
theorem holds_concat_iff {o : Settings} {gs : List Given} {g : Given} :
    o.Holds (gs ++ [g])
      ↔ ∃ o₁ : Settings, o₁.Holds gs ∧ o₁.add g = .ok o := by
  constructor
  · rintro ⟨hsettled, h⟩
    -- What the last option gives is taken back from the settings.
    cases g with
    | setting s value =>
        cases s with
        | schema =>
            obtain ⟨hgs, hvalue, hschema⟩ := gives_schema_iff.1 h
            refine ⟨{ o with schema := none }, ⟨hsettled, hgs⟩,
              add_schema_eq_ok_iff.2 ⟨rfl, hvalue, ?_⟩⟩
            rw [← hschema]
        | qualifier =>
            obtain ⟨hgs, hqualifier⟩ := gives_qualifier_iff.1 h
            refine ⟨{ o with qualifier := none }, ⟨hsettled, hgs⟩,
              add_qualifier_eq_ok_iff.2 ⟨rfl, ?_⟩⟩
            rw [← hqualifier]
        | dialect =>
            obtain ⟨hgs, d, hd, hdialect⟩ := gives_dialect_iff.1 h
            refine ⟨{ o with dialect := none }, ⟨hsettled, hgs⟩,
              add_dialect_eq_ok_iff.2 ⟨rfl, d, hd, ?_⟩⟩
            rw [← hdialect]
    | lenient =>
        obtain ⟨hgs, hlenient⟩ := gives_lenient_iff.1 h
        have hbefore : IsSettled { o with lenient := false } := hsettled
        refine ⟨_, ⟨hbefore, hgs⟩, hbefore.add_lenient_eq_ok_iff.2 ⟨rfl, ?_⟩⟩
        rw [← hlenient]
    | verbose =>
        obtain ⟨n, hn, hgs⟩ := gives_verbose_iff.1 h
        have hbefore : IsSettled { o with verbosity := n } := hsettled
        refine ⟨_, ⟨hbefore, hgs⟩, hbefore.add_verbose_eq_ok_iff.2 ?_⟩
        rw [← hn]
  · rintro ⟨o₁, ⟨hsettled, h⟩, hadd⟩
    -- What it could be added to did not hold it before.
    cases g with
    | setting s value =>
        cases s with
        | schema =>
            obtain ⟨hnone, hvalue, rfl⟩ := add_schema_eq_ok_iff.1 hadd
            exact ⟨hsettled, gives_schema_iff.2 ⟨hnone ▸ h, hvalue, rfl⟩⟩
        | qualifier =>
            obtain ⟨hnone, rfl⟩ := add_qualifier_eq_ok_iff.1 hadd
            exact ⟨hsettled, gives_qualifier_iff.2 ⟨hnone ▸ h, rfl⟩⟩
        | dialect =>
            obtain ⟨hnone, d, hd, rfl⟩ := add_dialect_eq_ok_iff.1 hadd
            exact ⟨hsettled, gives_dialect_iff.2 ⟨hnone ▸ h, d, hd, rfl⟩⟩
    | lenient =>
        obtain ⟨hlenient, rfl⟩ := hsettled.add_lenient_eq_ok_iff.1 hadd
        exact ⟨hsettled, gives_lenient_iff.2 ⟨hlenient ▸ h, rfl⟩⟩
    | verbose =>
        obtain rfl := hsettled.add_verbose_eq_ok_iff.1 hadd
        exact ⟨hsettled, gives_verbose_iff.2 ⟨_, rfl, h⟩⟩

/-- Options are gathered without a fault just when they come to something,
and that is what has been gathered. -/
theorem addAll_eq_ok_iff {gs : List Given} {o : Settings} :
    ({} : Settings).addAll gs = .ok o ↔ o.Holds gs := by
  induction gs using List.reverseRecOn generalizing o with
  | nil =>
      rw [holds_nil_iff]
      exact ⟨fun h => (Except.ok.inj h).symm, fun h => h ▸ rfl⟩
  | append_singleton gs g ih =>
      rw [addAll_append, bind_eq_ok_iff, holds_concat_iff]
      refine exists_congr fun o₁ => and_congr ih ?_
      rw [addAll_cons, bind_eq_ok_iff]
      simp

end Settings
end Invocation
end FilterQuery
