/-
The command line as a grammar: options, then a command, then its query.
`Line` tells the options in order, however each is spelled, and says nothing
of what they come to.

The reader is right on it (`ofArguments_eq_ok_iff`): arguments are an
invocation just when they are a line, and its options come to what the
invocation holds. The reader leaves a value that is an argument of its own
to be looked at later, the grammar does not; so what is compared is what
arguments come to from given settings on (`Comes`), argument by argument.
-/
import FilterQuery.Proofs.Invocation.Spelling

namespace FilterQuery
namespace Invocation

-- ============================================================== grammar

/-- The arguments after the command: a query, which after two dashes may
look like an option. -/
inductive QueryWritten : List Text → Text → Prop where
  | bare {query : Text} : IsBare query → QueryWritten [query] query
  | closed {query : Text} :
      IsBare query → QueryWritten [query, ['-', '-']] query
  | opened (query : Text) : QueryWritten [['-', '-'], query] query

/-- Arguments from where the value of an option may still be missing: the
options in order, the command and the query. -/
inductive Line : Option Setting → List Text → List Given → Command → Text →
    Prop where
  | value {s arg args gs command query} :
      IsBare arg → Line none args gs command query →
        Line (some s) (arg :: args) (.setting s arg :: gs) command query
  | options {arg args gs wanting hs command query} :
      Written arg gs wanting → Line wanting args hs command query →
        Line none (arg :: args) (gs ++ hs) command query
  | command {name args command query} :
      (name, command) ∈ commands → QueryWritten args query →
        Line none (name :: args) [] command query

/-- Arguments with options that are all that an invocation holds. -/
def Asks (args : List Text) (gs : List Given) (i : Invocation) : Prop :=
  Line none args gs i.command i.query
    ∧ Gives gs (some i.schema) i.qualifier i.dialect i.lenient i.verbosity

-- ============================================================ the query

/-- Behind the query nothing may stand but two dashes. -/
private theorem readQuery_some_eq_ok_iff {query q : Text} {args : List Text} :
    readQuery (some query) args = .ok q
      ↔ q = query ∧ (args = [] ∨ args = [['-', '-']]) := by
  cases args with
  | nil => simp [readQuery, eq_comm]
  | cons arg args =>
      unfold readQuery
      by_cases hshape : Shape.ofText arg = .separator
      · obtain rfl := ofText_eq_separator_iff.1 hshape
        rw [hshape]
        cases args <;> simp [eq_comm]
      · have hne : arg ≠ ['-', '-'] := hshape ∘ ofText_eq_separator_iff.2
        grind

/-- What follows a command is read as the query that it writes. -/
theorem readQuery_eq_ok_iff {args : List Text} {query : Text} :
    readQuery none args = .ok query ↔ QueryWritten args query := by
  constructor
  · intro h
    cases args with
    | nil => cases h
    | cons arg args =>
        unfold readQuery at h
        cases hshape : Shape.ofText arg with
        | separator =>
            rw [hshape] at h
            obtain rfl := ofText_eq_separator_iff.1 hshape
            rcases args with - | ⟨q, - | ⟨_, _⟩⟩ <;> cases h
            exact .opened query
        | long name attached => grind
        | letters t => grind
        | word =>
            simp only [hshape] at h
            obtain ⟨rfl, rfl | rfl⟩ := readQuery_some_eq_ok_iff.1 h
            · exact .bare (ofText_eq_word_iff.1 hshape)
            · exact .closed (ofText_eq_word_iff.1 hshape)
  · intro h
    cases h with
    | bare h =>
        unfold readQuery
        rw [ofText_eq_word_iff.2 h]
        exact readQuery_some_eq_ok_iff.2 ⟨rfl, Or.inl rfl⟩
    | closed h =>
        unfold readQuery
        rw [ofText_eq_word_iff.2 h]
        exact readQuery_some_eq_ok_iff.2 ⟨rfl, Or.inr rfl⟩
    | opened query => rfl

-- ========================================================== the command

/-- No command is in the form of an option. -/
private theorem isBare_of_lookup {arg : Text} {command : Command}
    (h : commands.lookup arg = some command) : IsBare arg := by
  have hmem := Lists.mem_of_lookup h
  simp only [commands, List.mem_cons, Prod.mk.injEq, List.not_mem_nil,
    or_false] at hmem
  rcases hmem with ⟨rfl, -⟩ | ⟨rfl, -⟩ | ⟨rfl, -⟩ <;>
    exact Or.inl (by decide)

/-- A command is found by its name, as no two have the same. -/
private theorem lookup_commands {name : Text} {command : Command} :
    commands.lookup name = some command ↔ (name, command) ∈ commands := by
  refine ⟨Lists.mem_of_lookup, fun h => ?_⟩
  simp only [commands, List.mem_cons, Prod.mk.injEq, List.not_mem_nil,
    or_false] at h
  rcases h with ⟨rfl, rfl⟩ | ⟨rfl, rfl⟩ | ⟨rfl, rfl⟩ <;> rfl

namespace Settings

/-- To look at a pending value is to add it. -/
private theorem settle_pending {o : Settings} (h : o.IsSettled) (s : Setting)
    (value : Text) :
    settle { o with pending := some (s, value) }
      = o.add (.setting s value) := by
  obtain ⟨schema, qualifier, dialect, lenient, verbosity, pending⟩ := o
  obtain rfl : pending = none := h
  rfl

/-- A command is given what has been set once all has been looked at. -/
theorem invocation_eq_ok_iff {o : Settings} {command : Command}
    {query : Text} {i : Invocation} :
    o.invocation command query = .ok i
      ↔ (i.command = command ∧ i.query = query)
        ∧ ∃ o₁, o.settle = .ok o₁ ∧ o₁.schema = some i.schema
        ∧ o₁.qualifier = i.qualifier ∧ o₁.dialect = i.dialect
        ∧ o₁.lenient = i.lenient ∧ o₁.verbosity = i.verbosity := by
  unfold invocation
  rw [bind_eq_ok_iff]
  obtain ⟨schema, qualifier, dialect, lenient, verbosity, c, q⟩ := i
  constructor
  · rintro ⟨o₁, hsettle, h⟩
    cases hschema : o₁.schema with
    | none => simp [hschema] at h
    | some path =>
        rw [hschema] at h
        cases h
        exact ⟨⟨rfl, rfl⟩, o₁, hsettle, hschema, rfl, rfl, rfl, rfl⟩
  · rintro ⟨⟨rfl, rfl⟩, o₁, hsettle, hschema, rfl, rfl, rfl, rfl⟩
    refine ⟨o₁, hsettle, ?_⟩
    rw [hschema]

/-- An invocation is made of what is set once all has been looked at. -/
private theorem invocation_congr {o o₁ : Settings} (h : o.settle = .ok o₁)
    (command : Command) (query : Text) :
    o.invocation command query = o₁.invocation command query := by
  unfold invocation
  rw [h, (isSettled_of_settle h).settle_eq]

end Settings

-- =============================================================== reading

/-- Where a value is missing, a bare argument is the value, to be looked at
later. -/
private theorem read_value (o : Settings) (s : Setting) {arg : Text}
    (harg : IsBare arg) (args : List Text) :
    read o (some s) (arg :: args)
      = read { o with pending := some (s, arg) } none args := by
  rw [read, ofText_eq_word_iff.2 harg]

/-- Where a value is missing, an argument in the form of an option is
refused. -/
private theorem isBare_of_read {o : Settings} {s : Setting} {arg : Text}
    {args : List Text} {i : Invocation}
    (h : read o (some s) (arg :: args) = .ok i) : IsBare arg := by
  rw [read] at h
  cases hshape : Shape.ofText arg with
  | word => exact ofText_eq_word_iff.1 hshape
  | _ => simp [hshape] at h

/-- The name of a command ends the options: what follows is its query. -/
private theorem read_command (o : Settings) {arg : Text} {command : Command}
    (h : commands.lookup arg = some command) (args : List Text) :
    read o none (arg :: args)
      = readQuery none args >>= o.invocation command := by
  rw [read, h]

/-- An argument that names no command is read as an option. -/
private theorem read_option (o : Settings) {arg : Text}
    (hcommand : commands.lookup arg = none) (hhelp : arg ≠ "help".toList)
    (args : List Text) :
    read o none (arg :: args)
      = o.readOption arg >>= fun r => read r.1 r.2 args := by
  rw [read, hcommand]
  simp only
  rw [if_neg hhelp]
  unfold Settings.readOption
  cases Shape.ofText arg <;> rfl

/-- Help that is asked for by name is no invocation. -/
private theorem read_help (o : Settings) (args : List Text) :
    read o none ("help".toList :: args) = .error (readTopic args) := rfl

/-- What arguments come to as a line, from settings on. -/
def Comes (o : Settings) (wanting : Option Setting) (args : List Text)
    (i : Invocation) : Prop :=
  ∃ o₁, o.settle = .ok o₁ ∧ ∃ gs o',
    Line wanting args gs i.command i.query ∧ o₁.addAll gs = .ok o'
      ∧ o'.invocation i.command i.query = .ok i

section
variable {o : Settings} {arg : Text} {args : List Text} {i : Invocation}

/-- A value on a line is one argument, and what it settles is settled before
all that follows. -/
private theorem comes_value_iff (ho : o.IsSettled) {s : Setting} :
    Comes o (some s) (arg :: args) i
      ↔ IsBare arg
        ∧ Comes { o with pending := some (s, arg) } none args i := by
  unfold Comes
  rw [Settings.settle_pending ho, ho.settle_eq]
  constructor
  · rintro ⟨_, ⟨⟩, _, o', @⟨_, _, _, gs, _, _, harg, hline⟩, hgs, hi⟩
    rw [Settings.addAll_cons, bind_eq_ok_iff] at hgs
    obtain ⟨o₁, hadd, hgs⟩ := hgs
    exact ⟨harg, o₁, hadd, gs, o', hline, hgs, hi⟩
  · rintro ⟨harg, o₁, hadd, gs, o', hline, hgs, hi⟩
    refine ⟨o, rfl, _, o', .value harg hline, ?_, hi⟩
    rw [Settings.addAll_cons, hadd]
    exact hgs

/-- A line that starts with a command has no options. -/
private theorem comes_command_iff {command : Command}
    (h : commands.lookup arg = some command) :
    Comes o none (arg :: args) i
      ↔ QueryWritten args i.query
        ∧ o.invocation command i.query = .ok i := by
  constructor
  · rintro ⟨o₁, hsettle, gs, o', hline, hgs, hi⟩
    cases hline with
    | options harg _ =>
        exact absurd (isBare_of_lookup h) (not_isBare_of_written harg)
    | command hmem hquery =>
        rw [lookup_commands.2 hmem] at h
        cases h
        cases hgs
        rw [Settings.invocation_congr hsettle]
        exact ⟨hquery, hi⟩
  · rintro ⟨hquery, hi⟩
    obtain ⟨⟨rfl, -⟩, o₁, hsettle, -⟩ := Settings.invocation_eq_ok_iff.1 hi
    rw [Settings.invocation_congr hsettle] at hi
    exact ⟨o₁, hsettle, [], o₁, .command (lookup_commands.1 h) hquery, rfl,
      hi⟩

/-- A line that starts with an option goes on from the settings that the
option leaves. -/
private theorem comes_option_iff (h : commands.lookup arg = none) :
    Comes o none (arg :: args) i
      ↔ ∃ o' wanting, o.readOption arg = .ok (o', wanting)
        ∧ Comes o' wanting args i := by
  constructor
  · rintro ⟨o₁, hsettle, gs, o', hline, hgs, hi⟩
    -- What the option gives comes first of all that the line gives.
    cases hline with
    | @options _ _ gs wanting hs _ _ harg hline =>
        rw [Settings.addAll_append, bind_eq_ok_iff] at hgs
        obtain ⟨o₂, hgs, hhs⟩ := hgs
        have hoption := Settings.readOption_eq_ok_iff.2
          ⟨o₁, hsettle, gs, harg, hgs⟩
        have ho₂ := Settings.isSettled_of_readOption hoption
        exact ⟨o₂, wanting, hoption, o₂, ho₂.settle_eq, hs, o', hline, hhs,
          hi⟩
    | command hmem _ => simp [lookup_commands.2 hmem] at h
  · rintro ⟨o₂, wanting, hoption, _, hsettle, hs, o', hline, hhs, hi⟩
    rw [(Settings.isSettled_of_readOption hoption).settle_eq] at hsettle
    cases hsettle
    obtain ⟨o₁, hsettle, gs, harg, hgs⟩ :=
      Settings.readOption_eq_ok_iff.1 hoption
    refine ⟨o₁, hsettle, gs ++ hs, o', .options harg hline, ?_, hi⟩
    rw [Settings.addAll_append, hgs]
    exact hhs

end

/-- Arguments are read as what they come to. Where a value is missing, the
last option has settled all that was pending before it. -/
theorem read_eq_ok_iff {o : Settings} {wanting : Option Setting}
    {args : List Text} {i : Invocation}
    (hwanting : wanting = none ∨ o.IsSettled) :
    read o wanting args = .ok i ↔ Comes o wanting args i := by
  induction args generalizing o wanting with
  | nil =>
      refine ⟨fun h => ?_, ?_⟩
      · unfold read at h
        cases h
      · rintro ⟨o₁, -, gs, o', ⟨⟩, -⟩
  | cons arg args ih =>
      -- A value that is missing comes first. Otherwise the argument is a
      -- command, asks for help, or is an option.
      cases wanting with
      | some s =>
          obtain hnone | ho := hwanting
          · cases hnone
          rw [comes_value_iff ho, ← ih (Or.inl rfl)]
          by_cases harg : IsBare arg
          · rw [read_value o s harg]
            exact (and_iff_right harg).symm
          · exact iff_of_false (harg ∘ isBare_of_read) (harg ∘ And.left)
      | none =>
          cases hcommand : commands.lookup arg with
          | some command =>
              rw [comes_command_iff hcommand, read_command o hcommand,
                bind_eq_ok_iff]
              constructor
              · rintro ⟨query, hquery, hi⟩
                obtain ⟨⟨-, rfl⟩, -⟩ := Settings.invocation_eq_ok_iff.1 hi
                exact ⟨readQuery_eq_ok_iff.1 hquery, hi⟩
              · rintro ⟨hquery, hi⟩
                exact ⟨_, readQuery_eq_ok_iff.2 hquery, hi⟩
          | none =>
              rw [comes_option_iff hcommand]
              by_cases hhelp : arg = "help".toList
              · subst hhelp
                rw [read_help]
                refine iff_of_false nofun ?_
                rintro ⟨o', wanting, h, -⟩
                cases h
              · rw [read_option o hcommand hhelp, bind_eq_ok_iff,
                  Prod.exists]
                -- No option leaves a value unsettled, so the induction goes
                -- on.
                refine exists_congr fun o' => exists_congr fun wanting =>
                  and_congr_right fun h => ?_
                exact ih (Or.inr (Settings.isSettled_of_readOption h))

/-- Arguments are an invocation just when they are a line, and the options
on it come to what the invocation holds. -/
theorem ofArguments_eq_ok_iff {args : List Text} {i : Invocation} :
    ofArguments args = .ok i ↔ ∃ gs, Asks args gs i := by
  unfold ofArguments
  rw [read_eq_ok_iff (Or.inl rfl)]
  constructor
  · rintro ⟨_, ⟨⟩, gs, o, hline, hgs, hi⟩
    obtain ⟨ho, hgives⟩ := Settings.addAll_eq_ok_iff.1 hgs
    obtain ⟨-, _, hsettle, hschema, hqualifier, hdialect, hlenient,
      hverbosity⟩ := Settings.invocation_eq_ok_iff.1 hi
    rw [ho.settle_eq] at hsettle
    cases hsettle
    refine ⟨gs, hline, ?_⟩
    rw [← hschema, ← hqualifier, ← hdialect, ← hlenient, ← hverbosity]
    exact hgives
  · rintro ⟨gs, hline, hgives⟩
    let o : Settings := {
      schema := some i.schema
      qualifier := i.qualifier
      dialect := i.dialect
      lenient := i.lenient
      verbosity := i.verbosity }
    have ho : o.Holds gs := ⟨rfl, hgives⟩
    exact ⟨{}, rfl, gs, o, hline, Settings.addAll_eq_ok_iff.2 ho, rfl⟩

end Invocation
end FilterQuery
