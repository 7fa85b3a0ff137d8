/-
What is set on the command line against what a schema says. The two meet in
one filter (`Invocation.filter`): the dialect and the qualifier of the line
go before those of the schema, and leniency is the wish of either. A blank
qualifier is one that is set, and means none.

A condition is printed as that filter compiles it. Tokens and nodes do not
know the filter; of all that is set only leniency shows in them.
-/
import FilterQuery.Proofs.Grammar.Acceptance
import FilterQuery.Proofs.Invocation.Line

namespace FilterQuery
namespace Invocation

variable (i : Invocation)

/-- The mode that an invocation and a schema ask for together. -/
def mode (s : Schema) : Mode := .ofLenient (s.lenient || i.lenient)

/-- The filter that they ask for together. -/
def filter (s : Schema) : Filter :=
  Filter.withQualifier
    { fields := .ofFields s.fields
      quoter := (i.dialect.getD s.dialect).quoter
      mode := i.mode s }
    ((i.qualifier.or s.qualifier).getD [])

variable {i} {content : Option Text} {s : Schema}

/-- The filter is that of the schema with what the invocation sets instead. -/
theorem filter_override : (i.override s).filter = i.filter s := rfl

private theorem mode_override :
    Mode.ofLenient (i.override s).lenient = i.mode s :=
  rfl

/-- A blank qualifier on the line takes the place of that of the schema, and
then qualifies nothing. -/
theorem filter_qualifier_eq_none {qualifier : Text}
    (h : i.qualifier = some qualifier) (hblank : qualifier.isBlank = true) :
    (i.filter s).qualifier = none := by
  unfold filter Filter.withQualifier
  rw [h, Option.some_or, Option.getD_some]
  exact if_pos hblank

-- =============================================================== printing

/-- With a schema that can be loaded an invocation prints from the overridden
one. -/
private theorem run_eq_print (h : Schema.ofFile i.schema content = .ok s) :
    i.run content = i.print (i.override s) := by
  unfold run
  rw [h]

private theorem run_compile (h : Schema.ofFile i.schema content = .ok s)
    (hcommand : i.command = .compile) :
    i.run content
      = match (i.filter s).compileQuery i.query with
        | .ok sql => .ok sql
        | .error e => .error (.compile i.query e) := by
  rw [run_eq_print h]
  simp only [print, hcommand]
  rw [filter_override]
  cases (i.filter s).compileQuery i.query <;> rfl

theorem run_tokens (h : Schema.ofFile i.schema content = .ok s)
    (hcommand : i.command = .tokens) :
    i.run content
      = match Token.tokenize (i.mode s) i.query with
        | .ok ts => .ok (tokenLines ts)
        | .error e => .error (.read e) := by
  rw [run_eq_print h]
  simp only [print, hcommand]
  rw [mode_override]
  cases Token.tokenize (i.mode s) i.query <;> rfl

theorem run_tree (h : Schema.ofFile i.schema content = .ok s)
    (hcommand : i.command = .tree) :
    i.run content
      = match Node.parse (i.mode s) i.query with
        | .ok ns => .ok (treeText ns)
        | .error e => .error (.read e) := by
  rw [run_eq_print h]
  simp only [print, hcommand]
  rw [mode_override]
  cases Node.parse (i.mode s) i.query <;> rfl

/-- What is printed but is no condition is the same for the same query in
the same mode. -/
theorem run_eq_run {j : Invocation} {content' : Option Text} {s' : Schema}
    (h : Schema.ofFile i.schema content = .ok s)
    (h' : Schema.ofFile j.schema content' = .ok s')
    (hcompile : i.command ≠ .compile) (hcommand : j.command = i.command)
    (hquery : j.query = i.query) (hmode : j.mode s' = i.mode s) :
    j.run content' = i.run content := by
  cases hi : i.command with
  | compile => exact absurd hi hcompile
  | tokens => rw [run_tokens h hi, run_tokens h' (hcommand.trans hi), hmode,
      hquery]
  | tree => rw [run_tree h hi, run_tree h' (hcommand.trans hi), hmode, hquery]

-- ================================================================== lines

/-- The arguments that are an invocation are the lines whose options, in
whatever order and spelling, come to what it holds. With a schema that its
file holds, a condition is printed as the filter of both compiles the query,
or fails as that does; tokens and nodes are those of the query in the mode
of both, whatever else is set. -/
theorem ofArguments_run (args : List Text) (i : Invocation) :
    (ofArguments args = .ok i ↔ ∃ gs, Asks args gs i)
      ∧ (∀ gs args' gs', Asks args gs i → gs.Perm gs' →
          Line none args' gs' i.command i.query → ofArguments args' = .ok i)
      ∧ ∀ content s, Schema.ofFile i.schema content = .ok s →
        (i.command = .compile → i.run content
          = match (i.filter s).compileQuery i.query with
            | .ok sql => .ok sql
            | .error e => .error (.compile i.query e))
        ∧ (∀ qualifier, i.qualifier = some qualifier →
            qualifier.isBlank = true → (i.filter s).qualifier = none)
        ∧ (i.command = .tokens → i.run content
          = match Token.tokenize (i.mode s) i.query with
            | .ok ts => .ok (tokenLines ts)
            | .error e => .error (.read e))
        ∧ (i.command = .tree → i.run content
          = match Node.parse (i.mode s) i.query with
            | .ok ns => .ok (treeText ns)
            | .error e => .error (.read e))
        ∧ (i.command ≠ .compile → ∀ (j : Invocation) content' s',
            Schema.ofFile j.schema content' = .ok s' →
            j.command = i.command → j.query = i.query →
            j.mode s' = i.mode s → j.run content' = i.run content) := by
  refine ⟨ofArguments_eq_ok_iff, ?_, fun content s h => ⟨run_compile h, ?_,
    run_tokens h, run_tree h, ?_⟩⟩
  · intro gs args' gs' hasks hperm hline'
    exact ofArguments_eq_ok_iff.2 ⟨gs', hline', hasks.2.perm hperm⟩
  · intro qualifier hqualifier hblank
    exact filter_qualifier_eq_none hqualifier hblank
  · intro hcompile j content' s' h' hcommand hquery hmode
    exact run_eq_run h h' hcompile hcommand hquery hmode

/-- A qualifier that is taken away, a dialect in capitals and an open quote,
spelled in two ways; and the tokens under another schema. -/
theorem ofArguments_run_overridden :
    let query : Text := "name = \"x".toList
    let args : List Text :=
      ["-vvd".toList, "MYSQL".toList, "--prefix=".toList, "-s=a.json".toList,
        "--lenient".toList, "-v".toList, "compile".toList, "--".toList,
        query]
    let args' : List Text :=
      ["--lenient".toList, "-p=".toList, "--verbose".toList,
        "-sa.json".toList, "-vv".toList, "--dialect".toList,
        "MYSQL".toList, "compile".toList, query, "--".toList]
    let content : Text :=
      "\x7b\"prefix\": \"t\", \"fields\": [\x7b\"id\": \"name\", ".toList
        ++ "\"type\": \"varchar\"\x7d]\x7d".toList
    let content' : Text := "\x7b\"lenient\": true, \"fields\": []\x7d".toList
    let i (command : Command) : Invocation :=
      { schema := "a.json".toList, qualifier := some [],
        dialect := some .mysql, lenient := true, verbosity := 3, command,
        query }
    let j : Invocation :=
      { schema := "b.json".toList, command := .tokens, query }
    ofArguments args = .ok (i .compile)
      ∧ ofArguments args' = .ok (i .compile)
      ∧ (i .compile).run (some content)
        = .ok "\x60name\x60 = 'x'".toList
      ∧ j.run (some content') = (i .tokens).run (some content) := by
  intro query args args' content content' i j
  let s : Schema :=
    { fields := [⟨"name".toList, .varchar, false⟩], qualifier := some ['t'] }
  have hs : Schema.ofFile "a.json".toList (some content) = .ok s := rfl
  -- Letters that share a dash, the last one with its value behind it.
  have hline : Line none args
      [.verbose, .verbose, .setting .dialect "MYSQL".toList,
        .setting .qualifier [], .setting .schema "a.json".toList, .lenient,
        .verbose] .compile query :=
    .options (.letters (.verbose (.verbose (.separate .dialect))) nofun)
      (.value (by decide)
        (.options (.equals .qualifier [])
          (.options (.letters (.equals .schema _) nofun)
            (.options .lenient
              (.options (.letters (.verbose .nil) nofun)
                (.command (by decide) (.opened query)))))))
  -- The same settings in another order, and in other spellings.
  have hline' : Line none args'
      [.lenient, .setting .qualifier [], .verbose,
        .setting .schema "a.json".toList, .verbose, .verbose,
        .setting .dialect "MYSQL".toList] .compile query :=
    .options .lenient
      (.options (.letters (.equals .qualifier []) nofun)
        (.options .verbose
          (.options (.letters
            (@Letters.attached .schema "a.json".toList nofun (by decide))
            nofun)
            (.options (.letters (.verbose (.verbose .nil)) nofun)
              (.options (.separate .dialect)
                (.value (by decide)
                  (.command (by decide) (.closed (by decide)))))))))
  have hgives : Gives
      [.verbose, .verbose, .setting .dialect "MYSQL".toList,
        .setting .qualifier [], .setting .schema "a.json".toList, .lenient,
        .verbose]
      (some "a.json".toList) (some []) (some .mysql) true 3 :=
    ⟨rfl, by decide, rfl, rfl, rfl, rfl⟩
  -- The quote is left open, so the value is read to the end.
  have hparse : Node.parse .lenient query
      = .ok [.column "name".toList, .operator .eq, .value "\"x".toList] := by
    refine (@Node.parseAt_eq_ok_iff .lenient 0 0 _ _ _ rfl (by decide)
      (Or.inl rfl) _).2 ⟨?_, by decide⟩
    exact .column rfl (.comparison rfl rfl (.value (.done rfl)))
  obtain ⟨hread, hspelled, hrun⟩ := ofArguments_run args (i .compile)
  obtain ⟨hcompile, -⟩ := hrun (some content) s hs
  obtain ⟨-, -, htokens⟩ := ofArguments_run args (i .tokens)
  obtain ⟨-, -, -, -, hsame⟩ := htokens (some content) s hs
  refine ⟨hread.2 ⟨_, hline, hgives⟩,
    hspelled _ args' _ ⟨hline, hgives⟩ (by decide) hline', ?_, ?_⟩
  · rw [hcompile rfl]
    have hmode : ((i .compile).filter s).mode = .lenient := rfl
    unfold Filter.compileQuery
    rw [hmode, hparse]
    rfl
  · exact hsame nofun j (some content') { lenient := true, fields := [] } rfl
      rfl rfl rfl

end Invocation
end FilterQuery
