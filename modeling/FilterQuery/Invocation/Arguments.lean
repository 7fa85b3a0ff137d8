/-
The arguments of the command line, read as an invocation.

    [options] (compile | tokens | tree) QUERY

Options come before the command, each but `-v` at most once. An option
with a value takes it from the next argument or has it attached, with an
equals sign or, after a single letter, without one. A value of its own may
not look like an option. After `--` nothing is an option any more.

Arguments are read from left to right and the first fault counts. A value
that is an argument of its own is looked at only when the next option is
read, or at the end: by then help that was asked for has been given.
-/
import FilterQuery.Invocation

namespace FilterQuery
namespace Invocation

/-- Why arguments are no invocation: they are wrong, or they ask for
something else. -/
inductive Refusal where
  | usage
  | help
  | version
  deriving DecidableEq, Repr

/-- The names of the commands. -/
def commands : List (Text × Command) :=
  [("compile".toList, .compile), ("tokens".toList, .tokens),
   ("tree".toList, .tree)]

-- ============================================================= options

/-- The options that take a value. -/
inductive Setting where
  | schema
  | qualifier
  | dialect
  deriving DecidableEq, Repr

/-- The options. -/
inductive Flag where
  | setting (s : Setting)
  | lenient
  | verbose
  | help
  | version
  deriving DecidableEq, Repr

/-- The options by their long names. -/
def longNames : List (Text × Flag) :=
  [("schema".toList, .setting .schema),
   ("prefix".toList, .setting .qualifier),
   ("dialect".toList, .setting .dialect), ("lenient".toList, .lenient),
   ("verbose".toList, .verbose), ("help".toList, .help),
   ("version".toList, .version)]

/-- The options by their letters. -/
def letters : List (Char × Flag) :=
  [('s', .setting .schema), ('p', .setting .qualifier),
   ('d', .setting .dialect), ('v', .verbose), ('h', .help),
   ('V', .version)]

/-- The shapes of an argument. -/
inductive Shape where
  /-- Two dashes and nothing else. -/
  | separator
  /-- A long name, with what is attached by an equals sign. -/
  | long (name : Text) (attached : Option Text)
  /-- Letters after a dash. -/
  | letters (t : Text)
  /-- Anything else. -/
  | word
  deriving DecidableEq, Repr

/-- A long option's name, and what is attached to it. -/
def splitLong (t : Text) : Text × Option Text :=
  match t.dropWhile (· != '=') with
  | [] => (t, none)
  | _ :: attached => (t.takeWhile (· != '='), some attached)

/-- The shape of an argument. -/
def Shape.ofText : Text → Shape
  | ['-', '-'] => .separator
  | '-' :: '-' :: t =>
      let (name, attached) := splitLong t
      .long name attached
  | '-' :: c :: t => .letters (c :: t)
  | _ => .word

-- ============================================================ settings

/-- The options that have been read. -/
structure Settings where
  schema : Option Text := none
  qualifier : Option Text := none
  dialect : Option Dialect := none
  lenient : Bool := false
  /-- A count without an end, as in `Invocation`. -/
  verbosity : Nat := 0
  /-- A value that has been read but not yet looked at. -/
  pending : Option (Setting × Text) := none

namespace Settings

/-- Sets what has not been set before. -/
def set (o : Settings) : Setting → Text → Except Refusal Settings
  | .schema, t =>
      if o.schema.isSome ∨ t.isEmpty then .error .usage
      else .ok { o with schema := some t }
  | .qualifier, t =>
      if o.qualifier.isSome then .error .usage
      else .ok { o with qualifier := some t }
  | .dialect, t =>
      match o.dialect, Dialect.parse? t with
      | none, some d => .ok { o with dialect := some d }
      | _, _ => .error .usage

/-- Looks at the value that is pending. -/
def settle (o : Settings) : Except Refusal Settings :=
  match o.pending with
  | none => .ok o
  | some (s, t) => { o with pending := none }.set s t

/-- Reads an option that takes no value. -/
def raise (o : Settings) (f : Flag) : Except Refusal Settings := do
  let o ← o.settle
  match f with
  | .lenient =>
      if o.lenient then .error .usage else .ok { o with lenient := true }
  | .verbose => .ok { o with verbosity := o.verbosity + 1 }
  | .help => .error .help
  | .version => .error .version
  | .setting _ => .error .usage

/-- Reads an option with a value attached. -/
def attach (o : Settings) (s : Setting) (t : Text) :
    Except Refusal Settings := do
  (← o.settle).set s t

/-- Reads a long option: the settings, and the option whose value has to
follow, if one has. -/
def readLong (o : Settings) (name : Text) (attached : Option Text) :
    Except Refusal (Settings × Option Setting) :=
  match longNames.lookup name, attached with
  | some (.setting s), some t => (·, none) <$> o.attach s t
  | some (.setting s), none => (·, some s) <$> o.settle
  | some f, none => (·, none) <$> o.raise f
  | some _, some _ => .error .usage
  | none, _ => .error .usage

/-- Reads letters: the settings, and the option whose value has to follow,
if one has. -/
def readLetters (o : Settings) :
    Text → Except Refusal (Settings × Option Setting)
  | [] => .ok (o, none)
  | c :: t =>
      match letters.lookup c with
      | some (.setting s) =>
          if t.isEmpty then (·, some s) <$> o.settle
          else (·, none) <$> o.attach s (Text.dropLeading '=' t)
      | some f => do (← o.raise f).readLetters t
      | none => .error .usage

/-- The invocation of a command. -/
def invocation (o : Settings) (command : Command) (query : Text) :
    Except Refusal Invocation := do
  let o ← o.settle
  match o.schema with
  | none => .error .usage
  | some schema =>
      .ok {
        schema, command, query
        qualifier := o.qualifier
        dialect := o.dialect
        lenient := o.lenient
        verbosity := o.verbosity }

end Settings

-- =========================================================== arguments

/-- Reads what follows a command: one query, and no option but that for
help. -/
def readQuery : Option Text → List Text → Except Refusal Text
  | none, [] => .error .usage
  | some query, [] => .ok query
  | query, arg :: args =>
      match Shape.ofText arg with
      | .separator =>
          -- Behind the dashes anything may be the query, but nothing else may
          -- follow.
          match query, args with
          | none, [query] => .ok query
          | some query, [] => .ok query
          | _, _ => .error .usage
      | .long name attached =>
          if name = "help".toList ∧ attached.isNone then .error .help
          else .error .usage
      | .letters t =>
          if t.head? = some 'h' then .error .help else .error .usage
      | .word =>
          if query.isSome then .error .usage else readQuery (some arg) args

/-- Reads what follows `help`: at most one name of a command. -/
def readTopic : List Text → Refusal
  | [] => .help
  | [topic] =>
      if topic = "help".toList ∨ (commands.lookup topic).isSome then .help
      else .usage
  | _ => .usage

/-- Reads arguments from a point on where an option may still want its
value. -/
def read : Settings → Option Setting → List Text → Except Refusal Invocation
  | _, _, [] => .error .usage
  | o, some s, arg :: args =>
      match Shape.ofText arg with
      | .word => read { o with pending := some (s, arg) } none args
      | _ => .error .usage
  | o, none, arg :: args =>
      match commands.lookup arg with
      | some command => do
          let query ← readQuery none args
          o.invocation command query
      | none =>
          if arg = "help".toList then .error (readTopic args)
          else
            match Shape.ofText arg with
            | .long name attached => do
                let (o, s) ← o.readLong name attached
                read o s args
            | .letters t => do
                let (o, s) ← o.readLetters t
                read o s args
            | _ => .error .usage

/-- The invocation that arguments ask for. -/
def ofArguments (args : List Text) : Except Refusal Invocation :=
  read {} none args

-- =============================================================== texts

/-- How the arguments go. -/
def usageText : Text :=
  "Usage: filterquery [OPTIONS] --schema FILE COMMAND QUERY".toList

/-- What there is to know about the arguments. -/
def helpText : Text :=
  Text.join ['\n'] [
    "Compile filter queries into SQL conditions".toList,
    [],
    usageText,
    [],
    "Commands:".toList,
    "  compile  Print the SQL condition for a query".toList,
    "  tokens   Print the tokens of a query that are not blank".toList,
    "  tree     Print the expression nodes of a query as JSON".toList,
    "  help     Print this text".toList,
    [],
    "Options:".toList,
    "  -s, --schema FILE    Schema file (.yaml, .yml or .json)".toList,
    "  -p, --prefix PREFIX  What qualifies every column".toList,
    "  -d, --dialect NAME   How identifiers and values are quoted".toList,
    "      --lenient        Close open quotes and groups at the end".toList,
    "  -v, --verbose        More detail".toList,
    "  -h, --help           Print this text".toList,
    "  -V, --version        Print the version".toList]

/-- What is printed instead of a result. -/
def Refusal.message : Refusal → Text
  | usage => "error: wrong arguments\n\n".toList ++ usageText
  | help => helpText
  | version => "filterquery 0.1.0".toList

end Invocation
end FilterQuery
