/-
Schemas: the fields of a table together with the settings that its queries
are compiled with. A schema is written in YAML or JSON, and a text that
holds none is refused for the first fault met in reading it.

No two fields of a schema may have the same id. That is looked at when the
whole schema has been read, so that any fault in the text goes first.
-/
import FilterQuery.Cache

namespace FilterQuery

/-- The fields of a table and how its queries are compiled. -/
structure Schema where
  dialect : Dialect := .ansi
  /-- What qualifies columns, as written: a blank one counts as none, but
  only when a filter is made. -/
  qualifier : Option Text := none
  lenient : Bool := false
  cacheCapacity : Nat := Cache.defaultCapacity
  fields : List Field
  deriving DecidableEq, Repr

namespace Schema

/-- The filter that the settings ask for. -/
def filter (s : Schema) : Filter :=
  Filter.withQualifier
    { fields := .ofFields s.fields, quoter := s.dialect.quoter,
      mode := .ofLenient s.lenient }
    (s.qualifier.getD [])

/-- An empty cache with the settings; it applies no qualifier of its own. -/
def cache (s : Schema) : Cache where
  fields := s.fields
  dialect := s.dialect
  mode := .ofLenient s.lenient
  capacity := s.cacheCapacity

/-- The first id that stands for a second time, or is among those `seen`
before the list. -/
def repeatedId? (seen : List Text) : List Field → Option Text
  | [] => none
  | field :: fields =>
      if field.id ∈ seen then some field.id
      else repeatedId? (field.id :: seen) fields

-- ============================================================== faults

/-- The formats that schemas are written in. -/
inductive Format where
  | json
  | yaml
  deriving DecidableEq, Repr

/-- What is wrong with a well-written text that is no schema. -/
inductive Fault where
  | missingKey (key : Text)
  | unknownKey (key : Text)
  | repeatedKey (key : Text)
  | unknownDialect (name : Text)
  | unknownType (name : Text)
  deriving DecidableEq, Repr

/-- A name in a message. -/
def ticked (name : Text) : Text := '\x60' :: name ++ ['\x60']

/-- Names in a message, in order. -/
def listed (names : List Text) : Text :=
  Text.join ", ".toList (names.map ticked)

/-- The keys of a schema, in the order of its parts. -/
def keys : List Text :=
  ["dialect".toList, "prefix".toList, "lenient".toList,
   "cache_capacity".toList, "fields".toList]

/-- The keys of a field, in the order of its parts. -/
def fieldKeys : List Text :=
  ["id".toList, "type".toList, "searchable".toList]

/-- The wording of a fault. -/
def Fault.message : Fault → Text
  | missingKey key => "missing field ".toList ++ ticked key
  | unknownKey key =>
      "unknown field ".toList ++ ticked key ++ ", expected one of ".toList
        ++ listed keys
  | repeatedKey key => "duplicate field ".toList ++ ticked key
  | unknownDialect name =>
      "unknown variant ".toList ++ ticked name
        ++ ", expected one of ".toList
        ++ listed ["ansi".toList, "postgres".toList, "postgresql".toList,
            "sqlite".toList, "mariadb".toList, "mysql".toList]
  | unknownType name => (QueryError.unknownType name).message

/-- Why no schema could be loaded. -/
inductive Error where
  /-- There is no such file, or it holds no text. -/
  | unreadable
  /-- The name of the file tells no known format. -/
  | unsupportedFormat (path : Text)
  /-- The text is no schema. Without a fault it is badly written, or a
  value in it is of the wrong kind. -/
  | malformed (format : Format) (fault : Option Fault)
  /-- Two fields have the same id. -/
  | repeatedId (id : Text)
  deriving DecidableEq, Repr

/-- The wording of an error, where there is one for it. -/
def Error.message? : Error → Option Text
  | unreadable => none
  | unsupportedFormat path =>
      some ("unsupported schema file format: ".toList ++ path
        ++ " (expected .yaml, .yml or .json)".toList)
  | malformed _ fault => fault.map Fault.message
  | repeatedId id =>
      some ("duplicate field id '".toList ++ id ++ "' in schema".toList)

end Schema
end FilterQuery
