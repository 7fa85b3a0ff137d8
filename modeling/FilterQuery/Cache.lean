/-
A store of compiled queries for one table. It remembers the condition of
each query and qualifier that has been compiled against the current
fields. Errors are not remembered.

The store is bounded: before a condition is added to a full store, the
store is emptied. With capacity zero nothing is remembered at all. New
fields make every stored condition void, so replacing the fields empties
the store too.

Steps on a store are taken one after another: each is a function of the
store that the one before has left. A look-up, the compilation after it and
the condition that is then added are one step, so the fields can not be
replaced between them. For that reason the store counts no generations of
its fields and is not locked: what such a count could tell, that the fields
are others than those compiled against, never holds within a step.
-/
import FilterQuery.Filter

namespace FilterQuery

/-- Compiled queries, with what they were compiled against. -/
structure Cache where
  fields : List Field
  dialect : Dialect
  mode : Mode
  /-- How many conditions may be stored. -/
  capacity : Nat
  /-- The conditions by query and qualifier. -/
  entries : List ((Text × Text) × Text) := []

namespace Cache

/-- How many conditions a cache stores unless told otherwise. -/
def defaultCapacity : Nat := 256

/-- An empty strict cache of the default capacity. -/
def ofFields (fields : List Field) (dialect : Dialect) : Cache where
  fields := fields
  dialect := dialect
  mode := .strict
  capacity := defaultCapacity

variable (c : Cache)

/-- How many conditions are stored. -/
def size : Nat := c.entries.length

/-- The filter that a query is compiled with. -/
def filter (qualifier : Text) : Filter :=
  Filter.withQualifier
    { fields := .ofFields c.fields, quoter := c.dialect.quoter,
      mode := c.mode }
    qualifier

/-- The cache with one more condition, of a key that it does not hold. -/
def insert (key : Text × Text) (sql : Text) : Cache :=
  if c.capacity = 0 then c
  -- A full store is emptied for it.
  else if c.capacity ≤ c.size then { c with entries := [(key, sql)] }
  else { c with entries := (key, sql) :: c.entries }

/-- The condition of a query, from the store if it is there, and the cache
afterwards. -/
def compile (query qualifier : Text) : Except QueryError Text × Cache :=
  match c.entries.lookup (query, qualifier) with
  | some sql => (.ok sql, c)
  | none =>
      match (c.filter qualifier).compileQuery query with
      | .ok sql => (.ok sql, c.insert (query, qualifier) sql)
      | .error e => (.error e, c)

/-- The cache with other fields and an empty store. -/
def replaceFields (fields : List Field) : Cache :=
  { c with fields := fields, entries := [] }

/-- The cache with an empty store. -/
def clear : Cache := { c with entries := [] }

end Cache
end FilterQuery
