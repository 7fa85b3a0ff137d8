/-
Schemas out of documents. A schema is a record of five parts and a field
one of three; decoding goes through the entries of a record in the order
in which they are written, so that of several faults the first one counts.

    a key is looked at before its value
    an unknown key of a schema is a fault, one of a field is passed over
    a key may not be repeated
    a part without a default is missed at the end of its record

What a format makes of numbers, empty values and the like is not said
here: it is given by a `Reading`, one for each format.
-/
import FilterQuery.Schema

namespace FilterQuery
namespace Schema

/-- The least number that does not fit into 64 bits. -/
def naturalBound : Nat := 18446744073709551616

/-- How the values of a format are read, each as the kind of thing that is
wanted in its place. `none` refuses a value, or is what a broken one has. -/
structure Reading (α : Type) where
  /-- The entries of a record of the given keys, of which so many have to
  be there if the keys are left out; a key that is no text is `none`. -/
  record : List Text → Nat → α → Option (List (Option Text × α))
  list : α → Option (List α)
  text : α → Option Text
  /-- A text, or nothing in its place. -/
  optionalText : α → Option (Option Text)
  bool : α → Option Bool
  /-- A number below `naturalBound`. -/
  natural : α → Option Nat
  /-- The name of a choice, and whether it stands there alone. -/
  choice : α → Option (Text × Bool)
  /-- Well written to its end, whatever it is. -/
  isWhole : α → Bool

/-- A decoded value, or why there is none. -/
abbrev Decoded := Except (Option Fault)

/-- A value that was read. -/
def given : Option α → Decoded α
  | none => .error none
  | some a => .ok a

/-- The value of a part that was not there before. -/
def once (key : Text) (present : Option α) (value : Decoded α) :
    Decoded (Option α) :=
  match present with
  | some _ => .error (some (.repeatedKey key))
  | none => some <$> value

/-- The value of a part that has to be there. -/
def required (key : Text) : Option α → Decoded α
  | none => .error (some (.missingKey key))
  | some a => .ok a

variable {α : Type} (r : Reading α)

/-- A type by its name. -/
def decodeType (v : α) : Decoded DataType := do
  let name ← given (r.text v)
  match DataType.parse? name with
  | none => .error (some (.unknownType name))
  | some ty => .ok ty

/-- A dialect by its name. -/
def decodeDialect (v : α) : Decoded Dialect := do
  let (name, alone) ← given (r.choice v)
  match Dialect.ofName? name with
  | none => .error (some (.unknownDialect name))
  | some d => if alone then .ok d else .error none

-- ============================================================== fields

/-- The parts of a field that have been read. -/
structure FieldParts where
  id : Option Text := none
  type : Option DataType := none
  searchable : Option Bool := none

/-- Reads one entry of a field. -/
def FieldParts.read (p : FieldParts) (key : Text) (v : α) :
    Decoded FieldParts :=
  if key = "id".toList then do
    return { p with id := ← once key p.id (given (r.text v)) }
  else if key = "type".toList then do
    return { p with type := ← once key p.type (decodeType r v) }
  else if key = "searchable".toList then do
    return { p with
      searchable := ← once key p.searchable (given (r.bool v)) }
  else if r.isWhole v then .ok p
  else .error none

/-- The field of the parts. -/
def FieldParts.finish (p : FieldParts) : Decoded Field := do
  return {
    id := ← required "id".toList p.id
    type := ← required "type".toList p.type
    searchable := p.searchable.getD false }

/-- Reads the entries of a field. -/
def FieldParts.readAll (p : FieldParts) :
    List (Option Text × α) → Decoded Field
  | [] => p.finish
  | (none, _) :: _ => .error none
  | (some key, v) :: entries => do
      let p ← p.read r key v
      p.readAll entries

/-- A field. -/
def decodeField (v : α) : Decoded Field := do
  let entries ← given (r.record fieldKeys 2 v)
  FieldParts.readAll r {} entries

/-- The fields of a schema. -/
def decodeFields (v : α) : Decoded (List Field) := do
  let items ← given (r.list v)
  items.mapM (decodeField r)

-- ============================================================= schemas

/-- The parts of a schema that have been read. -/
structure Parts where
  dialect : Option Dialect := none
  qualifier : Option (Option Text) := none
  lenient : Option Bool := none
  cacheCapacity : Option Nat := none
  fields : Option (List Field) := none

/-- Reads one entry of a schema. -/
def Parts.read (p : Parts) (key : Text) (v : α) : Decoded Parts :=
  if key = "dialect".toList then do
    return { p with dialect := ← once key p.dialect (decodeDialect r v) }
  else if key = "prefix".toList then do
    return { p with
      qualifier := ← once key p.qualifier (given (r.optionalText v)) }
  else if key = "lenient".toList then do
    return { p with lenient := ← once key p.lenient (given (r.bool v)) }
  else if key = "cache_capacity".toList then do
    return { p with
      cacheCapacity := ← once key p.cacheCapacity (given (r.natural v)) }
  else if key = "fields".toList then do
    return { p with fields := ← once key p.fields (decodeFields r v) }
  else .error (some (.unknownKey key))

/-- The schema of the parts. -/
def Parts.finish (p : Parts) : Decoded Schema := do
  return {
    dialect := p.dialect.getD .ansi
    qualifier := p.qualifier.getD none
    lenient := p.lenient.getD false
    cacheCapacity := p.cacheCapacity.getD Cache.defaultCapacity
    fields := ← required "fields".toList p.fields }

/-- Reads the entries of a schema. -/
def Parts.readAll (p : Parts) : List (Option Text × α) → Decoded Schema
  | [] => p.finish
  | (none, _) :: _ => .error none
  | (some key, v) :: entries => do
      let p ← p.read r key v
      p.readAll entries

/-- A schema. -/
def decode (v : α) : Decoded Schema := do
  let entries ← given (r.record keys 5 v)
  Parts.readAll r {} entries

/-- The schema of a document, which has to be complete and may hold no id
twice. -/
def ofDocument (format : Format) (complete : Bool) (root : α) :
    Except Error Schema :=
  match decode r root with
  | .error fault => .error (.malformed format fault)
  | .ok s =>
      if complete then
        match repeatedId? [] s.fields with
        | some id => .error (.repeatedId id)
        | none => .ok s
      else .error (.malformed format none)

end Schema
end FilterQuery
