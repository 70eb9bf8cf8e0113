import OwnershipLog.Database.Change
import OwnershipLog.Database.Lookup

/-!
# Rows and their entries

A row of a table is stored as a record, and each index of the table has an entry
for it, if the row meets the condition of the index. Here the records and entries
of a row are made, found and taken out; a row whose entry is missing contradicts
its table.
-/

namespace OwnershipLog

/-- A row: its number, if rows have numbers, and the values of its columns. -/
structure Row where
  key : Option Int
  values : List Value
deriving Inhabited

namespace Row

/-- The value of a column. -/
def value (row : Row) (i : Nat) : Value := row.values.getD i .null

/-- The number as a value. -/
def keyValue (row : Row) : Value := row.key.elim .null .integer

/-- The row in sight under a name. -/
def sight (row : Row) (table : Table) (name : String) (marked : Bool) : Sight :=
  table.sight [name] marked (row.key.map .integer) row.values

/-- The row in sight alone. -/
def scope (row : Row) (table : Table) : Scope := [⟨[row.sight table table.name false], []⟩]

end Row

namespace Table

/-- A value as it is stored in a column. -/
def storedValue (table : Table) (i : Nat) (v : Value) : Value :=
  if (table.column i).affinity = .real then v.compact else v

/-- The values in the record of a row of a table whose rows have numbers. -/
def recordValues (table : Table) (row : Row) : List Value :=
  table.stored.map fun i =>
    if table.rowidColumn = some i then .null else table.storedValue i (row.value i)

/-- How many fields tell an entry of an index from all others. -/
def tellingFields (table : Table) (index : Index) : Nat :=
  let told (key : IndexKey) : Bool := match key.field with
    | .column i => table.rowidColumn = some i || (table.column i).notNull
    | _ => false
  if (index.unique && index.keys.all told) || (table.withoutRowid && index.isPrimaryKey) then
    index.keys.length
  else index.all.length

/-- The column of the number of the row in a row of values. -/
def withNumber (table : Table) (key : Option Int) (values : List Value) : List Value :=
  match table.rowidColumn, key with
  | some i, some n => values.set i (.integer n)
  | _, _ => values

end Table

namespace Paging

/-- Whether a row meets the condition of an index. -/
def isIn (s : Setting) (table : Table) (index : Index) (row : Row) : Paging Bool := do
  match index.condition with
  | none => return true
  | some e =>
    return (← eval depthBound s (row.scope table) none e).truth s.schema.encoding = some true

/-- The values of the entry that a row has in an index. -/
def entryOf (s : Setting) (table : Table) (index : Index) (row : Row) : Paging (List Value) :=
  index.all.mapM fun key =>
    match key.field with
    | .column i =>
      return if table.rowidColumn = some i then row.keyValue
        else table.storedValue i (row.value i)
    | .rowid => return row.keyValue
    | .expr e => eval depthBound s (row.scope table) none e

/-- Look an entry up by its first values. -/
def seekEntry (s : Setting) (index : Index) (values : List Value) :
    Paging (Cursor × Ordering) := do
  let (c, place, _) ← seekRecord (Cursor.unplaced index.root false)
    ⟨index.order s.schema.encoding, values, .eq⟩
  return (c, place)

/-- Read a row of a table, all its columns. -/
def readRow (s : Setting) (table : Table) (c : Cursor) : Paging Row := do
  let (key, values) ← tableRow depthBound s table c
  return ⟨key.map fun v => v.toInt s.schema.encoding, values⟩

/-- The values of the entry that the row under a cursor has in an index; none if it has none. No
more of the row is read than that takes. -/
def storedEntry (s : Setting) (table : Table) (index : Index) (c : Cursor) :
    Paging (Option (List Value)) := do
  let plain := index.condition.isNone && index.all.all fun key =>
    match key.field with
    | .column i => !(table.column i).isVirtual
    | .rowid => true
    | .expr _ => false
  if plain then
    some <$> index.all.mapM fun key =>
      match key.field with
      | .column i => do
        return table.storedValue i (← storedColumn s.schema.encoding table c i)
      | _ => do return .integer (← keyAt c)
  else
    let row ← readRow s table c
    if ← isIn s table index row then return some (← entryOf s table index row)
    else return none

/-- Take the entry of the row under a cursor out of an index. -/
def deleteEntry (s : Setting) (table : Table) (index : Index) (c : Cursor) : Paging Unit := do
  match ← storedEntry s table index c with
  | none => return
  | some values =>
    holding c.pages do
      let (entry, place) ← seekEntry s index (values.take (table.tellingFields index))
      if place ≠ .eq then throw .entryMissing
      let _ ← delete entry

/-- Take the entries of the row under a cursor out of all indexes, but one perhaps. -/
def deleteEntries (s : Setting) (table : Table) (except : Option String) (c : Cursor) :
    Paging Unit :=
  table.indexes.forM fun index => do
    if (table.withoutRowid && index.isPrimaryKey) || except = some index.name then return
    deleteEntry s table index c

/-- A number for a new row: the one after the last, and above `least`. Also says where the last row
is, if the number comes right after all rows. When numbers run out, one that is free is taken. -/
def freshKey (table : Table) (least : Option Int) : Paging (Int × Option Cursor) := do
  let c ← last table.cursor
  let n ← if c.valid then keyAt c else pure 0
  if least = some (2 ^ 63 - 1) then throw .refused
  if n < 2 ^ 63 - 1 then return (max (n + 1) (least.getD 0 + 1), some c)
  else if least.isSome then throw .refused
  else return (← free 100 (2 ^ 61), none)
where
  /-- A number that no row has, from `n` on; at most `fuel` are tried. -/
  free : (fuel : Nat) → (n : Int) → Paging Int
    | 0, _ => throw .refused
    | fuel + 1, n => do
      let (_, place) ← seekKey table.cursor n false
      if place = .eq then free fuel (n + 1) else return n

/-- The value of a default. -/
def defaultOf (s : Setting) (column : Column) : Paging Value :=
  match column.default with
  | some e => eval depthBound s [] none e
  | none => return .null

/-- Give the values of a row the kinds that its columns prefer, or refuse them. -/
def fitted (s : Setting) (table : Table) (row : Row) : Paging Row := do
  let encoding := s.schema.encoding
  let values ← (List.range table.columns.length).mapM fun i => do
    let column := table.column i
    let v := row.value i
    if column.isVirtual || table.rowidColumn = some i then return v
    let v := v.preferring encoding column.affinity
    if table.strict && !v.isNull && !admits column.type v then throw .refused
    return v
  return { row with values }
where
  /-- Whether a strict column of a type may hold a value. -/
  admits (type : String) : Value → Bool
    | .integer _ => ["int", "integer", "any"].contains type
    | .real _ => ["real", "any"].contains type
    | .text _ => ["text", "any"].contains type
    | .blob _ => ["blob", "any"].contains type
    | .null => true

/-- A row with the columns computed that are computed. -/
def computed (s : Setting) (table : Table) (row : Row) : Paging Row := do
  if table.columns.all (·.generated.isNone) then return row
  let row ← fitted s table row
  let values ← computedColumns depthBound s table (row.key.map .integer) row.values fun _ => true
  return { row with values }

/-- A row in which no column is null that must not be; a default may stand in for it. -/
def present (s : Setting) (table : Table) (defaults : Bool) (row : Row) : Paging Row := do
  let needs (i : Nat) : Bool :=
    (table.column i).notNull && table.rowidColumn ≠ some i && (row.value i).isNull
  let missing := (List.range table.columns.length).filter needs
  if missing.isEmpty then return row
  let values ← missing.foldlM (fun values i => do
    let column := table.column i
    if !defaults || column.generated.isSome || column.default.isNone then throw .refused
    return values.set i (← defaultOf s column)) row.values
  let row ← computed s table { row with values }
  if missing.any fun i => (row.value i).isNull then throw .refused
  return row

/-- Make sure that a row meets the conditions of its table. -/
def check (s : Setting) (table : Table) (row : Row) : Paging Unit :=
  table.checks.forM fun e => do
    let v ← eval depthBound s (row.scope table) none e
    if v.truth s.schema.encoding = some false then throw .refused

end Paging

end OwnershipLog
