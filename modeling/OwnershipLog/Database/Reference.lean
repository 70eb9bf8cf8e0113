import OwnershipLog.Database.Row

/-!
# References

A row may refer to a row of another table. A row that is put in or taken out can
leave such references without their rows; these are counted, and the count must be
back at zero when the statement ends, or when the transaction ends for references
that are deferred.
-/

namespace OwnershipLog

namespace Reference

/-- Whether a reference has a column of a table among those in `changed`, which are all if that is
not said. -/
def isFrom (reference : Reference) (table : Table) (changed : Option (List String)) :
    Bool :=
  changed.all fun names => reference.columns.any fun i => names.contains (table.column i).name

/-- Whether a reference is to a column of a table among those in `changed`, which are all if that is
not said. -/
def isTo (reference : Reference) (table : Table) (changed : Option (List String)) : Bool :=
  changed.all fun names =>
    if reference.parentColumns.isEmpty then
      table.columns.any fun column => column.inPrimaryKey && names.contains column.name
    else reference.parentColumns.any names.contains

end Reference

namespace Schema

/-- The columns of a table that refer, each with the column it refers to; none if the table referred
to has no key of those columns. -/
def pairs? (parent : Table) (reference : Reference) : Option (List (Nat × Nat)) :=
  let names := reference.parentColumns
  match reference.columns, parent.rowidColumn with
  | [i], some j =>
    if names.isEmpty || names = [(parent.column j).name] then some [(i, j)]
    else byIndex parent reference names
  | _, _ => byIndex parent reference names
where
  /-- The same for a key that is not the number of a row. -/
  byIndex (parent : Table) (reference : Reference) (names : List String) :
      Option (List (Nat × Nat)) :=
    (parent.indexes.filter fun index => index.unique && index.condition.isNone &&
      index.keys.length = reference.columns.length).findSome? fun index =>
        let columns := index.keys.filterMap (·.field.column?)
        if columns.length ≠ reference.columns.length then none
        else if names.isEmpty then
          if index.isPrimaryKey then some (reference.columns.zip columns) else none
        else if index.keys.any fun key => key.field.column?.any fun j =>
            (parent.column j).collation ≠ key.collation then none
        else columns.mapM fun j => do
          let place ← names.findIdx? (· = (parent.column j).name)
          return (← reference.columns[place]?, j)

/-- The references to a table, each with the table that has it, the newest first. -/
def references (schema : Schema) (table : Table) : List (Table × Reference) :=
  (schema.tables.flatMap fun child =>
    (child.references.filter (·.parent = table.name)).map (child, ·)).reverse

/-- Whether rows of a table refer or can be referred to. -/
def isReferring (schema : Schema) (table : Table) : Bool :=
  !table.references.isEmpty || !(schema.references table).isEmpty

/-- Whether all references from and to a table can be followed that matter to a statement, which may
change some columns only. A row that is put alone can leave no reference to it without its row. -/
def hasSoundReferences (schema : Schema) (table : Table) (changed : Option (List String))
    (single : Bool) : Bool :=
  (table.references.all fun reference => !reference.isFrom table changed ||
    (schema.table? reference.parent).any fun parent => (pairs? parent reference).isSome) &&
  (schema.references table).all fun (_, reference) => !reference.isTo table changed ||
    single && !reference.deferred || (pairs? table reference).isSome

/-- The references of a new row of a table that are looked at. If the row may take the place of
others, and the references to those are followed, then a reference within the table is left out
that is followed last and gives its rows no value. -/
def demanded (schema : Schema) (table : Table) (replacing : Bool) : List Reference :=
  match ((schema.references table).filter (·.2.onDelete ≠ .none)).getLast? with
  | some (child, last) =>
    if replacing && child.name = table.name && last.onDelete = .setNull then
      table.references.filter fun reference => reference.columns ≠ last.columns ||
        reference.parent ≠ last.parent || reference.onDelete ≠ .setNull
    else table.references
  | none => table.references

end Schema

namespace Paging

/-- Count references that lack their rows. -/
def owe (deferred : Bool) (n : Int) : Paging Unit := modify fun image =>
  if deferred then { image with owed := image.owed + n } else { image with due := image.due + n }

/-- Whether some references lack their rows. -/
def isOwing (deferred : Bool) : Paging Bool := do
  let image ← get
  return 0 < if deferred then image.owed else image.due

/-- All rows of a table. -/
def allRows (s : Setting) (table : Table) : Paging (List Row) := do
  let c ← first table.cursor
  walked (readRow s table) (← entryBound) c

/-- Whether a row that refers means a row referred to. -/
def means (s : Setting) (parent : Table) (pairs : List (Nat × Nat)) (referring referred : Row) :
    Bool :=
  pairs.all fun (i, j) =>
    let column := parent.column j
    let affinity := if parent.rowidColumn = some j then .integer else column.affinity
    let v := (referring.value i).preferring s.schema.encoding affinity
    !v.isNull && v.compare column.collation s.schema.encoding (referred.value j) = .eq

/-- Count a row that refers to a row that is not there: `change` for each of some references. -/
def countMissingOf (s : Setting) (table : Table) (row : Row) (change : Int)
    (references : List Reference) : Paging Unit :=
  references.forM fun reference => do
    if reference.columns.any fun i => (row.value i).isNull then return
    if change < 0 && !(← isOwing reference.deferred) then return
    let parent ← orRefused (s.schema.table? reference.parent)
    let pairs ← orRefused (Schema.pairs? parent reference)
    if 0 < change && parent.name = table.name && means s parent pairs row row then return
    let rows ← allRows s parent
    if !rows.any (means s parent pairs row) then owe reference.deferred change

/-- Count a row that refers to a row that is not there: `change` for each reference. -/
def countMissing (s : Setting) (table : Table) (row : Row) (change : Int) : Paging Unit :=
  countMissingOf s table row change table.references

/-- The rows that refer to a row by a reference. -/
def referringRows (s : Setting) (child table : Table) (reference : Reference) (row : Row) :
    Paging (List Row) := do
  let pairs ← orRefused (Schema.pairs? table reference)
  return (← allRows s child).filter (means s table pairs · row)

/-- Count the rows that refer to a row: `change` for each. -/
def countReferring (s : Setting) (table : Table) (row : Row) (change : Int) : Paging Unit :=
  (s.schema.references table).forM fun (child, reference) => do
    if s.single && !reference.deferred then return
    if change < 0 && !(← isOwing reference.deferred) then return
    let rows ← referringRows s child table reference row
    let rows :=
      if child.name = table.name then rows.filter fun other => other.key ≠ row.key else rows
    owe reference.deferred (change * rows.length)

end Paging

end OwnershipLog
