import OwnershipLog.Database.Reference

/-!
# Changing rows

A row is put into a table together with its entries in all indexes. Where another
row has the same key in an index whose keys must differ, that row is taken out
first, if rows are to be replaced. Triggers are run before and after a row is
changed, and may change more rows; one that is being run is not run again.
-/

namespace OwnershipLog

/-- How rows are changed. -/
structure Acting where
  setting : Setting
  /-- The triggers that are being run. -/
  active : List String
  /-- Whether a row takes the place of those that it conflicts with. -/
  replacing : Bool

/-- What is done to a row. -/
inductive Event where
  | insert
  | delete
  | update (columns : List String)

namespace Event

/-- Whether what is done to a row sets a trigger off. -/
def setsOff (event : Event) (trigger : Trigger) : Bool :=
  match event, trigger.event with
  | insert, .insert => true
  | delete, .delete => true
  | update changed, .update columns =>
    columns.isEmpty || columns.any fun name => changed.contains (Token.lowered name)
  | _, _ => false

end Event

namespace Schema

/-- The triggers that something done to a row of a table sets off at a time. -/
def triggersFor (schema : Schema) (table : Table) (event : Event) (time : TriggerTime) :
    List Trigger :=
  schema.triggers.filter fun trigger =>
    trigger.table = table.name && trigger.time = time && event.setsOff trigger

/-- Whether changing a row of a table may change other rows. -/
def isProgrammed (schema : Schema) (table : Table) (event : Event) : Bool :=
  schema.isReferring table || schema.triggers.any fun trigger =>
    trigger.table = table.name && event.setsOff trigger

/-- The table that remembers the greatest numbers of rows. -/
def sequences? (schema : Schema) : Option Table :=
  (schema.table? "sqlite_sequence").filter fun table =>
    table.hasRowid && table.columns.length = 2

end Schema

namespace Paging

/-- The number that a value is, for a row. -/
def demandKey (encoding : TextEncoding) (v : Value) : Paging Int :=
  match v.preferring encoding .integer with
  | .integer n => return n
  | _ => throw .refused

/-- The greatest number that a row of a table has had, and where that is remembered. -/
def sequenceOf (s : Setting) (table : Table) : Paging (Option (Table × Option Int × Int)) := do
  if !table.autoincrement then return none
  let sequences ← orRefused s.schema.sequences?
  let rows ← allRows s sequences
  let isFor (row : Row) : Bool :=
    Token.lowered ((row.value 0).spelled s.schema.encoding) = table.name
  match rows.find? isFor with
  | some row => return some (sequences, row.key, (row.value 1).toInt s.schema.encoding)
  | none => return some (sequences, none, 0)

/-- Remember the number of a row. -/
def remember (s : Setting) (table : Table) (sequence : Option (Table × Option Int × Int))
    (key : Option Int) : Paging Unit := do
  match sequence, key with
  | some (sequences, place, greatest), some key =>
    if key ≤ greatest then return
    let n ← match place with
      | some n => pure n
      | none => return ← put sequences (← freshKey sequences none).1 key
    put sequences n key
  | _, _ => return
where
  /-- Write the row of the sequence. -/
  put (sequences : Table) (n key : Int) : Paging Unit := do
    let (c, place) ← seekKey sequences.cursor n false
    let values := [.ofSpelled s.schema.encoding table.name, .integer key]
    let _ ← insert c place n (record s.schema.brief values)

/-- Find a row again. -/
def locate (s : Setting) (table : Table) (row : Row) : Paging (Option Cursor) := do
  match table.withoutRowid, table.primaryKey?, row.key with
  | true, some primary, _ =>
    let columns := primary.keys.filterMap (·.field.column?)
    let (c, place) ← seekEntry s primary
      (columns.map fun i => table.storedValue i (row.value i))
    return if place = .eq then some c else none
  | _, _, some n =>
    let (c, place) ← seekKey table.cursor n false
    return if place = .eq then some c else none
  | _, _, none => return none

/-- A conflict of a row with another one. -/
structure Rival where
  index : Index
  /-- The entry of the other row. -/
  entry : Cursor
  /-- The other row, or where its number would be. -/
  row : Cursor
  place : Ordering

/-- Look for a row of a table. If a cursor is known to be on the last row, only the rows before that
one are looked through. -/
def seekRow (table : Table) (last : Option Cursor) (n : Int) : Paging (Cursor × Ordering) := do
  match last.filter (·.valid) with
  | none => seekKey table.cursor n false
  | some c =>
    let greatest ← keyAt c
    if greatest < n then return (c, .lt)
    else if greatest = n then return (c, .eq)
    else seekKey table.cursor n false

/-- The row that has the same key in an index; none if there is none. Rows without all parts of the
key conflict with none. The last row of the table may be known. -/
def rival? (s : Setting) (table : Table) (last : Option Cursor) (index : Index)
    (entry : List Value) : Paging (Option Rival) := do
  let keys := entry.take index.keys.length
  if !index.unique || keys.any Value.isNull then return none
  let (c, place) ← seekEntry s index keys
  if place ≠ .eq then return none
  if !table.withoutRowid then
    let n ← rowKeyAt c
    let (row, place) ← holding c.pages (seekRow table last n)
    return some ⟨index, c, row, place⟩
  else if index.isPrimaryKey then return some ⟨index, c, c, .eq⟩
  else
    match ← rowFor s table index c with
    | some row => return some ⟨index, c, row, .eq⟩
    | none => return some ⟨index, c, c, .lt⟩

/-- Take a row out together with its entries. -/
def removeAt (s : Setting) (table : Table) (rival : Rival) : Paging Unit := do
  let isRow := table.withoutRowid && rival.index.isPrimaryKey
  holding (if isRow then [] else rival.entry.pages) do
    deleteEntries s table (some rival.index.name) rival.row
    let _ ← delete rival.row
  if !isRow then
    let _ ← delete rival.entry

/-- Put the entries of a row into the indexes of its table, while some pages are in use: the pages in
use after that. -/
def putEntries (s : Setting) (held : List Nat) :
    List (Index × List Value) → Paging (List Nat)
  | [] => return held
  | (index, values) :: rest => do
    let table := (s.schema.index? index.name).map (·.1)
    let telling := table.elim values.length (·.tellingFields index)
    let c ← holding held do
      let (c, place) ← seekEntry s index (values.take telling)
      insert c place 0 (record s.schema.brief values)
    putEntries s (c.pages ++ held) rest

/-- Make sure that a table and its indexes have their roots. -/
def demandRoots (table : Table) : Paging Unit := do
  demandRoot table.root
  table.indexes.forM fun index => demandRoot index.root

/-- Run an action on one row, which may ask for the row to be left as it is. -/
def unlessSkipped (action : Paging Unit) : Paging Unit := tryCatch action fun
  | .skipped => return
  | fault => throw fault

/-- The rows of a table that meet a condition, each with its scope. -/
def chosen (s : Setting) (scope : Scope) (table : Table) (name : String)
    (condition : Option Expr) : Paging (List (Row × Scope)) := do
  let rows ←
    if table.isView then
      let found ← sourceRows depthBound s scope (.table name none)
      pure (found.map fun sights => (⟨none, sights.flatMap (·.values)⟩, sights))
    else
      pure ((← allRows s table).map fun row =>
        (row, [row.sight table (Token.lowered name) false]))
  let found : List (Row × Scope) := rows.map fun (row, sights) => (row, ⟨sights, []⟩ :: scope)
  found.filterM fun (_, inner) =>
    match condition with
    | none => return true
    | some e => do
      return (← eval depthBound s inner none e).truth s.schema.encoding = some true

mutual

/-- Put a row into a table, whose number may be given. -/
def insertRow : (fuel : Nat) → Acting → Table → (given : Option Value) → List Value → Paging Unit
  | 0, _, _, _, _ => throw .refused
  | fuel + 1, a, table, given, values => unlessSkipped do
    let s := a.setting
    let encoding := s.schema.encoding
    let given := given.filter (!·.isNull)
    if table.isView then
      fire fuel a table .insert .instead [Row.sight ⟨some (-1), values⟩ table "new" true]
      return
    demandRoots table
    if !(s.schema.triggersFor table .insert .before).isEmpty then
      let key ← match given with
        | some v => demandKey encoding v
        | none => pure (-1)
      let row ← fitted s table ⟨some key, table.withNumber (some key) values⟩
      let row ← computed s table row
      fire fuel a table .insert .before [row.sight table "new" true]
    let sequence ← sequenceOf s table
    let (key, last) ←
      if table.withoutRowid then pure (none, none)
      else match given with
        | some v => pure (some (← demandKey encoding v), none)
        | none =>
          let (n, last) ← freshKey table (sequence.map (·.2.2))
          pure (some n, last)
    let row ← computed s table ⟨key, table.withNumber key values⟩
    let row ← fitted s table (← present s table a.replacing row)
    check s table row
    let referring := s.schema.isReferring table
    if given.isSome && !table.withoutRowid then
      match ← locate s table row with
      | some c =>
        if !a.replacing then throw .refused
        if referring then removeRow fuel a table (← readRow s table c)
        else deleteEntries s table none c
      | none => pure ()
    let entries ← table.indexes.filterMapM fun index => do
      if ← isIn s table index row then return some (index, ← entryOf s table index row)
      else return none
    let (data, _) ← entries.foldlM (fun (data, final) (index, entry) => do
      let overwrites := a.replacing && !referring && table.withoutRowid && index.isPrimaryKey &&
        table.indexes.length = 1
      if overwrites then return (data, final)
      match ← holding ((data.map (·.1.pages)).getD []) (rival? s table final index entry) with
      | none => return (data, final)
      | some rival =>
        if !a.replacing then throw .refused
        if rival.place ≠ .eq then
          return (some (rival.row, rival.place),
            final.filter fun c => rival.place = .lt && c = rival.row)
        if referring then
          let old ← readRow s table rival.row
          countMissing s table old (-1)
          countReferring s table old 1
          removeAt s table rival
          followReferences fuel a table old none
        else removeAt s table rival
        return (none, none)) (last.map (·, Ordering.lt), last)
    if referring then
      if a.replacing then
        entries.forM fun (index, entry) => do
          if (← rival? s table none index entry).isSome then throw .refused
      let replacing := a.replacing && !s.single && !s.inTrigger
      countMissingOf s table row 1 (s.schema.demanded table replacing)
      countReferring s table row (-1)
    let held ← holding ((data.map (·.1.pages)).getD []) (putEntries s [] entries)
    match key with
    | none => pure ()
    | some n =>
      let programmed := s.schema.isProgrammed table .insert
      let data := if programmed && last.isNone then none else data
      holding held do
        let (c, place) ← match data with
          | some (c, place) => pure (c, place)
          | none => seekKey table.cursor n given.isNone
        let _ ← insert c place n (record s.schema.brief (table.recordValues row))
    remember s table sequence key
    fire fuel a table .insert .after [row.sight table "new" true]

/-- Take a row out of a table, as a statement asks. -/
def deleteRow : (fuel : Nat) → Acting → Table → Row → Paging Unit
  | 0, _, _, _ => throw .refused
  | fuel + 1, a, table, row => unlessSkipped do
    let old := [row.sight table "old" true]
    if table.isView then fire fuel a table .delete .instead old
    else
      fire fuel a table .delete .before old
      removeRow fuel a table row
      fire fuel a table .delete .after old

/-- Take a row out of a table with its entries, unless it is gone already. -/
def removeRow : (fuel : Nat) → Acting → Table → Row → Paging Unit
  | 0, _, _, _ => throw .refused
  | fuel + 1, a, table, row => do
    let s := a.setting
    match ← locate s table row with
    | none => return
    | some c =>
      let referring := s.schema.isReferring table
      if referring then
        countMissing s table row (-1)
        countReferring s table row 1
      deleteEntries s table none c
      let _ ← delete c
      if referring then followReferences fuel a table row none

/-- Change some columns of a row, as a statement asks. -/
def updateRow : (fuel : Nat) → Acting → Table → Row → List (Nat × Value) → (key : Option Value) →
    Paging Unit
  | 0, _, _, _, _, _ => throw .refused
  | fuel + 1, a, table, row, changes, key => unlessSkipped do
    let s := a.setting
    let encoding := s.schema.encoding
    let event := Event.update (changes.map fun (i, _) => (table.column i).name)
    let newKey ← match key, row.key with
      | some v, some _ => some <$> demandKey encoding v
      | _, n => pure n
    let changed (row : Row) : Row :=
      ⟨newKey, table.withNumber newKey
        (changes.foldl (fun values (i, v) => values.set i v) row.values)⟩
    let both (new : Row) : List Sight := [new.sight table "new" true, row.sight table "old" true]
    if table.isView then
      fire fuel a table event .instead (both (changed row))
      return
    let shown ← computed s table (← fitted s table (changed row))
    fire fuel a table event .before (both shown)
    match ← locate s table row with
    | none => return
    | some c =>
      let current ← readRow s table c
      let new ← computed s table (changed current)
      let new ← fitted s table (← present s table a.replacing new)
      check s table new
      if new.key ≠ row.key then
        match ← locate s table new with
        | some c =>
          if !a.replacing then throw .refused
          removeRow fuel a table (← readRow s table c)
        | none => pure ()
      let referring := s.schema.isReferring table
      if referring then
        countMissing s table current (-1)
        countReferring s table current 1
      match ← locate s table row with
      | none => return
      | some c =>
        deleteEntries s table none c
        let _ ← delete c
      let entries ← table.indexes.filterMapM fun index => do
        if ← isIn s table index new then return some (index, ← entryOf s table index new)
        else return none
      entries.forM fun (index, entry) => do
        match ← rival? s table none index entry with
        | none => return
        | some rival =>
          if !a.replacing then throw .refused
          if rival.place = .eq then removeAt s table rival
      if referring then
        countMissing s table new 1
        countReferring s table new (-1)
      let held ← putEntries s [] entries
      match new.key with
      | none => pure ()
      | some n => holding held do
        let (c, place) ← seekKey table.cursor n false
        let _ ← insert c place n (record s.schema.brief (table.recordValues new))
      if referring then followReferences fuel a table current (some new)
      fire fuel a table event .after (both new)

/-- Do to the rows that refer to a row what their references ask for when it goes, or when it
changes. -/
def followReferences : (fuel : Nat) → Acting → Table → Row → (new : Option Row) → Paging Unit
  | 0, _, _, _, _ => throw .refused
  | fuel + 1, a, table, old, new =>
    (a.setting.schema.references table).forM fun (child, reference) => do
      let s := a.setting
      let a := { a with replacing := false }
      let pairs ← orRefused (Schema.pairs? table reference)
      let kept := new.any fun new => pairs.all fun (_, j) =>
        (old.value j).compare (table.column j).collation s.schema.encoding (new.value j) = .eq
      let action := if new.isSome then reference.onUpdate else reference.onDelete
      if kept || action = .none then return
      let rows ← referringRows s child table reference old
      rows.forM fun row =>
        match action with
        | .none => return
        | .restrict => throw .refused
        | .cascade =>
          match new with
          | none => deleteRow fuel a child row
          | some new =>
            updateRow fuel a child row (pairs.map fun (i, j) => (i, new.value j)) none
        | .setNull => updateRow fuel a child row (pairs.map fun (i, _) => (i, .null)) none
        | .setDefault => do
          let changes ← pairs.mapM fun (i, _) => do
            return (i, ← defaultOf s (child.column i))
          updateRow fuel a child row changes none

/-- Run the triggers that something done to a row sets off at a time. -/
def fire : (fuel : Nat) → Acting → Table → Event → TriggerTime → List Sight → Paging Unit
  | 0, _, _, _, _, _ => throw .refused
  | fuel + 1, a, table, event, time, rows =>
    (a.setting.schema.triggersFor table event time).forM fun trigger => do
      if a.active.contains trigger.name then return
      let s := { a.setting with inTrigger := true, parameter := .null }
      let a := { a with setting := s, active := trigger.name :: a.active }
      let scope : Scope := [⟨rows, []⟩]
      match trigger.condition with
      | some e =>
        if (← eval depthBound s scope none e).truth s.schema.encoding ≠ some true then return
      | none => pure ()
      trigger.steps.forM (runStep fuel a scope)

/-- Run a step of a trigger. -/
def runStep : (fuel : Nat) → Acting → Scope → Step → Paging Unit
  | 0, _, _, _ => throw .refused
  | fuel + 1, a, scope, step => do
    let s := a.setting
    match step with
    | .select q =>
      let _ ← rowsOf depthBound s scope q
    | .insert _ name columns q _ =>
      let table ← orRefused (s.schema.table? name)
      let rows ← rowsOf depthBound s scope q
      rows.forM (insertInto fuel a table columns)
    | .delete name condition =>
      let table ← orRefused (s.schema.table? name)
      let rows ← chosen s scope table name condition
      rows.forM (deleteRow fuel a table ·.1)
    | .update _ name changes _ condition =>
      let table ← orRefused (s.schema.table? name)
      let rows ← chosen s scope table name condition
      let planned ← rows.mapM fun (row, inner) => do
        let found ← changes.mapM fun (targets, e) => do
          match targets, e with
          | [target], e => return [(target, ← eval depthBound s inner none e)]
          | targets, .row es => do
            return targets.zip (← es.mapM (eval depthBound s inner none))
          | _, _ => throw .refused
        return (row, found.flatten)
      planned.forM fun (row, found) => do
        let columns := found.filterMap fun (name, v) => (table.column? name).map (·, v)
        let key := (found.find? fun (name, _) =>
          match table.column? name with
          | some i => table.rowidColumn = some i
          | none => true).map (·.2)
        updateRow fuel a table row columns key

/-- Put a row into a table whose columns are named, or are all that can be given. -/
def insertInto : (fuel : Nat) → Acting → Table → List String → List Value → Paging Unit
  | 0, _, _, _, _ => throw .refused
  | fuel + 1, a, table, names, row => do
    let s := a.setting
    let columns ← match table.kind with
      | .view _ _ =>
        let shown ← orRefused (s.sourceOf depthBound [] (.table table.name none))
        pure ((shown.flatMap (·.columns)).map (·.name))
      | _ => pure (table.columns.map (·.name))
    let open' := (List.range columns.length).filter fun i => (table.column i).generated.isNone
    let targets : List (Option Nat) :=
      if names.isEmpty then open'.map some
      else names.map fun name => columns.findIdx? (· = Token.lowered name)
    let given := targets.zip row
    let values ← (List.range columns.length).mapM fun i => do
      match given.find? (·.1 = some i) with
      | some (_, v) => return v
      | none => if table.isView then return .null else defaultOf s (table.column i)
    let key := (given.find? fun (target, _) =>
      target.isNone || (target.isSome && target = table.rowidColumn)).map (·.2)
    insertRow fuel a table key values

end

end Paging

end OwnershipLog
