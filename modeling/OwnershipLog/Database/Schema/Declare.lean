import OwnershipLog.Database.Schema.Basic
import OwnershipLog.Database.Function

/-!
# What declarations add to a schema

`Schema.declare` takes in one declaration: it gives columns their affinities and
widths, turns keys and other constraints into indexes, and refuses what
contradicts itself or what is already declared. A table whose only key is declared
`INTEGER PRIMARY KEY` has that column as the number of its rows; one without
numbers is kept in the index of its primary key.
-/

namespace OwnershipLog

namespace Affinity

/-- What a word in a type asks for, given what those before it asked for. -/
def ofWord (word : String) (before : Affinity) : Option Affinity :=
  if ["char", "clob", "text"].contains word then some .text
  else if word = "blob" && (before = numeric || before = real) then some .blob
  else if ["real", "floa", "doub"].contains word && before = numeric then some .real
  else Option.none

/-- The affinity that the characters of a type ask for, and what follows the word that asked for a
text or for a length. -/
def scan : List Char → Affinity → (rest : Option (List Char)) → Affinity × Option (List Char)
  | [], found, rest => (found, rest)
  | c :: cs, found, rest =>
    if String.ofList ((c :: cs).take 3) = "int" then (integer, rest)
    else match ofWord (String.ofList ((c :: cs).take 4)) found with
      | some .text => scan cs text (some (cs.drop 3))
      | some .blob =>
        scan cs blob (if (cs.drop 3).head? = some '(' then some (cs.drop 3) else rest)
      | some other => scan cs other rest
      | Option.none => scan cs found rest

/-- The number in a text, if it is a number of 31 bits. -/
def length (cs : List Char) : Nat :=
  let digits := (cs.dropWhile (!Token.isDigit ·)).takeWhile Token.isDigit
  let n := Numeral.ofDigits (digits.map Char.toNat)
  if n < 2 ^ 31 then n else 0

/-- The affinity that a type in small letters asks for, and how long its values are thought to be,
in steps of four bytes. -/
def ofType (type : String) : Affinity × Nat :=
  match type with
  | "" => (blob, 1)
  | "any" => (numeric, 1)
  | "blob" => (blob, 5)
  | "int" => (integer, 1)
  | "integer" => (integer, 1)
  | "real" => (real, 1)
  | "text" => (text, 5)
  | type =>
    let (found, rest) := scan type.toList numeric Option.none
    let size := if found.isNumeric then 0 else (rest.map length).getD 16
    (found, min 255 (size / 4 + 1))

end Affinity

/-- The types that are known by name. -/
def knownTypes : List String := ["any", "blob", "int", "integer", "real", "text"]

/-- What an expression in a declaration is for. -/
inductive Purpose where
  /-- It must hold of every row. -/
  | check
  /-- It says which rows are in an index. -/
  | condition
  /-- It is what an index orders by. -/
  | key
  /-- It computes a column. -/
  | generated
deriving DecidableEq, Repr

namespace Table

/-- Whether a form may stand in an expression for a purpose. Names that are not known may be
functions that are defined elsewhere. -/
def allowsForm (table : Table) (purpose : Purpose) : Expr → Bool
  | .parameter => false
  | .inSelection _ _ => false
  | .exists _ => false
  | .subquery _ => false
  | .windowed _ _ => false
  | .moment _ => purpose = .check
  | .column none name inQuotes =>
    (table.column? name).isSome || inQuotes || ["true", "false"].contains (Token.lowered name) ||
      (table.isRowid name && (purpose = .check || purpose = .condition))
  | .column (some other) name _ =>
    (purpose = .check || purpose = .condition) && Token.lowered other = table.name &&
      ((table.column? name).isSome || table.isRowid name)
  | .call name _ arguments => allowsCall purpose name arguments.length
  | .callOfAll name => allowsCall purpose name 0
  | _ => true
where
  /-- Whether a function may be called for a purpose. -/
  allowsCall (purpose : Purpose) (name : String) (count : Nat) : Bool :=
    if !Function.isKnown name then true
    else Function.allows Function.scalars name count &&
      (purpose = .check || !Function.changing.contains name)

/-- Whether an expression over one row of a table may serve a purpose. -/
def allows (table : Table) (purpose : Purpose) (e : Expr) : Bool :=
  e.everywhere (table.allowsForm purpose)

/-- The key of an index that an expression asks for. If the index belongs to the declaration of the
table, only columns can be keys. Keys descend only if that is `honoured`. -/
def keyOf? (table : Table) (own honoured : Bool) (e : Expr) (descending : Bool) :
    Option IndexKey :=
  let bare : Expr := match e.uncollated with
    | .text name => .column none name false
    | other => other
  let collation := match e with
    | .collate _ name => some (Collation.ofName name)
    | _ => none
  let descending := descending && honoured
  match bare with
  | .column none name _ =>
    match table.column? name with
    | some i => some ⟨.column i, collation.getD (table.column i).collation, descending⟩
    | none => expression own bare collation descending
  | _ => expression own e collation descending
where
  /-- A key that is computed. -/
  expression (own : Bool) (e : Expr) (collation : Option Collation) (descending : Bool) :
      Option IndexKey :=
    if own || !table.allows .key e then none
    else some ⟨.expr e, collation.getD .binary, descending⟩

end Table

/-- Indexes with those that replace rows moved behind those that do not; all but one are in order. -/
def replacingLast : List Index → List Index
  | [] => []
  | index :: rest =>
    if index.conflict = .replace then
      rest.takeWhile (·.conflict ≠ .replace) ++ index :: rest.dropWhile (·.conflict ≠ .replace)
    else index :: replacingLast rest

/-- A table while its declaration is being read. -/
structure Draft where
  table : Table
  /-- Whether the key that became the number of a row descends, and what to do on a conflict. -/
  rowidKey : Bool × Conflict

namespace Draft

/-- The place of the last column. -/
def lastColumn (draft : Draft) : Nat := draft.table.columns.length - 1

/-- The draft with another state of a column. -/
def changeColumn (draft : Draft) (i : Nat) (change : Column → Column) : Draft :=
  { draft with table := { draft.table with columns := draft.table.columns.modify i change } }

/-- Whether two indexes have the same columns in the same orders of texts. -/
def sameKeys (a b : Index) : Bool :=
  a.keys.length = b.keys.length && (a.keys.zip b.keys).all fun (x, y) =>
    x.field.column? = y.field.column? && x.collation = y.collation

/-- Add an index of a key of the table. One that is there already is not added again, but the two
must not ask for different things. -/
def addIndex (draft : Draft) (honoured isPrimaryKey : Bool) (keys : List (Expr × Bool))
    (conflict : Conflict) : Option Draft := do
  let table := draft.table
  let keys ← keys.mapM fun (e, descending) => table.keyOf? true honoured e descending
  let index : Index := {
    name := "sqlite_autoindex_" ++ table.name ++ "_" ++ toString (table.indexes.length + 1)
    root := 0
    unique := true
    conflict, keys
    tail := [⟨.rowid, .binary, false⟩]
    condition := none
    isPrimaryKey
    declared := false }
  let indexes ← match table.indexes.findIdx? (sameKeys · index) with
    | some i =>
      let old := table.indexes.getD i index
      if old.conflict ≠ conflict && old.conflict ≠ .unspecified && conflict ≠ .unspecified then
        none
      some (table.indexes.set i { old with
        conflict := if old.conflict = .unspecified then conflict else old.conflict
        isPrimaryKey := old.isPrimaryKey || isPrimaryKey })
    | none => some (index :: table.indexes)
  return { draft with table := { table with indexes := replacingLast indexes } }

/-- The column that a key names. -/
def keyColumn? (draft : Draft) (e : Expr) : Option Nat :=
  match e.uncollated with
  | .text name => draft.table.column? name
  | .column none name _ => draft.table.column? name
  | _ => none

/-- Take in a primary key. -/
def addPrimaryKey (draft : Draft) (honoured : Bool) (keys : List (Expr × Bool))
    (descending auto : Bool) (conflict : Conflict) : Option Draft := do
  if draft.table.columns.any (·.inPrimaryKey) then none
  let columns := keys.filterMap fun (e, _) => draft.keyColumn? e
  if columns.any fun i => (draft.table.column i).generated.isSome then none
  let draft := columns.foldl
    (fun draft i => draft.changeColumn i fun column => { column with inPrimaryKey := true }) draft
  let number? := match keys, columns with
    | [_], [i] =>
      if (draft.table.column i).type = "integer" && !descending then some i else none
    | _, _ => none
  match number? with
  | some i =>
    return {
      table := { draft.table with rowidColumn := some i, autoincrement := auto }
      rowidKey := (keys.any (·.2), conflict) }
  | none =>
    if auto then none
    draft.addIndex honoured true keys conflict

/-- Take in a reference. -/
def addReference (draft : Draft) (columns : List Nat) (clause : ReferenceClause) : Option Draft :=
  if !clause.parentColumns.isEmpty && clause.parentColumns.length ≠ columns.length then none
  else some { draft with
    table := { draft.table with
      references := draft.table.references ++ [{
        columns
        parent := Token.lowered clause.parent
        parentColumns := clause.parentColumns.map Token.lowered
        onDelete := clause.onDelete
        onUpdate := clause.onUpdate
        deferred := clause.deferred }] } }

/-- Whether a default has the same value for all rows. -/
def isConstant (e : Expr) : Bool := e.everywhere fun
  | .column none name inQuotes => !inQuotes && ["true", "false"].contains (Token.lowered name)
  | .column _ _ _ => false
  | .inSelection _ _ => false
  | .exists _ => false
  | .subquery _ => false
  | .windowed _ _ => false
  | .raise _ => false
  | _ => true

/-- Take in what is said of the last column. -/
def restrictColumn (draft : Draft) (honoured : Bool) (constraint : Constraint) : Option Draft :=
  let i := draft.lastColumn
  let column := draft.table.column i
  let itself := Expr.column none column.name false
  match constraint with
  | .primaryKey _ descending auto conflict =>
    draft.addPrimaryKey honoured [(itself, descending)] descending auto conflict
  | .unique _ conflict => draft.addIndex honoured false [(itself, false)] conflict
  | .notNull _ => some (draft.changeColumn i fun column => { column with notNull := true })
  | .check e =>
    some { draft with table := { draft.table with checks := draft.table.checks ++ [e] } }
  | .default e =>
    if column.generated.isSome || !isConstant e then none
    else some (draft.changeColumn i fun column => { column with default := some e })
  | .collate name =>
    let collation := Collation.ofName name
    let draft := draft.changeColumn i fun column => { column with collation }
    let recollated (index : Index) : Index :=
      match index.keys with
      | key :: rest =>
        if key.field.column? = some i then { index with keys := { key with collation } :: rest }
        else index
      | [] => index
    some { draft with
      table := { draft.table with indexes := draft.table.indexes.map recollated } }
  | .generated e stored =>
    if column.generated.isSome || column.default.isSome || column.inPrimaryKey then none
    else some (draft.changeColumn i fun column => { column with generated := some (e, stored) })
  | .references _ clause => draft.addReference [i] clause
  | .deferred value =>
    let references := draft.table.references
    some { draft with
      table := { draft.table with
        references := references.modify (references.length - 1) fun reference =>
          { reference with deferred := value } } }

/-- Take in what is said of the table as a whole. -/
def restrict (draft : Draft) (honoured : Bool) : Constraint → Option Draft
  | .primaryKey keys _ auto conflict => draft.addPrimaryKey honoured keys false auto conflict
  | .unique keys conflict => draft.addIndex honoured false keys conflict
  | .check e =>
    some { draft with table := { draft.table with checks := draft.table.checks ++ [e] } }
  | .references names clause => do
    let columns ← names.mapM draft.table.column?
    draft.addReference columns clause
  | _ => some draft

/-- The most columns of a table. -/
def maxColumns : Nat := 2000

/-- Take in a column. -/
def addColumn (honoured : Bool) (draft : Draft) (declared : ColumnDeclaration) : Option Draft := do
  if maxColumns ≤ draft.table.columns.length then none
  if (draft.table.column? declared.name).isSome then none
  let type := Token.lowered declared.type
  let (affinity, width) := Affinity.ofType type
  let column : Column := {
    name := Token.lowered declared.name
    affinity
    type := if knownTypes.contains type then type else ""
    width
    collation := .binary
    notNull := false
    default := none
    generated := none
    inPrimaryKey := false }
  declared.constraints.foldlM (restrictColumn · honoured)
    { draft with table := { draft.table with columns := draft.table.columns ++ [column] } }

/-- Hold a table to its types. -/
def makeStrict (draft : Draft) : Option Draft := do
  let table := draft.table
  if !(table.columns.all fun column => knownTypes.contains column.type) then none
  let columns := (List.range table.columns.length).map fun i =>
    let column := table.column i
    { column with
      affinity := if column.type = "any" then .blob else column.affinity
      notNull := column.notNull || (column.inPrimaryKey && table.rowidColumn ≠ some i) }
  return { draft with table := { table with columns, strict := true } }

/-- The keys of a list without those that it, or a list before it, has had already. -/
def novel (before : List IndexKey) : List IndexKey → List IndexKey
  | [] => []
  | key :: rest =>
    if before.any fun other =>
        other.field.column? = key.field.column? && other.collation = key.collation then
      novel before rest
    else key :: novel (before ++ [key]) rest

/-- The keys of a primary key that tell the row of an entry whose own keys do not. -/
def tailFor (keys primary : List IndexKey) : List IndexKey :=
  primary.filter fun key => !keys.any fun other =>
    other.field.column? = key.field.column? && other.collation = key.collation

/-- Keep the rows of a table in the index of its primary key. -/
def withoutRowid (draft : Draft) (honoured : Bool) : Option Draft := do
  if draft.table.autoincrement || !draft.table.columns.any (·.inPrimaryKey) then none
  let columns := draft.table.columns.map fun column =>
    { column with notNull := column.notNull || column.inPrimaryKey }
  let draft := { draft with table := { draft.table with columns, withoutRowid := true } }
  let draft ← match draft.table.rowidColumn with
    | some i =>
      let draft := { draft with table := { draft.table with rowidColumn := none } }
      draft.addIndex honoured true
        [(.column none (draft.table.column i).name false, draft.rowidKey.1)] draft.rowidKey.2
    | none => some draft
  let table := draft.table
  let primary ← table.primaryKey?
  let keys := novel (primary.keys.take 1) (primary.keys.drop 1)
  let keys := primary.keys.take 1 ++ keys
  let others := table.stored.filter fun i => !keys.any (·.field.column? = some i)
  let convert (index : Index) : Index :=
    if index.isPrimaryKey then
      { index with
        keys
        root := table.root
        tail := others.map fun i => ⟨.column i, .binary, false⟩ }
    else
      { index with
        tail := (tailFor index.keys keys).map fun key => { key with descending := false } }
  return { draft with table := { table with indexes := table.indexes.map convert } }

end Draft

namespace Schema

/-- Whether a table, a view or an index has a name already. -/
def hasTableName (schema : Schema) (name : String) : Bool :=
  (schema.table? name).isSome || (schema.index? name).isSome

/-- Whether keys that descend are told apart from others. -/
def honoursOrder (schema : Schema) : Bool := 4 ≤ schema.format

/-- The table of a declaration. -/
def table (schema : Schema) (root : Nat) (name : String) (columns : List ColumnDeclaration)
    (constraints : List Constraint) (withoutRowid strict : Bool) : Option Table := do
  let honoured := schema.honoursOrder
  let draft : Draft := {
    table := {
      name := Token.lowered name
      kind := .ordinary
      root
      columns := []
      rowidColumn := none
      autoincrement := false
      withoutRowid := false
      strict := false
      indexes := []
      checks := []
      references := [] }
    rowidKey := (false, .unspecified) }
  let draft ← columns.foldlM (Draft.addColumn honoured) draft
  let draft ← constraints.foldlM (·.restrict honoured) draft
  let draft ← if strict then draft.makeStrict else some draft
  let draft ← if withoutRowid then draft.withoutRowid honoured else some draft
  let table := draft.table
  if !table.checks.all (table.allows .check) then none
  if table.columns.any fun column => column.generated.any (!table.allows .generated ·.1) then none
  if table.columns.all (·.generated.isSome) then none
  return table

/-- The index of a declaration. -/
def index (schema : Schema) (root : Nat) (table : Table) (name : String) (unique : Bool)
    (keys : List (Expr × Bool)) (condition : Option Expr) : Option Index := do
  if table.isView || table.isExternal then none
  if (schema.index? name).isSome then none
  if condition.any (!table.allows .condition ·) then none
  let keys ← keys.mapM fun (e, descending) =>
    table.keyOf? false schema.honoursOrder e descending
  if table.indexes.any (·.root = root) then none
  let tail := match table.withoutRowid, table.primaryKey? with
    | true, some primary => Draft.tailFor keys primary.keys
    | _, _ => [⟨.rowid, .binary, false⟩]
  return {
    name := Token.lowered name
    root, unique
    conflict := if unique then .abort else .unspecified
    keys, tail, condition
    isPrimaryKey := false
    declared := true }

/-- The schema with one more declaration, whose root is on a page. -/
def declare (schema : Schema) (root : Nat) : Declaration → Option Schema
  | .table name columns constraints withoutRowid strict => do
    if schema.hasTableName name || root = 1 then none
    let table ← schema.table root name columns constraints withoutRowid strict
    return { schema with tables := schema.tables ++ [table] }
  | .view name columns q => do
    if schema.hasTableName name || root ≠ 0 then none
    return { schema with tables := schema.tables ++ [plain name (.view columns q)] }
  | .external name => do
    if schema.hasTableName name || root = 1 then none
    return { schema with tables := schema.tables ++ [plain name .external] }
  | .index name owner unique keys condition => do
    let table ← schema.table? owner
    let index ← schema.index root table name unique keys condition
    return schema.withTable { table with indexes := replacingLast (index :: table.indexes) }
  | .trigger name owner time event condition steps => do
    let table ← schema.table? owner
    if table.isExternal || "sqlite_".isPrefixOf table.name then none
    if schema.triggers.any (·.name = Token.lowered name) then none
    if table.isView != (time = .instead) then none
    let trigger := ⟨Token.lowered name, table.name, time, event, condition, steps⟩
    return { schema with triggers := trigger :: schema.triggers }
where
  /-- A table without rows of its own. -/
  plain (name : String) (kind : TableKind) : Table := {
    name := Token.lowered name
    kind
    root := 0
    columns := []
    rowidColumn := none
    autoincrement := false
    withoutRowid := false
    strict := false
    indexes := []
    checks := []
    references := [] }

end Schema

end OwnershipLog
