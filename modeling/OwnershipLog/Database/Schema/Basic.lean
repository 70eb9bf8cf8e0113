import OwnershipLog.Database.Record
import OwnershipLog.Database.Sql.Declaration

/-!
# Schemas

A schema is what a database holds, as its declarations say: tables with their
columns, indexes and references, views, and triggers. Names are kept in small
letters, since they are compared without regard to case.
-/

namespace OwnershipLog

/-- What kind of values a column prefers. -/
inductive Affinity where
  | none
  | blob
  | text
  | numeric
  | integer
  | real
deriving DecidableEq, Repr, Inhabited

namespace Affinity

/-- Whether some kind of values is preferred. -/
def isSome : Affinity → Bool
  | none => false
  | _ => true

/-- Whether numbers are preferred. -/
def isNumeric : Affinity → Bool
  | numeric => true
  | integer => true
  | real => true
  | _ => false

end Affinity

/-- The collation of a name. -/
def Collation.ofName (name : String) : Collation :=
  match Token.lowered name with
  | "binary" => .binary
  | "nocase" => .noCase
  | "rtrim" => .trimmed
  | _ => .unknown

/-- A column of a table. -/
structure Column where
  name : String
  affinity : Affinity
  /-- The type in small letters, if it is one of those that are known. -/
  type : String
  /-- How long its values are thought to be. -/
  width : Nat
  collation : Collation
  notNull : Bool
  default : Option Expr
  /-- What it is computed by, if it is, and whether that is stored. -/
  generated : Option (Expr × Bool)
  inPrimaryKey : Bool
deriving Inhabited

namespace Column

/-- Whether the column has no place in the record of a row. -/
def isVirtual (column : Column) : Bool := column.generated.any (!·.2)

end Column

/-- What a field of an index is. -/
inductive IndexField where
  | column (i : Nat)
  | rowid
  | expr (e : Expr)
deriving Inhabited

/-- The column that a field is, if it is one. -/
def IndexField.column? : IndexField → Option Nat
  | column i => some i
  | _ => none

/-- A key of an index, with how it is ordered. -/
structure IndexKey where
  field : IndexField
  collation : Collation
  descending : Bool
deriving Inhabited

/-- An index of a table. -/
structure Index where
  name : String
  /-- The page of its root; zero if that is not known. -/
  root : Nat
  unique : Bool
  /-- What its declaration says to do on a conflict. -/
  conflict : Conflict
  /-- The keys that were declared. -/
  keys : List IndexKey
  /-- The keys that tell the row. -/
  tail : List IndexKey
  /-- Which rows are in it; all of them if that is not said. -/
  condition : Option Expr
  isPrimaryKey : Bool
  /-- Whether it was created by a declaration of its own. -/
  declared : Bool
deriving Inhabited

namespace Index

/-- All keys. -/
def all (index : Index) : List IndexKey := index.keys ++ index.tail

/-- How its entries are ordered. -/
def order (index : Index) (encoding : TextEncoding) : Order :=
  ⟨index.all.map fun key => (key.collation, key.descending), encoding⟩

/-- Whether one of its collations is not known. -/
def isUnordered (index : Index) : Bool := index.all.any (·.collation = .unknown)

end Index

/-- A reference of a table to a row of another one. -/
structure Reference where
  columns : List Nat
  parent : String
  /-- The columns referred to; the primary key if there are none. -/
  parentColumns : List String
  onDelete : ReferenceAction
  onUpdate : ReferenceAction
  deferred : Bool
deriving Inhabited

/-- What a table is. -/
inductive TableKind where
  | ordinary
  | view (columns : List String) (q : Selection)
  /-- A table that another program keeps. -/
  | external

/-- A table. -/
structure Table where
  name : String
  kind : TableKind
  root : Nat
  columns : List Column
  /-- The column that is the number of the row, if any. -/
  rowidColumn : Option Nat
  /-- Whether numbers of rows are never used again. -/
  autoincrement : Bool
  withoutRowid : Bool
  strict : Bool
  /-- Its indexes in the order in which they are looked at. -/
  indexes : List Index
  checks : List Expr
  references : List Reference

namespace Table

/-- The index that holds the rows of a table whose rows have no numbers. -/
def primaryKey? (table : Table) : Option Index := table.indexes.find? (·.isPrimaryKey)

/-- The column of a name. -/
def column? (table : Table) (name : String) : Option Nat :=
  table.columns.findIdx? (·.name = Token.lowered name)

/-- The column at a place. -/
def column (table : Table) (i : Nat) : Column := table.columns.getD i default

/-- The columns that have a place in a record. -/
def stored (table : Table) : List Nat :=
  (List.range table.columns.length).filter fun i => !(table.column i).isVirtual

/-- Whether rows can be asked for their numbers. -/
def hasRowid (table : Table) : Bool :=
  match table.kind with
  | .ordinary => !table.withoutRowid
  | _ => false

/-- Whether a name stands for the numbers of rows. -/
def isRowid (table : Table) (name : String) : Bool :=
  table.hasRowid && ["rowid", "oid", "_rowid_"].contains (Token.lowered name)

/-- Whether the table is a view. -/
def isView (table : Table) : Bool :=
  match table.kind with
  | .view _ _ => true
  | _ => false

/-- Whether another program keeps the table. -/
def isExternal (table : Table) : Bool :=
  match table.kind with
  | .external => true
  | _ => false

end Table

/-- A trigger. -/
structure Trigger where
  name : String
  table : String
  time : TriggerTime
  event : TriggerEvent
  condition : Option Expr
  steps : List Step

/-- What a database holds. -/
structure Schema where
  tables : List Table
  triggers : List Trigger
  encoding : TextEncoding
  format : Nat

namespace Schema

/-- The table that holds the declarations. -/
def declarations : Table where
  name := "sqlite_master"
  kind := .ordinary
  root := 1
  columns := [("type", Affinity.text), ("name", .text), ("tbl_name", .text),
    ("rootpage", .integer), ("sql", .text)].map fun (name, affinity) =>
      ⟨name, affinity, "", 1, .binary, false, none, none, false⟩
  rowidColumn := none
  autoincrement := false
  withoutRowid := false
  strict := false
  indexes := []
  checks := []
  references := []

/-- The table of a name. -/
def table? (schema : Schema) (name : String) : Option Table :=
  let name := Token.lowered name
  if name = "sqlite_master" || name = "sqlite_schema" then some declarations
  else schema.tables.find? (·.name = name)

/-- The index of a name, with its table. -/
def index? (schema : Schema) (name : String) : Option (Table × Index) :=
  schema.tables.findSome? fun table =>
    (table.indexes.find? (·.name = Token.lowered name)).map (table, ·)

/-- The schema with another state of a table. -/
def withTable (schema : Schema) (table : Table) : Schema :=
  { schema with
    tables := schema.tables.map fun other => if other.name = table.name then table else other }

/-- Whether values 0 and 1 take no room in records. -/
def brief (schema : Schema) : Bool := 4 ≤ schema.format

end Schema

end OwnershipLog
