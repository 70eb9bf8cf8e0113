import OwnershipLog.Database.Schema.Declare

/-!
# Scopes

A name in an expression means a column of a row in sight. The rows in sight lie in
levels: those of the query at hand first, then those of the queries around it. A
name means the same whether or not the rows have been read yet, so rows without
values serve to find out what can be asked at all.
-/

namespace OwnershipLog

/-- A column that can be asked for. -/
structure Shown where
  name : String
  affinity : Affinity
  collation : Collation
deriving Inhabited

/-- A row in sight. -/
structure Sight where
  /-- What its columns can be qualified by. -/
  names : List String
  columns : List Shown
  /-- The columns that are found elsewhere unless they are qualified. -/
  hidden : List String
  /-- Whether its columns must be qualified. -/
  marked : Bool
  /-- Its number, if it can be asked for that. -/
  rowid : Option Value
  values : List Value
deriving Inhabited

/-- The rows that one query has in sight, and its results by their names. -/
structure Level where
  rows : List Sight
  results : List (String × Expr)

/-- All that is in sight, nearest first. -/
abbrev Scope := List Level

/-- What a name means. -/
inductive Meaning where
  | column (value : Value) (affinity : Affinity) (collation : Collation)
  /-- A result of a query, in the scope from its level on. -/
  | result (e : Expr) (scope : Scope)
  /-- Nothing. -/
  | nothing
  /-- More than one thing. -/
  | manifold

namespace Sight

/-- Whether a qualifier, or its absence, can stand for the row. -/
def answersTo (row : Sight) : Option String → Bool
  | some name => row.names.contains (Token.lowered name)
  | none => !row.marked

/-- The column of a name. -/
def column? (row : Sight) (table : Option String) (name : String) : Option Meaning :=
  let name := Token.lowered name
  if !row.answersTo table || (table.isNone && row.hidden.contains name) then none
  else (row.columns.findIdx? (·.name = name)).map fun i =>
    let shown := row.columns.getD i default
    .column (row.values.getD i .null) shown.affinity shown.collation

/-- The row without what it holds. -/
def bare (row : Sight) : Sight := { row with values := [], rowid := row.rowid.map fun _ => .null }

end Sight

/-- The names that stand for the number of a row. -/
def isRowidName (name : String) : Bool :=
  ["rowid", "oid", "_rowid_"].contains (Token.lowered name)

/-- What a name means. -/
def Scope.resolve (table : Option String) (name : String) : Scope → Meaning
  | [] => .nothing
  | level :: outer =>
    match level.rows.filterMap (·.column? table name) with
    | [meaning] => meaning
    | _ :: _ :: _ => .manifold
    | [] =>
      match level.rows.filter (·.answersTo table), isRowidName name with
      | [⟨_, _, _, _, some rowid, _⟩], true => .column rowid .integer .binary
      | _, _ =>
        match table, level.results.find? (·.1 = Token.lowered name) with
        | none, some (_, e) => .result e (⟨level.rows, []⟩ :: outer)
        | _, _ => Scope.resolve table name outer

namespace Table

/-- A row of the table in sight under some names. -/
def sight (table : Table) (names : List String) (marked : Bool) (rowid : Option Value)
    (values : List Value) : Sight where
  names
  columns := (List.range table.columns.length).map fun i =>
    let column := table.column i
    ⟨column.name, if table.rowidColumn = some i then .integer else column.affinity,
      column.collation⟩
  hidden := []
  marked
  rowid := if table.hasRowid then some (rowid.getD .null) else none
  values

end Table

end OwnershipLog
