import OwnershipLog.Database.Schema.Basic

/-!
# Ways to a row

A row can be looked up through an index, or by going through all rows, perhaps
along an index that is shorter than the table. Which way is taken shows where
indexes and tables disagree. Ways are weighed by estimates, which are ten times
the logarithm to base two of what they stand for.
-/

namespace OwnershipLog

/-- An estimate, ten times a logarithm to base two. -/
abbrev Estimate := Nat

namespace Estimate

/-- A number halved until it is below sixteen, and ten for each time. -/
def halved : (fuel n : Nat) → (found : Estimate) → Nat × Estimate
  | 0, n, found => (n, found)
  | fuel + 1, n, found => if 15 < n then halved fuel (n / 2) (found + 10) else (n, found)

/-- A number doubled until it is eight, and ten less for each time. -/
def doubled : (fuel n : Nat) → (found : Estimate) → Nat × Estimate
  | 0, n, found => (n, found)
  | fuel + 1, n, found => if n < 8 then doubled fuel (2 * n) (found - 10) else (n, found)

/-- The estimate of a number. -/
def ofNat (n : Nat) : Estimate :=
  if n < 2 then 0
  else
    let (n, found) := if n < 8 then doubled 4 n 40 else halved n n 40
    [0, 2, 3, 5, 6, 7, 8, 9].getD (n % 8) 0 + found - 10

/-- The estimate of a sum. -/
def add (a b : Estimate) : Estimate :=
  let high := max a b
  let apart := high - min a b
  if 49 < apart then high
  else if 31 < apart then high + 1
  else high + [10, 10, 9, 9, 8, 8, 7, 7, 7, 6, 6, 6, 5, 5, 5, 4, 4, 4, 4, 3, 3, 3, 3, 3, 3, 2, 2,
    2, 2, 2, 2, 2].getD apart 2

/-- How many rows a table is thought to have. -/
def rows : Estimate := 200

/-- What it takes to find one of them in a tree. -/
def descent : Estimate := ofNat rows - 33

/-- What it takes to go through all of them. -/
def scan : Estimate := rows + 16

/-- How many rows are thought to agree on the first key of an index that does not tell them
apart. -/
def agreeing : Estimate := 33

end Estimate

namespace Table

/-- How long a row is thought to be. -/
def width (table : Table) : Estimate :=
  .ofNat (4 * ((table.columns.map (·.width)).foldl Nat.add 0 +
    if table.rowidColumn.isNone then 1 else 0))

/-- How long an entry of an index is thought to be. -/
def entryWidth (table : Table) (index : Index) : Estimate :=
  .ofNat (4 * (index.all.map fun key =>
    key.field.column?.elim 1 (table.column · |>.width)).foldl Nat.add 0)

/-- Whether an index has all of some columns. -/
def covers (table : Table) (index : Index) (columns : List Nat) : Bool :=
  columns.all fun i =>
    table.rowidColumn = some i && !table.withoutRowid ||
      index.all.any (·.field.column? = some i)

/-- What the entries of an index weigh beside the rows of the table. -/
def weight (table : Table) (index : Index) : Estimate :=
  1 + 15 * table.entryWidth index / table.width

/-- The index along which to go through all rows for some columns; none to go through the table. -/
def scanned (table : Table) (columns : List Nat) : Option Index :=
  let weighed := table.indexes.filterMap fun index =>
    if index.condition.isNone && (index.isPrimaryKey && table.withoutRowid ||
        table.covers index columns && table.entryWidth index < table.width) then
      some (Estimate.rows + table.weight index, index)
    else none
  let start := if table.withoutRowid then none else some (Estimate.scan, none)
  let best := weighed.foldl (fun (best : Option (Estimate × Option Index)) (cost, index) =>
    if best.any (·.1 ≤ cost) then best else some (cost, some index)) start
  best.bind (·.2)

/-- A way to the rows that hold a value in a column. -/
inductive Access where
  /-- The column is the number of the row. -/
  | number
  /-- Through an index whose first key is the column. -/
  | index (index : Index)
  /-- Through all rows, perhaps along an index. -/
  | scan (index : Option Index)

/-- Whether the condition of an index is met by all rows that hold some value in a column. -/
def isMetBy (table : Table) (i : Nat) : Option Expr → Bool
  | none => true
  | some (.unary .notNull (.column none name _)) => table.column? name = some i
  | some _ => false

/-- The way to the rows that hold a value in a column, of which some columns are wanted. -/
def access (table : Table) (i : Nat) (columns : List Nat) : Access :=
  let leads (index : Index) : Bool := match index.keys with
    | key :: _ => key.field.column? = some i && key.collation = (table.column i).collation
    | [] => false
  if table.rowidColumn = some i then .number
  else match table.indexes.find? fun index => leads index && index.unique &&
      index.condition.isNone && index.keys.length = 1 with
    | some index => .index index
    | none =>
      let weighed := (table.indexes.filter fun index =>
        leads index && table.isMetBy i index.condition).map fun index =>
          let apart := index.unique && index.keys.length = 1
          let found : Estimate := if apart then 0 else Estimate.agreeing
          let cost := Estimate.descent.add (found + table.weight index)
          (if table.covers index columns then cost else cost.add (found + 16), index)
      match weighed with
      | [] => .scan (table.scanned columns)
      | first :: rest =>
        .index (rest.foldl (fun best next => if best.1 ≤ next.1 then best else next) first).2

end Table

end OwnershipLog
