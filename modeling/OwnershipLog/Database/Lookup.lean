import OwnershipLog.Database.Evaluate
import OwnershipLog.Database.Plan
import OwnershipLog.Database.Search

/-!
# Looking a value up

The log keeps its bindings in the rows of one table, under `key` and `value`.
`probe` asks for any row, and so finds out whether the table can be read at all;
`valueOf?` finds the value of the first row with a key, along the way that is
thought to be the shortest.
-/

namespace OwnershipLog

/-- The name of the table of bindings. -/
def bindings : String := "kv"

/-- A schema in which nothing is asked by a trigger. -/
def Schema.setting (schema : Schema) : Setting := ⟨schema, [], [], .null, false, false⟩

/-- The source that is the table of bindings. -/
def bindingSource : Joined := .mk (.table bindings none) false false none []

/-- The query for one row, whatever it holds. -/
def anyBinding : Selection :=
  .ordered (.select false [.expr (.whole "1") none] [bindingSource] none [] none) []
    (some (.whole "1")) none

/-- The query for the value under a key. -/
def bindingQuery : Selection :=
  .select false [.expr (.column none "value" false) none] [bindingSource]
    (some (.binary .eq (.column none "key" false) .parameter)) [] none

namespace Paging

/-- Make sure that there is a root. -/
def demandRoot (root : Nat) : Paging Unit := do if root = 0 then throw .corrupt

/-- Make sure that an index can be ordered. -/
def demandOrder (index : Index) : Paging Unit := do if index.isUnordered then throw .refused

/-- Find out whether the table of bindings can be read. -/
def probe (schema : Schema) : Paging Unit := do
  let s := schema.setting
  let _ ← orRefused (s.columnsOf depthBound [] anyBinding)
  let table ← orRefused (schema.table? bindings)
  if table.isView then
    let _ ← rowsOf depthBound s [] anyBinding
  else match table.scanned [] with
    | some index =>
      demandOrder index
      let _ ← first (Cursor.unplaced index.root false)
    | none =>
      let _ ← first table.cursor

/-- The value of a column in the row of a table under a cursor. -/
def columnAt (s : Setting) (table : Table) (c : Cursor) (i : Nat) : Paging Value := do
  if (table.column i).isVirtual then
    let (_, values) ← tableRow depthBound s table c
    return values.getD i .null
  else storedColumn s.schema.encoding table c i

/-- The value of a column in the entry of an index under a cursor. -/
def columnIn (s : Setting) (table : Table) (index : Index) (c : Cursor) (i : Nat) :
    Paging Value := do
  if table.rowidColumn = some i then return .integer (← rowKeyAt c)
  let column := table.column i
  match index.all.findIdx? (·.field.column? = some i) with
  | some place => return column.shown (← field c place (column.missing s.schema.encoding))
  | none => throw .corrupt

/-- The row of a table that an entry of an index is for. If rows have numbers, there must be one. -/
def rowFor (s : Setting) (table : Table) (index : Index) (c : Cursor) :
    Paging (Option Cursor) := do
  match table.withoutRowid, table.primaryKey? with
  | true, some primary =>
    let columns := primary.keys.filterMap (·.field.column?)
    let values ← columns.mapM (columnIn s table index c)
    let target : Paging.Target := ⟨primary.order s.schema.encoding, values, .eq⟩
    let (row, place, _) ← holding c.pages (seekRecord table.cursor target)
    return if place = .eq then some row else none
  | _, _ =>
    let key ← rowKeyAt c
    let (row, place) ← holding c.pages (seekKey table.cursor key false)
    if place ≠ .eq then throw .corrupt
    return some row

/-- Whether the entry under a cursor comes after a key. What cannot be read does not. -/
def isPast (order : Order) (c : Cursor) (key : Value) : Paging Bool := do
  let length := (← shapeAt c).payload
  if length = 0 || 2 ^ 31 ≤ length then throw .corrupt
  let record ← payloadHead c length
  return match order.compare record 0 length .eq [key] with
    | .found .gt _ => true
    | _ => false

/-- The value in the row of the entry under a cursor or, if there is no such row, in the first row
from the next entry on, as long as entries have a key; at most `fuel` entries are passed over. -/
def firstWithKey (s : Setting) (table : Table) (index : Index) (value : Nat) (key : Value)
    (covered : Bool) : (fuel : Nat) → Cursor → Paging (Option Value)
  | 0, _ => throw .corrupt
  | fuel + 1, c => do
    if !c.valid then return none
    if covered then return some (← columnIn s table index c value)
    match ← rowFor s table index c with
    | some row => return some (← columnAt s table row value)
    | none =>
      if index.unique && index.keys.length = 1 then return none
      let c ← next c
      if !c.valid then return none
      if ← isPast (index.order s.schema.encoding) c key then return none
      firstWithKey s table index value key covered fuel c

/-- The first cursor from one on whose key is a value, if there is one; at most `fuel` are tried. -/
def firstAmong (key : Value) (encoding : TextEncoding) (column : Cursor → Paging Value) :
    (fuel : Nat) → Cursor → Paging (Option Cursor)
  | 0, _ => throw .corrupt
  | fuel + 1, c => do
    if !c.valid then return none
    let v ← column c
    if !v.isNull && v.compare .binary encoding key = .eq then return some c
    firstAmong key encoding column fuel (← next c)

/-- More entries than a database of its size can have. -/
def entryBound : Paging Nat := do
  let image ← get
  return (image.count + 1) * image.usable

/-- The value under a key; none if there is no row with it. -/
def valueOf? (schema : Schema) (key : Value) : Paging (Option Value) := do
  let s := { schema.setting with parameter := key }
  let _ ← orRefused (s.columnsOf depthBound [] bindingQuery)
  let table ← orRefused (schema.table? bindings)
  match table.column? "key", table.column? "value" with
  | some keyed, some value =>
    match table.access keyed [keyed, value] with
    | .number =>
      demandRoot table.root
      return none
    | .index index =>
      demandOrder index
      let covered := table.covers index [keyed, value]
      if !covered then demandRoot table.root
      let start := Cursor.unplaced index.root false
      let order := index.order schema.encoding
      let (c, place, seen) ← seekRecord start ⟨order, [key], .gt⟩
      if !seen then return none
      let c ← if place = .lt then next c else pure c
      firstWithKey s table index value key covered (← entryBound) c
    | .scan (some index) =>
      demandOrder index
      let c ← first (Cursor.unplaced index.root false)
      match ← firstAmong key schema.encoding (columnIn s table index · keyed) (← entryBound) c with
      | some c => return some (← columnIn s table index c value)
      | none => return none
    | .scan none =>
      let c ← first table.cursor
      match ← firstAmong key schema.encoding (columnAt s table · keyed) (← entryBound) c with
      | some c => return some (← columnAt s table c value)
      | none => return none
  | _, _ =>
    let rows ← rowsOf depthBound s [] bindingQuery
    return rows.head?.bind List.head?

end Paging

end OwnershipLog
