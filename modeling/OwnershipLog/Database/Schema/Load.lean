import OwnershipLog.Database.Field
import OwnershipLog.Database.Schema.Declare

/-!
# Loading a schema

The first page of a database begins the table of its declarations. Each row says
what is declared, under what name, for what table, where its root is, and in what
words. `Schema.load` reads the rows in their order. A row without words is for an
index that a table has by itself, and only says where its root is.
-/

namespace OwnershipLog

namespace Value

/-- A text that ends where a zero byte is. -/
def spelledToZero (encoding : TextEncoding) (v : Value) : String :=
  String.ofList ((v.spelled encoding).toList.takeWhile (· ≠ Char.ofNat 0))

end Value

/-- The page that a text names. -/
def pageOf? (text : String) : Option Nat :=
  let cs := text.toList
  let n := Numeral.ofDigits (cs.map Char.toNat)
  if !cs.isEmpty && cs.all Token.isDigit && n ≤ 2 ^ 32 then some n else none

/-- A row of the table of declarations; what is not said is none. -/
structure SchemaRow where
  kind : Option String
  name : Option String
  owner : Option String
  root : Option String
  words : Option String

namespace SchemaRow

/-- Whether a declaration is the one that the row is said to be. -/
def isFor (row : SchemaRow) (schema : Schema) : Declaration → Bool
  | .table name _ _ _ _ => hasNames "table" name name
  | .external name => hasNames "table" name name
  | .view name _ _ => hasNames "view" name name
  | .index name owner _ _ _ => hasNames "index" name (ownerOf owner)
  | .trigger name owner _ _ _ _ => hasNames "trigger" name (ownerOf owner)
where
  /-- The name that a table goes by. -/
  ownerOf (name : String) : String := ((schema.table? name).map (·.name)).getD name
  /-- Whether the row is of a kind, a name and a table. -/
  hasNames (kind name owner : String) : Bool :=
    row.kind.map Token.lowered = some kind &&
      row.name.map Token.lowered = some (Token.lowered name) &&
      row.owner.map Token.lowered = some (Token.lowered owner)

/-- The schema after one more row, in a database with `count` pages. -/
def apply (row : SchemaRow) (count : Nat) (schema : Schema) : Option Schema := do
  let root ← row.root
  let words := row.words.getD ""
  if Token.lowered (String.ofList (words.toList.take 2)) = "cr" then
    let page ← pageOf? root
    if count < page then none
    let declaration ← Declaration.ofText? words
    if !row.isFor schema declaration then none
    schema.declare page declaration
  else
    if words ≠ "" then none
    let (table, index) ← schema.index? (← row.name)
    let page ← pageOf? root
    if page < 2 || count < page then none
    if table.indexes.any fun other => other.name ≠ index.name && other.root = page then none
    return schema.withTable { table with
      indexes := table.indexes.map fun other =>
        if other.name = index.name then { other with root := page } else other }

end SchemaRow

namespace Paging

/-- The row of the table of declarations under a cursor. -/
def schemaRow (c : Cursor) : Paging SchemaRow := do
  let encoding := (← get).encoding
  let text (i : Nat) : Paging (Option String) := do
    let v ← field c i .null
    return if v.isNull then none else some (v.spelledToZero encoding)
  return {
    kind := ← text 0
    name := ← text 1
    owner := ← text 2
    root := ← text 3
    words := ← text 4 }

/-- More rows than a database of its size can have. -/
def rowBound : Paging Nat := do
  let image ← get
  return (image.count + 1) * image.usable

/-- Take in the rows from a cursor on; at most `fuel`. -/
def schemaRows : (fuel : Nat) → Cursor → Schema → Paging Schema
  | 0, _, _ => throw .corrupt
  | fuel + 1, c, schema => do
    if !c.valid then return schema
    let row ← schemaRow c
    match row.apply (← get).count schema with
    | some schema => schemaRows fuel (← next c) schema
    | none => throw .refused

/-- The schema of the database. -/
def schema : Paging Schema := do
  let image ← get
  if 4 < image.format then throw .refused
  let c ← first (Cursor.unplaced 1 true)
  schemaRows (← rowBound) c ⟨[], [], image.encoding, image.format⟩

end Paging

end OwnershipLog
