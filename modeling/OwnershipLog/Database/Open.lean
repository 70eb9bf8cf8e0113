import OwnershipLog.Database.Accept
import OwnershipLog.Database.Schema.Load

/-!
# Opening a database

A database file that is opened is first made to keep what is written in a log
beside it, which its header says. If it does not declare the table of bindings,
the table is created. Whatever else it holds is left alone.
-/

namespace OwnershipLog

namespace Paging

/-- The words that declare the table of bindings. -/
def bindingsDeclaration : String :=
  "CREATE TABLE kv (\n    key   BLOB PRIMARY KEY,\n    value BLOB NOT NULL\n)"

/-- Keep what is written in a log from now on. -/
def keepLog : Paging Unit := do
  let image ← get
  if Block.byte (image.page 1) 19 = 2 then return
  if image.readOnly then throw .refused
  beginWriting
  let data ← page 1
  write 1 (Block.setByte (Block.setByte data 18 2) 19 2)
  modify fun changed => { changed.settled with logged := image.logged }

/-- The root of a new tree. -/
def newRoot (keyed : Bool) : Paging Nat := do
  let n ← fresh 1
  let usable := (← get).usable
  write n (Node.emptyPage usable n ⟨true, keyed⟩ (← page n))
  return n

/-- Put a record after all rows of the table of declarations: its number. -/
def appendDeclaration (record : Block) : Paging Int := do
  let table := Schema.declarations
  let (n, last) ← freshKey table none
  let (c, place) ← match last with
    | some c => pure (c, Ordering.lt)
    | none => seekKey table.cursor n false
  let _ ← insert c place n record
  return n

/-- Create the table of bindings with the index of its keys. -/
def createBindings : Paging Unit := do
  let image ← get
  if image.readOnly then throw .refused
  beginWriting
  if image.header 44 = 0 then
    setHeader 44 4
    if image.header 56 = 0 then setHeader 56 1
  let image ← get
  let encoding := image.encoding
  let brief := 4 ≤ image.format
  let text (s : String) : Value := .ofSpelled encoding s
  let root ← newRoot true
  let n ← appendDeclaration (record brief (List.replicate 5 .null))
  let indexRoot ← newRoot false
  let _ ← appendDeclaration (record brief [text "index", text "sqlite_autoindex_kv_1",
    text bindings, .integer indexRoot, .null])
  let (c, place) ← seekKey Schema.declarations.cursor n false
  let _ ← insert c place n (record brief [text "table", text bindings, text bindings,
    .integer root, text bindingsDeclaration])
  setHeader 40 ((← get).header 40 + 1)

/-- Get a database ready for the log: its schema. -/
def ready : Paging Schema := do
  let found ← schema
  keepLog
  if (found.table? bindings).isSome then return found
  if (found.index? bindings).isSome then throw .refused
  createBindings
  modify Image.settled
  schema

end Paging

end OwnershipLog
