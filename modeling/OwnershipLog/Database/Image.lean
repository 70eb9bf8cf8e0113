import OwnershipLog.Database.Value
import OwnershipLog.Text.Utf8
import Std.Data.HashMap
import Std.Data.HashSet

/-!
# Images of a database file

A database file is cut into pages of one size, numbered from one; its first
hundred bytes say how. An `Image` is what one transaction sees of them. What reads
and changes an image is a `Paging` action, which may end in a `Fault`; the changes
that it made before that stay in the image, and whoever ran it decides what
becomes of them.
-/

namespace OwnershipLog

/-- Why an action on a database does not succeed. -/
inductive Fault where
  /-- The pages contradict themselves. -/
  | corrupt
  /-- An index has no entry for a row of its table. -/
  | entryMissing
  /-- The file ends before the bytes that were asked for. -/
  | fileEnds
  /-- The database does not allow it. -/
  | refused
  /-- The statement stops, and what it has done so far stays. -/
  | stopped
  /-- The statement asks for the whole transaction to be undone. -/
  | undone
  /-- The statement asks for the row at hand to be left as it is. -/
  | skipped
deriving DecidableEq, Repr

/-- The pages of a database as one transaction sees them. -/
structure Image where
  /-- The pages that have been written, or are in the file; all others are zero. -/
  pages : Array Block
  pageSize : Nat
  /-- How many bytes of each page hold data; those after them are kept for other uses. -/
  usable : Nat
  /-- How many pages belong to the database. -/
  count : Nat
  /-- How many bytes the file has. -/
  length : Nat
  /-- The pages whose newest state is not in the file. -/
  logged : Std.HashSet Nat
  /-- Whether this transaction has written a page. -/
  dirty : Bool
  /-- How many references to rows that are not there the transaction must still mend. -/
  owed : Int
  /-- How many of them the statement at hand must mend. -/
  due : Int
  /-- The pages that are in use while the database is being changed. -/
  held : List Nat
  /-- Entries that found no room on their page: the page, the place among its entries, the entry. -/
  spilled : List (Nat × Nat × Block)
  /-- How many bytes are thought to be free on the pages that have been asked for room. -/
  counted : Std.HashMap Nat Nat

/-- Reads and changes an image, or ends in a fault. -/
abbrev Paging := EStateM Fault Image

namespace Image

/-- How long the header is. -/
def headerSize : Nat := 100

/-- The bytes that every database file begins with. -/
def magic : Bytes := utf8 "SQLite format 3" ++ [0]

/-- The sizes that pages can have: the powers of two from 512 to 65536. -/
def pageSizes : List Nat := (List.range 8).map (512 * 2 ^ ·)

/-- The pages of a file, `left` of them from page `n` on. -/
def cut (file : Block) (pageSize : Nat) : (left n : Nat) → Array Block → Array Block
  | 0, _, pages => pages
  | left + 1, n, pages => cut file pageSize left (n + 1)
      (pages.push (Block.part file (n * pageSize) pageSize))

/-- The database that a file is. The count of pages in the header is believed only if it is not
zero and was written at the last change of the file, which is counted too. -/
def ofBytes? (bytes : Bytes) : Option Image :=
  let file := Block.ofBytes bytes
  let byte := Block.byte file
  let word := Block.word file
  let pageSize := byte 17 * 65536 + byte 16 * 256
  let usable := pageSize - byte 20
  let present := (file.size + pageSize - 1) / pageSize
  let stale := word 28 = 0 ∨ word 24 ≠ word 92
  let count := if stale then present else word 28
  if bytes.take magic.length = magic ∧ byte 19 ≤ 2 ∧ byte 21 = 0x40 ∧ byte 22 = 0x20 ∧
      byte 23 = 0x20 ∧ pageSize ∈ pageSizes ∧ 480 ≤ usable ∧ count ≤ present then
    some {
      pages := cut file pageSize present 0 #[]
      pageSize, usable, count
      length := file.size
      logged := ∅
      dirty := false
      owed := 0
      due := 0
      held := [1]
      spilled := []
      counted := ∅ }
  else none

/-- The bytes of a page. -/
def page (image : Image) (n : Nat) : Block :=
  image.pages.getD (n - 1) (Block.zeros image.pageSize)

/-- The number in four bytes of the header. -/
def header (image : Image) (i : Nat) : Nat := Block.word (image.page 1) i

/-- Whether nothing may be written, as a file says that is written by rules that are not known. -/
def readOnly (image : Image) : Bool := 2 < Block.byte (image.page 1) 18

/-- Whether some pages are kept to say what the others are for. -/
def mapped (image : Image) : Bool := image.header 52 ≠ 0

/-- Whether a page is one of those that say what the others are for. -/
def isMap (image : Image) (n : Nat) : Bool :=
  image.mapped && 2 ≤ n && (n - 2) % (image.usable / 5 + 1) = 0

/-- How the database writes its texts. -/
def encoding (image : Image) : TextEncoding :=
  match image.header 56 % 4 with
  | 2 => .utf16Little
  | 3 => .utf16Big
  | _ => .utf8

/-- The version of the rules by which the schema is written, from 1 to 4. -/
def format (image : Image) : Nat := max 1 (image.header 44 % 256)

/-- The image with another state of a page. -/
def write (image : Image) (n : Nat) (data : Block) : Image :=
  let missing := n - image.pages.size
  let pages := if missing = 0 then image.pages
    else image.pages ++ Array.replicate missing (Block.zeros image.pageSize)
  { image with
    pages := pages.setIfInBounds (n - 1) data
    logged := image.logged.insert n
    dirty := true }

/-- The image as the next statement finds it. -/
def atRest (image : Image) : Image := { image with due := 0, held := [1], spilled := [] }

/-- The image as the next transaction finds it. -/
def settled (image : Image) : Image := { image.atRest with dirty := false, owed := 0 }

/-- The image when all that was written has reached the file. -/
def flushed (image : Image) : Image :=
  if image.logged.isEmpty then image
  else { image with logged := ∅, length := image.pages.size * image.pageSize }

end Image

namespace Paging

/-- The bytes of a page. -/
def page (n : Nat) : Paging Block := do
  if n = 0 then throw .corrupt
  return (← get).page n

/-- Put another state of a page. -/
def write (n : Nat) (data : Block) : Paging Unit := modify (·.write n data)

/-- Forget how many bytes are thought to be free on a page. -/
def uncount (n : Nat) : Paging Unit :=
  modify fun image => { image with counted := image.counted.erase n }

/-- Count a page as written. -/
def touch (n : Nat) : Paging Unit := do write n (← page n)

/-- The value in an option, or a fault if there is none. -/
def orCorrupt {α : Type} : Option α → Paging α
  | some a => return a
  | none => throw .corrupt

/-- Do something while more pages are in use. -/
def holding {α : Type} (pages : List Nat) (action : Paging α) : Paging α := do
  let before := (← get).held
  modify fun image => { image with held := pages ++ before }
  let a ← action
  modify fun image => { image with held := before }
  return a

/-- Put another number into four bytes of the header. -/
def setHeader (i v : Nat) : Paging Unit := do write 1 (Block.setWord (← page 1) i v)

end Paging

end OwnershipLog
