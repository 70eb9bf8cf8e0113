import OwnershipLog.Database.Node

/-!
# Cursors

A cursor is a path of nodes from the root of a tree down to the node at hand, with
a place in each. It stands on an entry, or past all entries if there is none to
stand on. `next` and `previous` walk through the entries in their order, and
`payload` reads the record under the cursor, wherever it goes on.
-/

namespace OwnershipLog

/-- A place in a tree. -/
structure Cursor where
  root : Nat
  /-- Whether the keys of the tree are numbers. -/
  keyed : Bool
  /-- The pages from the one at hand up to the root, and the place in each. -/
  path : List (Nat × Nat)
  /-- Whether it stands on an entry. -/
  valid : Bool
deriving DecidableEq, Repr

namespace Cursor

/-- The most levels of a tree. -/
def maxHeight : Nat := 20

/-- A cursor that has not been placed. -/
def unplaced (root : Nat) (keyed : Bool) : Cursor := ⟨root, keyed, [], false⟩

/-- The pages that the cursor is on. -/
def pages (c : Cursor) : List Nat := c.path.map (·.1)

/-- The page at hand. -/
def here (c : Cursor) : Nat := (c.path.headD (c.root, 0)).1

/-- The place in the page at hand. -/
def index (c : Cursor) : Nat := (c.path.headD (c.root, 0)).2

/-- The cursor at another place of the page at hand. -/
def placed (c : Cursor) (i : Nat) : Cursor :=
  match c.path with
  | (n, _) :: above => { c with path := (n, i) :: above }
  | [] => c

/-- The cursor in the node above. -/
def up (c : Cursor) : Cursor := { c with path := c.path.tail }

end Cursor

namespace Paging

/-- The node at hand. -/
def nodeAt (c : Cursor) : Paging Node := node c.here

/-- Go down to a page below. It must have entries, and keys of the same kind. -/
def descend (c : Cursor) (n : Nat) : Paging (Cursor × Node) := do
  if Cursor.maxHeight ≤ c.path.length then throw .corrupt
  let below ← node n
  if below.count = 0 || below.kind.keyed != c.keyed then throw .corrupt
  return ({ c with path := (n, 0) :: c.path, valid := true }, below)

/-- Go to the root, or, where the root has nothing but a page below it, to that page. -/
def toRoot (c : Cursor) : Paging (Cursor × Node) := do
  if c.root = 0 then throw .corrupt
  let top ← node c.root
  if top.kind.keyed != c.keyed then throw .corrupt
  let c := { c with path := [(c.root, 0)], valid := 0 < top.count }
  if 0 < top.count || top.kind.leaf then return (c, top)
  else if c.root ≠ 1 then throw .corrupt
  else descend c (top.child 0)

/-- Go down to the first entry below the cursor. -/
def toFirstBelow : (fuel : Nat) → Cursor → Node → Paging Cursor
  | 0, _, _ => throw .corrupt
  | fuel + 1, c, here => do
    if here.kind.leaf then return c
    let (c, here) ← descend c (here.child c.index)
    toFirstBelow fuel c here

/-- Go down to the last entry below the page at hand. -/
def toLastBelow : (fuel : Nat) → Cursor → Node → Paging Cursor
  | 0, _, _ => throw .corrupt
  | fuel + 1, c, here => do
    if here.kind.leaf then return c.placed (here.count - 1)
    let (c, here) ← descend (c.placed here.count) (here.child here.count)
    toLastBelow fuel c here

/-- Go to the first entry. -/
def first (c : Cursor) : Paging Cursor := do
  let (c, here) ← toRoot c
  if c.valid then toFirstBelow (Cursor.maxHeight + 1) c here else return c

/-- Go to the last entry. -/
def last (c : Cursor) : Paging Cursor := do
  let (c, here) ← toRoot c
  if c.valid then toLastBelow (Cursor.maxHeight + 1) c here else return c

/-- Go to the next entry. -/
def nextWithin : (fuel : Nat) → Cursor → Paging Cursor
  | 0, _ => throw .corrupt
  | fuel + 1, c => do
    let here ← nodeAt c
    let i := c.index + 1
    if i < here.count then
      if here.kind.leaf then return c.placed i else toFirstBelow (Cursor.maxHeight + 1) (c.placed i) here
    else if !here.kind.leaf then
      let (c, here) ← descend (c.placed i) (here.child here.count)
      toFirstBelow (Cursor.maxHeight + 1) c here
    else ascend fuel c
where
  /-- Go up to the nearest node with a further entry. In a table that entry is no row. -/
  ascend (fuel : Nat) (c : Cursor) : Paging Cursor :=
    match fuel with
    | 0 => throw .corrupt
    | fuel + 1 => do
      if c.path.length ≤ 1 then return { c with valid := false }
      let c := c.up
      let here ← nodeAt c
      if here.count ≤ c.index then ascend fuel c
      else if c.keyed then nextWithin fuel c
      else return c

/-- Go to the next entry. -/
def next (c : Cursor) : Paging Cursor :=
  if c.valid then nextWithin (3 * Cursor.maxHeight) c else return c

/-- Go up until there is an entry before the cursor. -/
def upToEarlier : (fuel : Nat) → Cursor → Cursor
  | 0, c => c
  | fuel + 1, c =>
    if c.index = 0 then
      if c.path.length ≤ 1 then { c with valid := false } else upToEarlier fuel c.up
    else c.placed (c.index - 1)

/-- Go to the last entry below the cursor's, which is the one before it. -/
def previousBelow (c : Cursor) (here : Node) : Paging Cursor := do
  let (c, here) ← descend c (here.child c.index)
  toLastBelow (Cursor.maxHeight + 1) c here

/-- The shape of the entry under the cursor. -/
def shapeAt (c : Cursor) : Paging Shape := do return (← nodeAt c).shape c.index

/-- The key of the row under the cursor. -/
def keyAt (c : Cursor) : Paging Int := do return (← shapeAt c).key

/-- Whether a page can be read from the file itself: nothing newer than the file is known of it, and
this transaction has written nothing. -/
def isInFile (n : Nat) : Paging Bool := do
  let image ← get
  return !image.dirty && !image.logged.contains n

/-- Read `amount` more bytes of a record from the chain of pages that begins with page `n`, `skip`
bytes further on, after those already `read`. What has been read far enough is read from the file
itself if it is there, and the file must have it. -/
def chained : (fuel n skip amount : Nat) → (read : Block) → Paging Block
  | _, _, _, 0, read => return read
  | 0, _, _, _ + 1, _ => throw .corrupt
  | fuel + 1, n, skip, amount + 1, read => do
    let image ← get
    let room := image.usable - 4
    if n = 0 || image.count < n then throw .corrupt
    let data ← page n
    let next := Block.word data 0
    if room ≤ skip then chained fuel next (skip - room) (amount + 1) read
    else
      let taken := min (amount + 1) (room - skip)
      if skip = 0 && 4 ≤ read.size && (← isInFile n) &&
          image.length < (n - 1) * image.pageSize + 4 + taken then
        throw .fileEnds
      chained fuel next 0 (amount + 1 - taken) (read ++ Block.part data (4 + skip) taken)

/-- `amount` bytes of the record under the cursor, from byte `offset` on. -/
def payload (c : Cursor) (offset amount : Nat) : Paging Block := do
  let here ← nodeAt c
  if here.count ≤ c.index then throw .corrupt
  let place := here.entry c.index
  let shape := here.shape c.index
  let start := place + shape.start
  if here.usable < start + shape.inside then throw .corrupt
  let inside := min amount (shape.inside - offset)
  let read := Block.part here.data (start + offset) inside
  if inside = amount then return read
  else
    let image ← get
    chained (image.count + shape.payload / (image.usable - 4) + 2)
      (Block.word here.data (start + shape.inside)) (offset - shape.inside) (amount - inside) read

/-- What can be seen of a record without leaving its page: the bytes of the page from the record on,
and how many of them belong to it. -/
def visible (c : Cursor) : Paging (Block × Nat) := do
  let here ← nodeAt c
  let shape := here.shape c.index
  let start := here.entry c.index + shape.start
  let left := here.data.size - start
  return (Block.part here.data start left, min shape.inside left)

/-- `amount` bytes of the record under the cursor, from byte `offset` on, if a database of this size
can hold them. -/
def payloadPart (c : Cursor) (offset amount : Nat) : Paging Block := do
  let image ← get
  if image.pageSize * image.count < offset + amount then throw .corrupt
  payload c offset amount

/-- The beginning of the record under the cursor, `amount` bytes long. -/
def payloadHead (c : Cursor) (amount : Nat) : Paging Block := do
  let (seen, size) ← visible c
  if amount ≤ size then return Block.part seen 0 amount else payloadPart c 0 amount

end Paging

end OwnershipLog
