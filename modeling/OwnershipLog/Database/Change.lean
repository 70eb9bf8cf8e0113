import OwnershipLog.Database.Balance

/-!
# Changing a tree

`insert` puts an entry next to where a search has ended, or in place of the entry
found there; `delete` takes one out. What an entry keeps elsewhere is laid out in
fresh pages, and listed as spare when the entry goes.
-/

namespace OwnershipLog

namespace Paging

/-- Lay the rest of a record out over fresh pages, each naming the next: the first of them. `near`
is the page taken before, if any. -/
def layOutRest (held : List Nat) : (fuel near : Nat) → (rest : Block) → Paging Nat
  | 0, _, _ => throw .corrupt
  | fuel + 1, near, rest => do
    if rest.isEmpty then return 0
    let n ← holding held (fresh near)
    let room := (← get).usable - 4
    let next ← layOutRest (n :: held) fuel n (Block.part rest room (rest.size - room))
    let data := Block.setWord (← page n) 0 next
    write n (Block.overlay data 4 (Block.part rest 0 (min room rest.size)))
    return n

/-- An entry of a node with a record. -/
def entryFor (held : List Nat) (kind : NodeKind) (key : Int) (record : Block) : Paging Block := do
  let usable := (← get).usable
  let header := Block.ofBytes (List.replicate kind.childWidth 0 ++ varintBytes record.size ++
    (if kind.keyed then varintBytes (unsigned64 key) else []))
  let inside := kind.inside usable record.size
  if inside = record.size then
    let cell := header ++ record
    return Block.resize cell (max 4 cell.size)
  else
    let rest := Block.part record inside (record.size - inside)
    let n ← layOutRest held (rest.size + 1) 0 rest
    return header ++ Block.part record 0 inside ++ Block.ofBytes (bigEndian 4 n)

/-- List as spare the `count` pages of a chain that begins with page `n`. -/
def freeChain (held : List Nat) : (count n : Nat) → Paging Unit
  | 0, _ => return
  | count + 1, n => do
    if n < 2 || (← get).count < n then throw .corrupt
    let next := Block.word (← page n) 0
    if held.contains n || (← get).held.contains n then throw .corrupt
    Paging.free n
    freeChain held count next

/-- List as spare the pages on which an entry goes on. -/
def clear (c : Cursor) (here : Node) (i : Nat) : Paging Unit := do
  let shape := here.shape i
  if shape.overflows then
    let stop := here.entry i + shape.size
    if here.data.size < stop then throw .corrupt
    let room := here.usable - 4
    freeChain c.pages ((shape.payload - shape.inside + room - 1) / room)
      (Block.word here.data (stop - 4))

/-- Put a rest of a record in place of the one in a chain that begins with page `n`. -/
def overwriteRest (held : List Nat) : (fuel n : Nat) → (rest : Block) → Paging Unit
  | 0, _, _ => throw .corrupt
  | fuel + 1, n, rest => do
    let data ← page n
    if held.contains n || (← get).held.contains n then throw .corrupt
    let room := (← get).usable - 4
    write n (Block.overlay data 4 (Block.part rest 0 (min room rest.size)))
    if room < rest.size then
      overwriteRest held fuel (Block.word data 0) (Block.part rest room (rest.size - room))

/-- Put a record in place of one of the same length. -/
def overwrite (c : Cursor) (here : Node) (record : Block) : Paging Unit := do
  let shape := here.shape c.index
  let start := here.entry c.index + shape.start
  if here.data.size < start + shape.inside || start < here.table then throw .corrupt
  save (here.withData (Block.overlay here.data start (Block.part record 0 shape.inside)))
  if shape.overflows then
    overwriteRest c.pages (record.size + 1) (Block.word here.data (start + shape.inside))
      (Block.part record shape.inside (record.size - shape.inside))

/-- How many rounds of balance a tree can take. -/
def balanceRounds : Nat := 2 * Cursor.maxHeight + 2

/-- Put an entry next to where a search has ended, in place of the entry there if that is the one
looked for. In a table the key is the number `key`. -/
def insert (c : Cursor) (found : Ordering) (key : Int) (record : Block) : Paging Cursor := do
  let here ← nodeAt c
  if found = .eq && !c.keyed && (here.shape c.index).payload = record.size then
    overwrite c here record
    return c
  let _ ← freeOn here
  let cell ← entryFor c.pages here.kind key record
  let here ← nodeAt c
  if found = .eq then
    let i := c.index
    if here.count ≤ i then throw .corrupt
    touch here.number
    let old := here.shape i
    let place := here.entry i
    let cell := if here.kind.leaf then cell else Block.overlay cell 0 (Block.part here.data place 4)
    clear c here i
    let here ← nodeAt c
    if old.size = cell.size && !old.overflows then
      if place < here.base + 10 || here.data.size < place + cell.size then throw .corrupt
      save (here.withData (Block.overlay here.data place cell))
      return c
    let here ← dropAt here i old.size
    let _ ← Paging.place here i cell
    settle c
  else
    let c := if found = .lt && 0 < here.count then c.placed (c.index + 1) else c
    let _ ← Paging.place here c.index cell
    settle c
where
  /-- Balance the tree if the entry was spilled. -/
  settle (c : Cursor) : Paging Cursor := do
    if (← spilledOn c.here).isEmpty then return { c with valid := true }
    else return { (← balance balanceRounds c) with valid := false }

/-- Take the entry under the cursor out of the tree. -/
def delete (c : Cursor) : Paging Cursor := do
  if !c.valid then throw .corrupt
  let here ← nodeAt c
  let i := c.index
  if here.count ≤ i then throw .corrupt
  let _ ← freeOn here
  if here.entry i < here.tableEnd then throw .corrupt
  let low ← if here.kind.leaf then pure c else previousBelow c here
  touch here.number
  let size := (here.shape i).size
  clear low here i
  let here ← node here.number
  let here ← dropAt here i size
  if !here.kind.leaf then
    let leaf ← nodeAt low
    let _ ← freeOn leaf
    let below := (low.path.getD (low.path.length - c.path.length - 1) (0, 0)).1
    let j := leaf.count - 1
    let place := leaf.entry j
    if place < 4 then throw .corrupt
    let size := (leaf.shape j).size
    touch leaf.number
    let cell := Block.ofBytes (bigEndian 4 below) ++ Block.part leaf.data place size
    let _ ← Paging.place here i cell
    let leaf ← nodeAt low
    let _ ← dropAt leaf j size
  let leaf ← nodeAt low
  let free ← freeOn leaf
  let low ← if free * 3 ≤ leaf.usable * 2 then pure low else balance balanceRounds low
  if c.path.length < low.path.length then
    let _ ← balance balanceRounds
      { low with path := low.path.drop (low.path.length - c.path.length) }
  let (c, _) ← toRoot c
  return { c with valid := false }

end Paging

end OwnershipLog
