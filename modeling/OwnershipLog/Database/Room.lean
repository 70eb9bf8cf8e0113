import OwnershipLog.Database.Node

/-!
# Room on a page

Between the table of places and the entries of a node there is a gap, and among
the entries there may be free blocks, chained from the header, and fragments too
small to be one. `insert` and `drop` put an entry on a page and take one off it;
`packed` fills an empty page. All are refused where the page contradicts itself.
-/

namespace OwnershipLog

namespace Node

/-- The header's field for the fragments. -/
def fragments (node : Node) : Nat := Block.byte node.data (node.base + 7)

/-- Where the header names the first free block. -/
def firstFree (node : Node) : Nat := node.base + 1

/-- Look for a free block of at least `n` bytes, from the one on that is named at `link`. What is
left of it stays a free block, or becomes fragments if it is too small for that. None if the page
contradicts itself; otherwise the bytes of the page and the place found, if any. -/
def findRoom (node : Node) (n : Nat) : (fuel link : Nat) → Option (Option (Block × Nat))
  | 0, _ => none
  | fuel + 1, link =>
    let i := Block.pair node.data link
    if i ≤ link then if i = 0 then some none else none
    else if node.usable < i + n then if node.usable < i + 4 then none else some none
    else
      let size := Block.pair node.data (i + 2)
      if size < n then node.findRoom n fuel i
      else if size < n + 4 then
        if 57 < node.fragments then some none
        else
          let data := Block.setPair node.data link (Block.pair node.data i)
          some (some (Block.setByte data (node.base + 7) (node.fragments + (size - n)), i))
      else if node.usable < i + size then none
      else some (some (Block.setPair node.data (i + 2) (size - n), i + (size - n)))

/-- The page with its entries moved to its end, one after the other, and their new beginning. -/
def movedToEnd (node : Node) : (left i : Nat) → (data : Block) → (top : Nat) →
    Option (Block × Nat)
  | 0, _, data, top => some (data, top)
  | left + 1, i, data, top =>
    let place := node.slot i
    let size := (node.kind.shape node.usable node.data place).size
    if node.usable - 4 < place || node.usable < place + size || top < size ||
        top - size < Block.pair node.data (node.base + 5) then none
    else
      let top := top - size
      let data := Block.setPair data (node.table + 2 * i) top
      node.movedToEnd left (i + 1)
        (Block.overlay data top (Block.part node.data place size)) top

/-- The places in the table, `left` of them from entry `i` on, each moved by what `shift` says. -/
def shifted (node : Node) (shift : Nat → Nat) : (left i : Nat) → (data : Block) → Block
  | 0, _, data => data
  | left + 1, i, data =>
    let place := node.slot i
    node.shifted shift left (i + 1)
      (Block.setPair data (node.table + 2 * i) (place + shift place))

/-- The page without its one or two free blocks, the entries before them moved up, and where the
entries then begin. None if the page contradicts itself, `some none` if it has more blocks. -/
def closedUp (node : Node) : Option (Option (Block × Nat)) :=
  let first := Block.pair node.data node.firstFree
  let second := Block.pair node.data first
  let top := Block.pair node.data (node.base + 5)
  let size := Block.pair node.data (first + 2)
  let size' := Block.pair node.data (second + 2)
  if node.usable - 4 < first then none
  else if first = 0 then some none
  else if node.usable - 4 < second then none
  else if second ≠ 0 && Block.pair node.data second ≠ 0 then some none
  else if first ≤ top then none
  else if second = 0 then
    if node.usable < first + size then none
    else
      let data := Block.move node.data (top + size) top (first - top)
      some (some (node.shifted (fun i => if i < first then size else 0) node.count 0 data,
        top + size))
  else if second < first + size || node.usable < second + size' then none
  else
    let data := Block.move node.data (first + size + size') (first + size)
      (second - (first + size))
    let data := Block.move data (top + size + size') top (first - top)
    let shift (i : Nat) : Nat := if i < first then size + size' else if i < second then size' else 0
    some (some (node.shifted shift node.count 0 data, top + size + size'))

/-- The page with all its `free` bytes in the gap. If no more than `spare` of them are fragments,
those may stay. -/
def defragmented (node : Node) (free : Nat) (spare : Int) : Option Block := do
  let quick ← if (node.fragments : Int) ≤ spare then node.closedUp else some none
  let (data, top) ← match quick with
    | some found => some found
    | none => do
      let (data, top) ← node.movedToEnd node.count 0 node.data node.usable
      some (Block.setByte data (node.base + 7) 0, top)
  if Block.byte data (node.base + 7) + top ≠ node.tableEnd + free then none
  else
    let data := Block.setPair data (node.base + 5) top
    let data := Block.clear data node.firstFree 2
    some (Block.clear data node.tableEnd (top - node.tableEnd))

/-- Room for `n` bytes on a page that has it, and its place. -/
def allocate (node : Node) (free n : Nat) : Option (Block × Nat) := do
  let gap := node.tableEnd
  let field := Block.pair node.data (node.base + 5)
  let top ←
    if field < gap then if field = 0 && node.usable = 65536 then some 65536 else none
    else if node.usable < field then none
    else some field
  let found ←
    if Block.pair node.data node.firstFree ≠ 0 && gap + 2 ≤ top then
      node.findRoom n node.data.size node.firstFree
    else some none
  match found with
  | some (data, place) => if place ≤ gap then none else some (data, place)
  | none =>
    let data ←
      if top < gap + 2 + n then
        node.defragmented free (min 4 ((free : Int) - ((2 + n : Nat) : Int)))
      else some node.data
    let field := Block.pair data (node.base + 5)
    let top := if field = 0 then 65536 else field
    if top < n then none
    else some (Block.setPair data (node.base + 5) (top - n), top - n)

/-- The last place before `i` that names a free block, from `link` on, and the block that it names;
none if the blocks do not ascend. -/
def linkBefore (node : Node) (i : Nat) : (fuel link : Nat) → Option (Nat × Nat)
  | 0, _ => none
  | fuel + 1, link =>
    let next := Block.pair node.data link
    if i ≤ next then some (link, next)
    else if next ≤ link then if next = 0 then some (link, 0) else none
    else node.linkBefore i fuel next

/-- The page with a free block from `start` to `stop` that is named at `link` and names `next`. At
the beginning of the entries it becomes part of the gap. -/
def freed (node : Node) (data : Block) (link next start stop : Nat) : Option Block :=
  let top := Block.pair data (node.base + 5)
  if start ≤ top then
    if start < top || link ≠ node.firstFree then none
    else some (Block.setPair (Block.setPair data node.firstFree next) (node.base + 5) stop)
  else
    let data := Block.setPair data link start
    some (Block.setPair (Block.setPair data start next) (start + 2) (stop - start))

/-- The page with the `size` bytes at `start` free. Free blocks that they touch are joined to
them. -/
def released (node : Node) (start size : Nat) : Option Block := do
  let data := node.data
  let stop := start + size
  let header := node.firstFree
  if Block.pair data header = 0 then
    node.freed data header 0 start stop
  else
    let (link, next) ← node.linkBefore start data.size header
    if node.usable - 4 < next then none
    else
      let (lost, stop', next') ←
        if next ≠ 0 && next ≤ stop + 3 then
          let stop' := next + Block.pair data (next + 2)
          if next < stop || node.usable < stop' then none
          else some (next - stop, stop', Block.pair data next)
        else some (0, stop, next)
      let linkEnd := link + Block.pair data (link + 2)
      let (lost, start') ←
        if header < link && start ≤ linkEnd + 3 then
          if start < linkEnd then none else some (lost + (start - linkEnd), link)
        else some (lost, start)
      if node.fragments < lost then none
      else
        node.freed (Block.setByte data (node.base + 7) (node.fragments - lost)) link next'
          start' stop'

/-- The node without the entry at a place, which takes `size` bytes. -/
def drop (node : Node) (i size : Nat) : Option Node := do
  let place := node.slot i
  if node.usable < place + size then none
  else
    let data ← node.released place size
    let count := node.count - 1
    if count = 0 then
      let data := Block.clear data node.firstFree 4
      let data := Block.setByte data (node.base + 7) 0
      some { node with data := Block.setPair data (node.base + 5) node.usable, count }
    else
      let slot := node.table + 2 * i
      let data := Block.move data slot (slot + 2) (2 * (count - i))
      some { node with data := Block.setPair data (node.base + 3) count, count }

/-- The node with one more entry at a place, if its `free` bytes have room for it. -/
def insert (node : Node) (free i : Nat) (cell : Block) : Option Node := do
  let (data, place) ← node.allocate free cell.size
  let data := Block.overlay data place cell
  let slot := node.table + 2 * i
  let data := Block.move data (slot + 2) slot (2 * (node.count - i))
  let data := Block.setPair data slot place
  some { node with
    data := Block.setPair data (node.base + 3) (node.count + 1)
    count := node.count + 1 }

/-- The page with entries laid out from its end, from entry `i` on, and where they begin. -/
def laidOut (node : Node) : (cells : List Block) → (i : Nat) → (data : Block) → (top : Nat) →
    Option (Block × Nat)
  | [], _, data, top => some (data, top)
  | cell :: cells, i, data, top =>
    let slot := node.table + 2 * i
    if top < cell.size || top - cell.size < slot + 2 then none
    else
      let top := top - cell.size
      node.laidOut cells (i + 1) (Block.overlay (Block.setPair data slot top) top cell) top

/-- The node with these entries instead of its own. -/
def packed (node : Node) (cells : List Block) : Option Node := do
  let (data, top) ← node.laidOut cells 0 node.data node.usable
  let data := Block.setPair data node.firstFree 0
  let data := Block.setPair data (node.base + 3) cells.length
  let data := Block.setPair data (node.base + 5) top
  some { node with data := Block.setByte data (node.base + 7) 0, count := cells.length }

end Node

end OwnershipLog
