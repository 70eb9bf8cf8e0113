import OwnershipLog.Database.Cursor
import OwnershipLog.Database.Edit
import OwnershipLog.Database.Shares
import OwnershipLog.Database.Spare

/-!
# Balance

An entry that finds no room on its page is spilled: it is kept beside the pages
until `balance` has made room for it. Up to three neighbours share out their
entries anew, over as many pages as these need and as evenly as they allow; the
node above is told, and may spill in turn. A root that spills gets a new level
below it, and a root left with a single page below it takes that page's entries.
-/

namespace OwnershipLog

namespace Paging

/-- The entries of a page that found no room on it, with their places. -/
def spilledOn (n : Nat) : Paging (List (Nat × Block)) := do
  return (← get).spilled.filterMap fun (page, i, cell) => if page = n then some (i, cell) else none

/-- Drop the entries that found no room on a page. -/
def clearSpilled (n : Nat) : Paging Unit :=
  modify fun image => { image with spilled := image.spilled.filter (·.1 ≠ n) }

/-- Put an entry at a place of a node; it is spilled if there is no room for it. -/
def place (node : Node) (i : Nat) (cell : Block) : Paging Node := do
  let free ← freeOn node
  if !(← spilledOn node.number).isEmpty || free < cell.size + 2 then
    modify fun image => { image with spilled := image.spilled ++ [(node.number, i, cell)] }
    return node
  else
    let node ← orCorrupt (node.insert free i cell)
    saveWith node (free - (cell.size + 2))
    return node

/-- Take entry `i` of a node out of it, which takes `size` bytes. -/
def dropAt (node : Node) (i size : Nat) : Paging Node := do
  let free ← freeOn node
  let node ← orCorrupt (node.drop i size)
  saveWith node (if node.count = 0 then node.emptyRoom else free + size + 2)
  return node

/-- A node with the same entries on another page. -/
def copied (node : Node) (n : Nat) : Paging Node := do
  let top := Block.pair node.data (node.base + 5)
  let data := Block.overlay (← page n) top (Block.part node.data top (node.usable - top))
  let data := Block.overlay data (Node.baseOf n) (Block.part node.data node.base node.tableEnd)
  let copy ← orCorrupt (Node.ofPage? node.usable n data)
  saveWith copy (← orCorrupt copy.free?)
  return copy

/-- Give a root that spills a new level below it: the cursor there. -/
def deepen (c : Cursor) (root : Node) : Paging Cursor := do
  touch root.number
  let n ← holding c.pages (fresh root.number)
  let child ← copied root n
  modify fun image => { image with
    spilled := image.spilled.map fun (page, i, cell) =>
      (if page = root.number then n else page, i, cell) }
  let root := root.emptied { child.kind with leaf := false }
  saveWith (root.withData (Block.setWord root.data (root.base + 8) n)) root.emptyRoom
  return { c with path := [(n, 0), (root.number, 0)] }

/-- Move the entry that a last leaf spilled at its end to a new page after it. -/
def extend (c : Cursor) (here parent : Node) (cell : Block) : Paging Unit := do
  if here.count = 0 then throw .corrupt
  let n ← holding c.pages (fresh 0)
  let leaf : Node := ⟨n, ← page n, here.kind, 0, here.usable⟩
  let leaf ← orCorrupt ((leaf.emptied here.kind).packed [cell])
  saveWith leaf (leaf.usable - leaf.tableEnd - cell.size)
  let divider := Block.ofBytes
    (bigEndian 4 here.number ++ varintBytes (unsigned64 (here.shape (here.count - 1)).key))
  let parent ← place parent parent.count divider
  save (parent.withData (Block.setWord parent.data (parent.base + 8) n))

/-- Neighbours that share out their entries. -/
structure Siblings where
  /-- The node above, without the entries between the neighbours. -/
  parent : Node
  /-- The neighbours from left to right, with the bytes free on each. -/
  nodes : List (Node × Nat)
  /-- The entries between them. -/
  dividers : List Block

/-- Take up the neighbours left of those in `found`, `left` of them: page `n` is the rightmost one,
and entry `i` of the node above comes before it. -/
def takeUp (spilled : List (Nat × Block)) :
    (left i n : Nat) → (found : Siblings) → Paging Siblings
  | left, i, n, found => do
    let here ← node n
    let free ← freeOn here
    let found := { found with nodes := (here, free) :: found.nodes }
    match left with
    | 0 => return found
    | left + 1 =>
      let parent := found.parent
      match spilled.find? (·.1 = i) with
      | some (_, cell) =>
        clearSpilled parent.number
        takeUp [] left (i - 1) (Block.word cell 0)
          { found with dividers := cell :: found.dividers }
      | none =>
        let j := i - spilled.length
        let size := (parent.shape j).size
        let cell := Block.part parent.data (parent.entry j) size
        let parent ← dropAt parent j size
        takeUp spilled left (i - 1) (Block.word cell 0)
          { found with parent, dividers := cell :: found.dividers }

/-- The entries of a node, those that it spilled among them. It is node `k` of its neighbours. -/
def entriesOf (k : Nat) (node : Node) : Paging (List Entry) := do
  let own := (List.range node.count).map fun i =>
    Entry.mk (.inNode k (node.entry i)) (node.shape i).size
  match ← spilledOn node.number with
  | [] => return own
  | (i, cell) :: rest =>
    if node.count < i then throw .corrupt
    let spilled := (cell :: rest.map (·.2)).map fun cell => Entry.mk (.apart cell) cell.size
    return own.take i ++ spilled ++ own.drop i

/-- An entry from between two nodes as an entry of their kind. `left` is the node before it. -/
def lowered (left : Node) (cell : Block) : Entry :=
  let cell :=
    if left.kind.leaf then
      let cell := Block.part cell 4 (cell.size - 4)
      Block.resize cell (max 4 cell.size)
    else Block.overlay cell 0 (Block.part left.data 8 4)
  ⟨.apart cell, cell.size⟩

/-- The entries of the neighbours from the `k`-th on and those between them, and for each neighbour
how many come before the one after it. -/
def gathered (divided : Bool) (k : Nat) :
    (nodes : List Node) → (dividers : List Block) → (before : List Entry) → (stops : List Nat) →
      Paging (List Entry × List Nat)
  | [], _, before, stops => return (before, stops.reverse)
  | node :: nodes, dividers, before, stops => do
    let before := before ++ (← entriesOf k node)
    let stops := before.length :: stops
    let before :=
      match dividers with
      | cell :: _ => if divided then before ++ [lowered node cell] else before
      | [] => before
    gathered divided (k + 1) nodes (dividers.drop 1) before stops

/-- Pages for `count` nodes: those of the neighbours as far as they go, then fresh ones near
`near`. -/
def pagesFor (held : List Nat) : (count : Nat) → (old : List Nat) → (near : Nat) →
    Paging (List Nat)
  | 0, _, _ => return []
  | count + 1, n :: old, near => do
    touch n
    return n :: (← pagesFor held count old near)
  | count + 1, [], _near => do
    let n ← holding held (fresh _near)
    return n :: (← pagesFor (n :: held) count [] n)

/-- The entry that goes between two nodes, when entry `j` of all is the first that the left one, on
page `n`, does not get. -/
def raised (all : Neighbours) (kind : NodeKind) (usable n j : Nat) : Option Block :=
  let data (k : Nat) : Block := ((all.nodes[k]?).map Node.data).getD (Block.zeros 0)
  let number := Block.ofBytes (bigEndian 4 n)
  if kind.leaf && kind.keyed then
    all.entries[j - 1]?.map fun entry =>
      let shape := match entry.spot with
        | .inNode k place => kind.shape usable (data k) place
        | .apart cell => kind.shape usable cell 0
      number ++ Block.ofBytes (varintBytes (unsigned64 shape.key))
  else do
    let entry ← all.entries[j]?
    if !entry.isWhole (data 0).size then none
    let cell := entry.bytes data
    if !kind.leaf then some (Block.overlay cell 0 number)
    else
      let cell := number ++ cell
      some (if cell.size = 8 then
        Block.part cell 0 ({ kind with leaf := false }.shape usable cell 0).size
      else cell)

/-- Put the entries between neighbours into the node above, from place `i` on: for each of the pages
but the last one, the entry of all at which it stops. -/
def placeBetween (all : Neighbours) (kind : NodeKind) :
    (pages : List (Nat × Nat)) → (i : Nat) → (parent : Node) → Paging Node
  | (n, stop) :: next :: pages, i, parent => do
    let cell ← orCorrupt (raised all kind parent.usable n stop)
    let parent ← place parent i cell
    placeBetween all kind (next :: pages) (i + 1) parent
  | _, _, parent => return parent

/-- The neighbours with the pages below them that come last named: for each of them that is the one
before the entry at which it stops, for the last one `lastBelow`. -/
def named (all : Neighbours) (stops : List Nat) (lastBelow : Nat) : Neighbours :=
  let data (k : Nat) : Block := ((all.nodes[k]?).map Node.data).getD (Block.zeros 0)
  let below (k : Nat) : Nat :=
    if k + 1 = stops.length then lastBelow
    else ((all.entries[stops.getD k 0]?).map fun entry => Block.word (entry.bytes data) 0).getD 0
  { all with nodes := all.nodes.mapIdx fun k node =>
      if k < stops.length then node.withData (Block.setWord node.data 8 (below k)) else node }

/-- The order in which neighbours are edited, so that none loses an entry before it is written
elsewhere: from the right those that take nothing from the left, then the first one, then the
others. `before` and `after` say where their entries stop. -/
def editOrder (before after : List Nat) : List Nat :=
  let rest := (List.range after.length).drop 1
  let isEarly (k : Nat) : Bool := after.getD (k - 1) 0 ≤ before.getD (k - 1) 0
  (rest.filter isEarly).reverse ++ 0 :: rest.filter (!isEarly ·)

/-- The neighbours with the entries of all shared out anew: those that stopped at `before` stop at
`after`, and those in `spilled` found no room before. -/
def redistributed (all : Neighbours) (divided : Bool) (before after : List Nat)
    (spilled : List (List Nat)) : Option Neighbours :=
  let count := all.entries.size
  let gap := if divided then 1 else 0
  let startOf (stops : List Nat) (k : Nat) : Nat := if k = 0 then 0 else stops.getD (k - 1) count + gap
  (editOrder (before ++ List.replicate after.length count) after).foldlM (fun all k => do
    let node ← all.nodes[k]?
    let old := if k < before.length then startOf before k else count
    let start := startOf after k
    let node ← node.edited all k old (spilled.getD k []) start (after.getD k 0 - start)
    return { all with nodes := all.nodes.setIfInBounds k node }) all

/-- Share out the entries of a node and its neighbours anew. `i` is the node's place in the node
above, which is the root or not. -/
def shareOut (c : Cursor) (parent : Node) (i : Nat) (isRoot : Bool) : Paging Unit := do
  let spilled ← spilledOn parent.number
  let total := spilled.length + parent.count
  let first := if total < 2 || i = 0 then 0 else if i = total then total - 2 else i - 1
  let count := if total < 2 then total + 1 else 3
  let right := first + count - 1 - spilled.length
  let rightPlace := if right = parent.count then parent.base + 8 else parent.entry right
  let found ← takeUp spilled (count - 1) (first + count - 2) (parent.child right)
    ⟨parent, [], []⟩
  let nodes := found.nodes.map (·.1)
  match nodes, nodes.getLast? with
  | leftmost :: _, some rightmost =>
    let kind := leftmost.kind
    if nodes.any (Block.byte ·.data 0 ≠ Block.byte leftmost.data 0) then throw .corrupt
    let divided := !(kind.leaf && kind.keyed)
    let (entries, stops) ← gathered divided 0 nodes found.dividers [] []
    let room : Int := leftmost.usable - (if kind.leaf then 8 else 12)
    let task : Shares.Task := ⟨(entries.map Entry.size).toArray, room, divided⟩
    let filled ← found.nodes.mapM fun (node, free) => do
      let extra := (← spilledOn node.number).map fun (_, cell) => cell.size + 2
      return room - free + extra.foldl Nat.add 0
    let places ← nodes.mapM fun node => do return (← spilledOn node.number).map (·.1)
    let starts := 0 :: stops.map (· + if divided then 1 else 0)
    let places := (places.zip starts).map fun (places, start) => places.map (start + ·)
    let shares ← orCorrupt (task.share (filled.zip stops))
    let old := nodes.map (·.number)
    let size := shares.stops.length
    let kept := old.take size
    let others := c.pages.drop 1 ++ (← get).held
    if kept.any (fun n => others.contains n || 1 < kept.count n) then throw .corrupt
    let pages ← pagesFor (c.pages ++ old) size old leftmost.number
    let blank ← (pages.drop nodes.length).mapM fun n => do
      let node : Node := ⟨n, ← page n, kind, 0, leftmost.usable⟩
      return node.emptied kind
    let pages := pages.mergeSort
    let parent := found.parent.withData
      (Block.setWord found.parent.data rightPlace (pages.getLast?.getD 0))
    save parent
    for n in old do clearSpilled n
    let all : Neighbours := ⟨(nodes ++ blank).toArray, entries.toArray⟩
    let parent ← placeBetween all kind (pages.zip shares.stops) first parent
    let all :=
      if kind.leaf then all else named all shares.stops (Block.word rightmost.data 8)
    let all ← orCorrupt (redistributed all divided stops shares.stops places)
    for (node, n, filled) in all.nodes.toList.zip (pages.zip shares.filled) do
      saveWith { node with number := n } (room - filled).toNat
    let n := pages.headD 0
    let free := (room - shares.filled.headD 0).toNat
    if isRoot && parent.count = 0 && parent.base ≤ free then
      let only ← node n
      let only := only.withData (← orCorrupt (only.defragmented free (-1)))
      let _ ← copied only parent.number
      holding c.pages.tail (Paging.free n)
    for n in old.drop size do Paging.free n
  | _, _ => throw .corrupt

/-- Mend the nodes from the one at hand up, where they have spilled or are too empty: the cursor on
the last one looked at. -/
def balance : (fuel : Nat) → Cursor → Paging Cursor
  | 0, _ => throw .corrupt
  | fuel + 1, c => do
    let here ← nodeAt c
    let free ← freeOn here
    let spilled ← spilledOn here.number
    if spilled.isEmpty && free * 3 ≤ here.usable * 2 then return c
    match c.path.tail with
    | [] =>
      if spilled.isEmpty then return c
      if ((← get).held.erase 1).contains here.number then throw .corrupt
      balance fuel (← deepen c here)
    | (n, i) :: above =>
      if (c.pages.drop 1 ++ (← get).held).contains here.number then throw .corrupt
      touch n
      let parent ← node n
      let _ ← freeOn parent
      match spilled with
      | [(place, cell)] =>
        if here.kind.leaf && here.kind.keyed && place = here.count && n ≠ 1 &&
            parent.count = i then
          extend c here parent cell
        else shareOut c parent i above.isEmpty
      | _ => shareOut c parent i above.isEmpty
      clearSpilled here.number
      balance fuel c.up

end Paging

end OwnershipLog
