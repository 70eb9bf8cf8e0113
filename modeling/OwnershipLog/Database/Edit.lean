import OwnershipLog.Database.Room

/-!
# Editing neighbours

Some nodes with the same node above give entries to each other. An entry is named
by where its bytes stand, on one of the nodes or by themselves, and is read only
when it is written elsewhere. `edited` gives a node a new range of all the entries:
it takes out those that go, lets those that stay where they are, and fits the new
ones into what is free. If they do not fit the node is laid out anew.
-/

namespace OwnershipLog

/-- Where the bytes of an entry stand. -/
inductive Spot where
  /-- On one of the nodes, at a place. -/
  | inNode (k place : Nat)
  | apart (cell : Block)

/-- An entry of one of some neighbours, or between two of them. -/
structure Entry where
  spot : Spot
  size : Nat

namespace Entry

/-- The bytes of an entry. -/
def bytes (entry : Entry) (data : Nat → Block) : Block :=
  match entry.spot with
  | .inNode k place => Block.part (data k) place entry.size
  | .apart cell => Block.part cell 0 entry.size

/-- Whether an entry lies on its page to its end. -/
def isWhole (entry : Entry) (pageSize : Nat) : Bool :=
  match entry.spot with
  | .inNode _ place => place + entry.size ≤ pageSize
  | .apart _ => true

/-- The place of an entry on a node, if it stands there. -/
def placeIn? (entry : Entry) (k : Nat) : Option Nat :=
  match entry.spot with
  | .inNode j place => if j = k then some place else none
  | .apart _ => none

end Entry

/-- Neighbours that give entries to each other. -/
structure Neighbours where
  nodes : Array Node
  /-- All their entries, and those between them. -/
  entries : Array Entry

namespace Neighbours

/-- The bytes of the nodes, where node `k` is being changed. -/
def dataWith (all : Neighbours) (k : Nat) (here : Node) (j : Nat) : Block :=
  if j = k then here.data else (all.nodes.getD j here).data

/-- `n` entries from entry `i` on. -/
def range (all : Neighbours) (i n : Nat) : List Entry := (all.entries.extract i (i + n)).toList

end Neighbours

namespace Node

/-- Free stretches with one more, joined to one that it touches; none if it touches none. -/
def joined (start stop : Nat) : List (Nat × Nat) → Option (List (Nat × Nat))
  | [] => none
  | (a, b) :: rest =>
    if a = stop then some ((start, b) :: rest)
    else if b = start then some ((a, stop) :: rest)
    else (joined start stop rest).map ((a, b) :: ·)

/-- The node with some stretches free. One that cannot be is left as it is. -/
def releasedAll (node : Node) (stretches : List (Nat × Nat)) : Node :=
  stretches.foldl (fun node (start, stop) =>
    ((node.released start (stop - start)).map node.withData).getD node) node

/-- The node with the bytes of some entries free that stand on it, and how many these are; their
places in the table are left. Stretches are gathered first, up to ten of them. -/
def cleared (k : Nat) : List Entry → (node : Node) → (stretches : List (Nat × Nat)) →
    (count : Nat) → Node × Nat
  | [], node, stretches, count => (node.releasedAll stretches, count)
  | entry :: rest, node, stretches, count =>
    match entry.placeIn? k with
    | none => cleared k rest node stretches count
    | some place =>
      if place < node.table || node.usable ≤ place then cleared k rest node stretches count
      else
        let stop := place + entry.size
        match joined place stop stretches with
        | some stretches => cleared k rest node stretches (count + 1)
        | none =>
          let full := 10 ≤ stretches.length
          let node := if full then node.releasedAll stretches else node
          if node.usable < stop then (node, 0)
          else
            let stretches := if full then [] else stretches
            cleared k rest node (stretches ++ [(place, stop)]) (count + 1)

/-- The node with `n` places of its table moved from one place to another. -/
def movedSlots (node : Node) (target source n : Nat) : Node :=
  node.withData (Block.move node.data (node.table + 2 * target) (node.table + 2 * source) (2 * n))

/-- Write entries onto a node, and their places into its table from place `slot` on. Each goes into
a free block or below `top`, but not below `low`. Also says where the entries then begin; none if
there is no room. -/
def filled (all : Neighbours) (k low : Nat) : List Entry → (node : Node) → (top slot : Nat) →
    Node × Option Nat
  | [], node, top, _ => (node, some top)
  | entry :: rest, node, top, slot =>
    let found :=
      if Block.pair node.data 1 = 0 then none
      else (node.findRoom entry.size node.data.size node.firstFree).join
    let found := match found with
      | some (data, place) => some (data, place, top)
      | none =>
        if top < low + entry.size then none
        else some (node.data, top - entry.size, top - entry.size)
    match found with
    | none => (node, none)
    | some (data, place, top) =>
      let node := node.withData data
      if !entry.isWhole data.size then (node, none)
      else
        let data := Block.overlay data place (entry.bytes (all.dataWith k node))
        let data := Block.setPair data (node.table + 2 * slot) place
        filled all k low rest (node.withData data) top (slot + 1)

/-- The page of a node laid out anew with some entries, from place `slot` of its table and from its
end on, and where the entries begin. Those of its own entries that stood after `old` are as they
were in `before`. -/
def rebuiltOnto (all : Neighbours) (k old : Nat) (before : Block) :
    List Entry → (node : Node) → (top slot : Nat) → Option (Node × Nat)
  | [], node, top, _ => some (node, top)
  | entry :: rest, node, top, slot => do
    let isOwn := (entry.placeIn? k).any fun place => old ≤ place && place < node.usable
    let limit := if isOwn then node.usable else node.data.size
    if !entry.isWhole limit then none
    let place := node.table + 2 * slot
    if top < entry.size || top - entry.size < place + 2 then none
    let top := top - entry.size
    let node := node.withData (Block.setPair node.data place top)
    let cell :=
      if isOwn then entry.bytes fun _ => before else entry.bytes (all.dataWith k node)
    rebuiltOnto all k old before rest (node.withData (Block.overlay node.data top cell)) top
      (slot + 1)

/-- The node laid out anew with some entries. -/
def rebuilt (all : Neighbours) (k : Nat) (entries : List Entry) (node : Node) : Option Node := do
  let old := Block.pair node.data (node.base + 5)
  let old := if node.usable < old then 0 else old
  let (node, top) ← rebuiltOnto all k old node.data entries node node.usable 0
  let data := Block.setPair node.data node.firstFree 0
  let data := Block.setPair data (node.base + 3) entries.length
  let data := Block.setPair data (node.base + 5) top
  some { node with data := Block.setByte data (node.base + 7) 0, count := entries.length }

/-- Put in the entries of a node that found no room on it before, if they are among its `n` entries
from entry `start` of all on: the node, how many entries it has, and where they begin. `spilled` are
the places of those entries among all. -/
def filledSpilled (all : Neighbours) (k low start n : Nat) : (spilled : List Nat) → (node : Node) →
    (count top : Nat) → Node × Option (Nat × Nat)
  | [], node, count, top => (node, some (count, top))
  | i :: rest, node, count, top =>
    if i < start || start + n ≤ i then filledSpilled all k low start n rest node count top
    else
      let slot := i - start
      let node := if slot < count then node.movedSlots (slot + 1) slot (count - slot) else node
      match node.filled all k low (all.range i 1) top slot with
      | (node, some top) => filledSpilled all k low start n rest node (count + 1) top
      | (node, none) => (node, none)

/-- Node `k` of some neighbours with `n` entries, from entry `start` of all on, instead of those that
it has had from entry `before` on. `spilled` are the places among all of those of them that found no
room on it. -/
def edited (all : Neighbours) (k : Nat) (node : Node) (before : Nat) (spilled : List Nat)
    (start n : Nat) : Option Node :=
  let low := node.table + 2 * n
  let stop := start + n
  let stopBefore := before + node.count + spilled.length
  let (node, count) :=
    if before < start then
      let (cleared, gone) := node.cleared k (all.range before (start - before)) [] 0
      (cleared.movedSlots 0 gone node.count, node.count - gone)
    else (node, node.count)
  let (node, count) :=
    if stop < stopBefore then
      let (cleared, gone) := node.cleared k (all.range stop (stopBefore - stop)) [] 0
      (cleared, count - gone)
    else (node, count)
  let top := Block.pair node.data (node.base + 5)
  let inPlace : Node × Option Nat :=
    if top < low || node.data.size < top then (node, none)
    else
      let (node, done) : Node × Option (Nat × Nat) :=
        if start < before then
          let added := min n (before - start)
          let node := node.movedSlots added 0 count
          match node.filled all k low (all.range start added) top 0 with
          | (node, some top) => (node, some (count + added, top))
          | (node, none) => (node, none)
        else (node, some (count, top))
      match done with
      | none => (node, none)
      | some (count, top) =>
        match node.filledSpilled all k low start n spilled count top with
        | (node, none) => (node, none)
        | (node, some (count, top)) =>
          node.filled all k low (all.range (start + count) (n - count)) top count
  match inPlace with
  | (node, some top) =>
    let data := Block.setPair node.data (node.base + 3) n
    some { node with data := Block.setPair data (node.base + 5) top, count := n }
  | (node, none) => if n = 0 then none else node.rebuilt all k (all.range start n)

end Node

end OwnershipLog
