import OwnershipLog.Database.Cursor
import OwnershipLog.Database.Record

/-!
# Looking for an entry

`seekKey` looks a number up in a table, `seekRecord` a record in an index. Either
halves the entries of a node again and again, goes down, and ends on the entry
looked for or next to where it would be. The answer says where the entry found
stands beside what was looked for; in an empty tree that is before it.
-/

namespace OwnershipLog

namespace Node

/-- The place after the length that stands at `i`. -/
def afterLength (data : Block) : (fuel i : Nat) → Option Nat
  | 0, _ => none
  | fuel + 1, i =>
    if Block.byte data i < 128 then some (i + 1)
    else if data.size ≤ i + 1 then none
    else afterLength data fuel (i + 1)

/-- The key of an entry of a table. -/
def keyOf? (node : Node) (i : Nat) : Option Int :=
  let place := node.entry i + node.kind.childWidth
  let keyPlace := if node.kind.leaf then afterLength node.data node.data.size place else some place
  keyPlace.map fun place => signed64 (Block.varint node.data place).1

end Node

namespace Paging

/-- Halve the places from `low` to `high`, looking at place `i` first, until an entry is what is
looked for or none is left: the last place looked at, where its entry stands, and the place from
which on all entries come after it. A comparison also says whether it met all that was looked for,
and so does the answer, if `seen` does not already. -/
def halving (compare : Nat → Paging (Ordering × Bool)) :
    (fuel low high i : Nat) → (seen : Bool) → Paging (Nat × Ordering × Nat × Bool)
  | 0, _, _, _, _ => throw .corrupt
  | fuel + 1, low, high, i, seen => do
    let (place, met) ← compare i
    let seen := seen || met
    match place with
    | .eq => return (i, .eq, i, seen)
    | .lt =>
      let low := i + 1
      if high ≤ low then return (i, .lt, low, seen)
      else halving compare fuel low high ((low + (high - 1)) / 2) seen
    | .gt =>
      if i ≤ low then return (i, .gt, low, seen)
      else halving compare fuel low i ((low + (i - 1)) / 2) seen

/-- Look for a row below the node at hand. -/
def seekKeyBelow (key : Int) (fromEnd : Bool) :
    (fuel : Nat) → Cursor → Node → Paging (Cursor × Ordering)
  | 0, _, _ => throw .corrupt
  | fuel + 1, c, here => do
    let start := if fromEnd then here.count - 1 else (here.count - 1) / 2
    let (i, place, low, _) ← halving
      (fun i => do return (compare (← orCorrupt (here.keyOf? i)) key, false))
      (here.count + 1) 0 here.count start false
    if here.kind.leaf then return (c.placed i, place)
    else
      let (c, here) ← descend (c.placed low) (here.child low)
      seekKeyBelow key fromEnd fuel c here

/-- Look for a row of a table. -/
def seekKey (c : Cursor) (key : Int) (fromEnd : Bool) : Paging (Cursor × Ordering) := do
  let (c, here) ← toRoot c
  if c.valid then seekKeyBelow key fromEnd (Cursor.maxHeight + 1) c here else return (c, .lt)

/-- What is looked for in an index. -/
structure Target where
  order : Order
  values : List Value
  /-- Where an entry stands whose values are these as far as they go. -/
  tie : Ordering

/-- Where an entry of an index stands beside a target, and whether it has all the values. -/
def compareEntry (target : Target) (c : Cursor) (here : Node) (i : Nat) :
    Paging (Ordering × Bool) := do
  let place := here.entry i + here.kind.childWidth
  let most := here.kind.mostInside here.usable
  let size := Block.byte here.data place
  let low := Block.byte here.data (place + 1)
  let size' := size % 128 * 128 + low
  let standing ←
    if size ≤ min 127 most then
      pure (target.order.compare here.data (place + 1) size target.tie target.values)
    else if low < 128 && size' ≤ most then
      pure (target.order.compare here.data (place + 2) size' target.tie target.values)
    else
      let length := (here.shape i).payload
      if length < 2 || 2 ^ 31 ≤ length || (← get).count < length / here.usable then throw .corrupt
      let record ← payload (c.placed i) 0 length
      pure (target.order.compare record 0 length target.tie target.values)
  match standing with
  | .unreadable => throw .corrupt
  | .found place same => return (place, same)

/-- Look for a record below the node at hand; `seen` says whether an entry with all the values has
been met. -/
def seekRecordBelow (target : Target) :
    (fuel : Nat) → Cursor → Node → (seen : Bool) → Paging (Cursor × Ordering × Bool)
  | 0, _, _, _ => throw .corrupt
  | fuel + 1, c, here, seen => do
    let (i, place, low, seen) ← halving (compareEntry target c here) (here.count + 1) 0 here.count
      ((here.count - 1) / 2) seen
    if place = .eq || here.kind.leaf then return (c.placed i, place, seen)
    else
      let (c, here) ← descend (c.placed low) (here.child low)
      seekRecordBelow target fuel c here seen

/-- Look for a record of an index. -/
def seekRecord (c : Cursor) (target : Target) : Paging (Cursor × Ordering × Bool) := do
  let (c, here) ← toRoot c
  if c.valid then seekRecordBelow target (Cursor.maxHeight + 1) c here false
  else return (c, .lt, false)

end Paging

end OwnershipLog
