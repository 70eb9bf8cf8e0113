import OwnershipLog.Database.Image
import OwnershipLog.Database.Varint

/-!
# Nodes

A tree is made of pages that are read as nodes. A node has a header, a table of
the places of its entries, and the entries themselves, which fill the page from
its end. In a table the keys are numbers and only leaves hold records; in an index
every entry holds a record, which is its key. An entry that does not fit its page
goes on elsewhere.
-/

namespace OwnershipLog

/-- What decides how a node lays out its entries. -/
structure NodeKind where
  /-- Whether nothing lies below it. -/
  leaf : Bool
  /-- Whether its keys are numbers. -/
  keyed : Bool
deriving DecidableEq, Repr

namespace NodeKind

/-- The kind that the first byte of a header says. -/
def ofByte? : Nat → Option NodeKind
  | 2 => some ⟨false, false⟩
  | 5 => some ⟨false, true⟩
  | 10 => some ⟨true, false⟩
  | 13 => some ⟨true, true⟩
  | _ => none

/-- The byte that says a kind. -/
def toByte (kind : NodeKind) : Nat := (if kind.keyed then 5 else 2) + (if kind.leaf then 8 else 0)

/-- How many bytes of an entry name the page below it. -/
def childWidth (kind : NodeKind) : Nat := if kind.leaf then 0 else 4

@[simp] theorem ofByte?_toByte (kind : NodeKind) : ofByte? kind.toByte = some kind := by
  rcases kind with ⟨_ | _, _ | _⟩ <;> rfl

end NodeKind

/-- A page read as a node of a tree. -/
structure Node where
  number : Nat
  data : Block
  kind : NodeKind
  /-- How many entries it has. -/
  count : Nat
  usable : Nat

/-- How an entry is laid out. -/
structure Shape where
  /-- How many bytes of its page it takes. -/
  size : Nat
  /-- Its key, if that is a number. -/
  key : Int
  /-- The length of its record. -/
  payload : Nat
  /-- How much of the record stands on the page. -/
  inside : Nat
  /-- Where in the entry the record begins. -/
  start : Nat

namespace Shape

/-- Whether the record goes on elsewhere. -/
def overflows (shape : Shape) : Bool := shape.inside ≠ shape.payload

end Shape

/-- The length of a record from a place on, in at most `left + 1` groups of seven bits, after those
that spell `high`; and how many bytes it takes, after `width` bytes. It is kept to 32 bits. -/
def payloadOnto (b : Block) (i : Nat) : (left high width : Nat) → Nat × Nat
  | 0, high, width => ((high * 128 + Block.byte b i % 128) % 2 ^ 32, width + 1)
  | left + 1, high, width =>
    let value := (high * 128 + Block.byte b i % 128) % 2 ^ 32
    if Block.byte b i < 128 then (value, width + 1)
    else payloadOnto b (i + 1) left value (width + 1)

namespace NodeKind

/-- The most bytes of a record that stand on the page. -/
def mostInside (kind : NodeKind) (usable : Nat) : Nat :=
  if kind.keyed then usable - 35 else (usable - 12) * 64 / 255 - 23

/-- The fewest bytes of a record that stand on the page if the record goes on elsewhere. -/
def leastInside (usable : Nat) : Nat := (usable - 12) * 32 / 255 - 23

/-- How many bytes of a record of `length` bytes stand on the page. -/
def inside (kind : NodeKind) (usable length : Nat) : Nat :=
  if length ≤ kind.mostInside usable then length
  else
    let least := leastInside usable
    let filled := least + (length - least) % (usable - 4)
    if filled ≤ kind.mostInside usable then filled else least

/-- The shape of the entry at a place. -/
def shape (kind : NodeKind) (usable : Nat) (b : Block) (i : Nat) : Shape :=
  if kind.keyed && !kind.leaf then
    let (key, width) := Block.varint b (i + 4)
    { size := 4 + width, key := signed64 key, payload := 0, inside := 0, start := 4 + width }
  else
    let (payload, width) := payloadOnto b (i + kind.childWidth) 8 0 0
    let (key, keyWidth) :=
      if kind.keyed then
        let (key, keyWidth) := Block.varint b (i + width)
        (signed64 key, keyWidth)
      else ((payload : Int), 0)
    let start := kind.childWidth + width + keyWidth
    let inside := kind.inside usable payload
    let size := start + inside + (if inside = payload then 0 else 4)
    { size := max 4 size, key, payload, inside, start }

end NodeKind

namespace Node

/-- Where the header of page `n` begins: the first page has the header of the file before it. -/
def baseOf (n : Nat) : Nat := if n = 1 then Image.headerSize else 0

/-- Where the header begins. -/
def base (node : Node) : Nat := baseOf node.number

/-- Where the places of the entries stand. -/
def table (node : Node) : Nat := node.base + 8 + node.kind.childWidth

/-- Where the table of places ends. -/
def tableEnd (node : Node) : Nat := node.table + 2 * node.count

/-- The node that a page is. A page of more entries than could fit is none. -/
def ofPage? (usable n : Nat) (data : Block) : Option Node :=
  match NodeKind.ofByte? (Block.byte data (baseOf n)) with
  | none => none
  | some kind =>
    let count := Block.pair data (baseOf n + 3)
    if (data.size - 8) / 6 < count then none else some ⟨n, data, kind, count, usable⟩

/-- The place of an entry as the table has it. -/
def slot (node : Node) (i : Nat) : Nat := Block.pair node.data (node.table + 2 * i)

/-- The place of an entry. -/
def entry (node : Node) (i : Nat) : Nat := node.slot i % node.data.size

/-- The shape of an entry. -/
def shape (node : Node) (i : Nat) : Shape := node.kind.shape node.usable node.data (node.entry i)

/-- The page below an entry, or the last page below if there is no such entry. -/
def child (node : Node) (i : Nat) : Nat :=
  if node.count ≤ i then Block.word node.data (node.base + 8)
  else Block.word node.data (node.entry i)

/-- Where the entries begin, as the header says; a zero stands for 65536. -/
def top (node : Node) : Nat :=
  let top := Block.pair node.data (node.base + 5)
  if top = 0 then 65536 else top

/-- The bytes in the free blocks from `i` on, each of which says where the next one is and how long
it is. They ascend, at least four bytes apart, and lie within the usable bytes. -/
def freeBlocks (node : Node) : (fuel i : Nat) → Option Nat
  | 0, _ => none
  | fuel + 1, i =>
    let next := Block.pair node.data i
    let size := Block.pair node.data (i + 2)
    if node.usable - 4 < i then none
    else if i + size + 3 < next then (node.freeBlocks fuel next).map (size + ·)
    else if 0 < next || node.usable < i + size then none
    else some size

/-- How many bytes are free; none if the header and the free blocks contradict each other. -/
def free? (node : Node) : Option Nat := do
  let first := Block.pair node.data (node.base + 1)
  let blocks ←
    if first = 0 then some 0
    else if first < node.top then none
    else node.freeBlocks node.data.size first
  let free := Block.byte node.data (node.base + 7) + node.top + blocks
  if node.usable < free || free < node.tableEnd then none else some (free - node.tableEnd)

/-- The node with other bytes. -/
def withData (node : Node) (data : Block) : Node := { node with data }

/-- The page of a node without entries. Its other bytes stay as they are. -/
def emptyPage (usable n : Nat) (kind : NodeKind) (data : Block) : Block :=
  let base := baseOf n
  let data := Block.clear (Block.setByte data base kind.toByte) (base + 1) 4
  Block.setPair (Block.setByte data (base + 7) 0) (base + 5) usable

/-- How many bytes are free on a node without entries. -/
def emptyRoom (node : Node) : Nat := node.usable - node.table

/-- The node without entries. -/
def emptied (node : Node) (kind : NodeKind) : Node :=
  { node with kind, count := 0, data := emptyPage node.usable node.number kind node.data }

end Node

namespace Paging

/-- A page of the database as a node of a tree. -/
def node (n : Nat) : Paging Node := do
  let image ← get
  if image.count < n then throw .corrupt
  orCorrupt (Node.ofPage? image.usable n (← page n))

/-- Put a node back to its page. -/
def save (node : Node) : Paging Unit := write node.number node.data

/-- Put a node back to its page, with so many bytes free. -/
def saveWith (node : Node) (free : Nat) : Paging Unit := do
  save node
  modify fun image => { image with counted := image.counted.insert node.number free }

/-- How many bytes are free on a node. They are counted when that is asked first; after that each
change of the node is taken into account. -/
def freeOn (node : Node) : Paging Nat := do
  match (← get).counted[node.number]? with
  | some free => return free
  | none =>
    let free ← orCorrupt node.free?
    modify fun image => { image with counted := image.counted.insert node.number free }
    return free

end Paging

end OwnershipLog
