import OwnershipLog.Database.Value
import OwnershipLog.Database.Varint

/-!
# Records

A record is a row as it is stored: a header that names the kind of every value,
and the values after it. The header begins with its own length. `record` writes
one; `Order.compare` tells where one stands beside a key, and reads no more of it
than that takes.
-/

namespace OwnershipLog

/-- How many bytes a value of a kind takes. -/
def kindSize (kind : Nat) : Nat :=
  if 12 ≤ kind then (kind - 12) / 2
  else match kind with
    | 1 => 1
    | 2 => 2
    | 3 => 3
    | 4 => 4
    | 5 => 6
    | 6 => 8
    | 7 => 8
    | _ => 0

/-- The signed number that `width` bytes spell. -/
def signedAt (b : Block) (i width : Nat) : Int :=
  let value := (List.range width).foldl (fun n k => n * 256 + Block.byte b (i + k)) 0
  if 2 * value < 256 ^ width then value else (value : Int) - 256 ^ width

/-- The value of a kind that stands at a place. -/
def valueAt (b : Block) (i kind : Nat) : Value :=
  match kind with
  | 0 => .null
  | 7 =>
    let x := Float.ofBits (unsigned64 (signedAt b i 8)).toUInt64
    if x.isNaN then .null else .real x
  | 8 => .integer 0
  | 9 => .integer 1
  | 10 => .null
  | 11 => .null
  | kind =>
    if kind < 12 then .integer (signedAt b i (kindSize kind))
    else if kind % 2 = 0 then .blob (Block.part b i (kindSize kind))
    else .text (Block.part b i (kindSize kind))

/-- The kind that an integer is stored under: the narrowest that holds it. Zero and one have kinds
of their own if `brief`. -/
def integerKind (brief : Bool) (n : Int) : Nat :=
  if brief && (n = 0 || n = 1) then 8 + n.toNat
  else
    let magnitude := if n < 0 then (-n - 1).toNat else n.toNat
    if magnitude < 2 ^ 7 then 1
    else if magnitude < 2 ^ 15 then 2
    else if magnitude < 2 ^ 23 then 3
    else if magnitude < 2 ^ 31 then 4
    else if magnitude < 2 ^ 47 then 5
    else 6

/-- The kind and the bytes that a value is stored as. -/
def stored (brief : Bool) : Value → Nat × Bytes
  | .null => (0, [])
  | .integer n =>
    let kind := integerKind brief n
    (kind, bigEndian (kindSize kind) (unsigned64 n))
  | .real x => (7, bigEndian 8 x.toBits.toNat)
  | .text bytes => (2 * bytes.size + 13, bytes.toBytes)
  | .blob bytes => (2 * bytes.size + 12, bytes.toBytes)

/-- The record of a row. -/
def record (brief : Bool) (values : List Value) : Block :=
  let parts := values.map (stored brief)
  let kinds := parts.flatMap fun part => varintBytes part.1
  let width := (varintBytes kinds.length).length
  let size := kinds.length + width
  let size := if width < (varintBytes size).length then size + 1 else size
  Block.ofBytes (varintBytes size ++ kinds ++ parts.flatMap (·.2))

/-- How the fields of the records of an index are ordered. -/
structure Order where
  /-- The collation of each field, and whether it descends. -/
  fields : List (Collation × Bool)
  encoding : TextEncoding

/-- Where a record stands beside a key. -/
inductive Standing where
  /-- The record cannot be read. -/
  | unreadable
  /-- The record comes before or after the key, or is it; `same` says whether all fields of the
  key were found in it. -/
  | found (place : Ordering) (same : Bool)

namespace Order

/-- Where a stored field stands beside a value; none if it reaches past the `size` bytes that the
record has from place `start` on. -/
def compareField (order : Order) (b : Block) (start size place kind : Nat) (collation : Collation)
    (value : Value) : Option Ordering :=
  match value with
  | .integer n =>
    if 10 < kind then some .gt
    else if kind = 10 || kind = 0 then some .lt
    else match valueAt b (start + place) kind with
      | .integer m => some (compare m n)
      | .real x => some (compareToReal n x).swap
      | _ => some .lt
  | .real x =>
    if 10 < kind then some .gt
    else if kind = 10 || kind = 0 then some .lt
    else match valueAt b (start + place) kind with
      | .integer m => some (compareToReal m x)
      | .real y => some (compareReals y x)
      | _ => some .lt
  | .text text =>
    if kind < 12 then some .lt
    else if kind % 2 = 0 then some .gt
    else if size < place + kindSize kind then none
    else some (collation.compare order.encoding (Block.part b (start + place) (kindSize kind)) text)
  | .blob blob =>
    if kind < 12 || kind % 2 = 1 then some .lt
    else if size < place + kindSize kind then none
    else some (Block.order (Block.part b (start + place) (kindSize kind)) blob)
  | .null =>
    match valueAt b (start + place) (if 12 ≤ kind then 1 else kind) with
    | .null => some .eq
    | _ => some .gt

/-- Where the fields of a record from `header` and `place` on stand beside those of a key. If all
fields that both have are equal, the record stands where `tie` says. -/
def compareFields (order : Order) (b : Block) (start size headerSize : Nat) (tie : Ordering) :
    (header place : Nat) → List (Collation × Bool) → List Value → Standing
  | _, _, _, [] => .found tie true
  | header, place, fields, value :: rest =>
    let (collation, descending) := fields.headD (.binary, false)
    let (kind, width) := Block.varint32 b (start + header)
    match order.compareField b start size place kind collation value with
    | none => .unreadable
    | some .eq =>
      if rest.isEmpty then .found tie true
      else
        let place := place + kindSize kind
        if size < place then .found tie true
        else if headerSize ≤ header + width then .unreadable
        else compareFields order b start size headerSize tie (header + width) place
          (fields.drop 1) rest
    | some other => .found (if descending then other.swap else other) false

/-- Where the record in the `size` bytes from `start` on stands beside a key. -/
def compare (order : Order) (b : Block) (start size : Nat) (tie : Ordering) (key : List Value) :
    Standing :=
  let (headerSize, width) := Block.varint32 b start
  if size < headerSize then .unreadable
  else order.compareFields b start size headerSize tie width headerSize order.fields key

end Order

end OwnershipLog
