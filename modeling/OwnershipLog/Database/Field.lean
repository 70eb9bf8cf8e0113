import OwnershipLog.Database.Cursor
import OwnershipLog.Database.Record

/-!
# Fields of a record

`field` reads one value of the record under a cursor, and no more of the record
than that takes: the header up to the field, and the field. A record may have
fewer values than its table has columns. `rowKeyAt` reads the last value of an
entry of an index, the key of its row.
-/

namespace OwnershipLog

/-- The fields that a header names from place `i` on, up to field `left`: the kind of the last one,
where it begins and ends, how many are still missing, and the place after it. At least one is
read. -/
def fieldKinds (header : Block) (stop : Nat) :
    (left i start : Nat) → Nat × Nat × Nat × Nat × Nat
  | left, i, start =>
    let (kind, width) := Block.varint32 header i
    let next := start + kindSize kind
    match left with
    | 0 => (kind, start, next, 0, i + width)
    | left + 1 =>
      if i + width < stop then fieldKinds header stop left (i + width) next
      else (kind, start, next, left + 1, i + width)

namespace Paging

/-- A value of the record under the cursor, or `missing` if the record has fewer. -/
def field (c : Cursor) (i : Nat) (missing : Value) : Paging Value := do
  let length := (← shapeAt c).payload
  let (seen, size) ← visible c
  let (headerSize, width) := Block.varint32 seen 0
  let apart := size < headerSize
  if apart && (98307 < headerSize || length < headerSize) then throw .corrupt
  let header ← if apart then payloadHead c headerSize else pure seen
  if apart && headerSize ≤ width then return missing
  let (kind, start, stop, left, place) := fieldKinds header headerSize i width headerSize
  if length < stop || headerSize < place || (headerSize = place && length ≠ stop) then
    if headerSize = 0 then return missing else throw .corrupt
  if 0 < left then return missing
  let size := if apart then 0 else size
  if stop ≤ size || kindSize kind = 0 then return valueAt seen start kind
  else
    let bytes ←
      if 4000 < kindSize kind && c.keyed then payload c start (kindSize kind)
      else payloadPart c start (kindSize kind)
    return valueAt bytes 0 kind

/-- The key of the row that the entry of an index under the cursor is for. -/
def rowKeyAt (c : Cursor) : Paging Int := do
  let length := (← shapeAt c).payload
  let record ← payloadHead c length
  let (headerSize, _) := Block.varint32 record 0
  if headerSize < 3 || length < headerSize then throw .corrupt
  let (kind, _) := Block.varint32 record (headerSize - 1)
  if kind < 1 || 9 < kind || kind = 7 || length < headerSize + kindSize kind then throw .corrupt
  match valueAt record (length - kindSize kind) kind with
  | .integer n => return n
  | _ => throw .corrupt

end Paging

end OwnershipLog
