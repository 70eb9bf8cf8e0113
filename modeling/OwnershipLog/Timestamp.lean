import OwnershipLog.Wire.Reader

/-!
# Timestamps

An instant is a count of seconds since the Unix epoch and the nanoseconds of the
second under way, always in UTC. On the wire it is fifteen bytes: a version, the
seconds since the year 1, the nanoseconds and a zone offset. The offset is
presentation only: it is written as minus one and ignored when read.
-/

namespace OwnershipLog

/-- The nanoseconds of one second. -/
def nanosPerSecond : Nat := 1000000000

/-- An instant with nanosecond precision. -/
structure Timestamp where
  secs : Int64
  nanos : UInt32
  nanos_lt : nanos.toNat < nanosPerSecond
deriving DecidableEq

namespace Timestamp

@[ext] theorem ext {a b : Timestamp} (hs : a.secs = b.secs) (hn : a.nanos = b.nanos) : a = b := by
  cases a; cases b; cases hs; cases hn; rfl

/-- The instant `secs` seconds and `nanos` nanoseconds after the epoch. -/
def ofUnix (secs : Int64) (nanos : UInt32) : Except WireError Timestamp :=
  if h : nanos.toNat < nanosPerSecond then .ok ⟨secs, nanos, h⟩ else .error .timestampNanos

/-- The epoch. -/
def epoch : Timestamp := ⟨0, 0, by decide⟩

instance : Inhabited Timestamp := ⟨epoch⟩

/-- Strictly earlier: fewer seconds, or as many and fewer nanoseconds. -/
def isBefore (a b : Timestamp) : Bool :=
  decide (a.secs < b.secs) || (a.secs == b.secs && decide (a.nanos < b.nanos))

/-- The one version in use. -/
def version : UInt8 := 1

/-- The seconds from the start of the year 1 to the epoch. -/
def epochOffset : Int64 := 62135596800

/-- The fifteen bytes of an instant. Seconds wrap around where the shift to the
year 1 leaves the 64-bit range. -/
def encode (t : Timestamp) : Bytes :=
  version :: (word64 (t.secs + epochOffset).toUInt64 ++ bigEndian 4 t.nanos.toNat ++ [0xFF, 0xFF])

/-- An instant from its fifteen bytes. The version is judged before the rest is read. -/
def reader : Reader Timestamp := do
  let v ← Reader.byte
  if v ≠ version then throw (.timestampVersion v)
  let seconds ← Reader.word
  let nanos ← Reader.number 4
  let _zone ← Reader.exact 2
  match ofUnix (seconds.toInt64 - epochOffset) nanos.toUInt32 with
  | .ok t => return t
  | .error e => throw e

/-- An instant from a byte string that holds nothing else. -/
def decode (input : Bytes) : Except WireError Timestamp := Reader.decodeAll reader input

theorem length_encode (t : Timestamp) : t.encode.length = 15 := by
  simp [encode]

end Timestamp

end OwnershipLog
