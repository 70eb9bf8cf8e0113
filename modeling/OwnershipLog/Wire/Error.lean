import OwnershipLog.Bytes

/-!
# Malformed bytes

`WireError` says why a byte string is no artifact, or why a value has no byte
string. Every cause has one wording, `WireError.message`.
-/

namespace OwnershipLog

/-- Why bytes could not be read, or a value could not be written. -/
inductive WireError where
  /-- The bytes end inside a field. -/
  | short
  /-- Bytes are left after the last field. -/
  | trailing
  /-- A field of `got` bytes, or items, is above the limit of `max`. -/
  | tooLong (got max : Nat)
  /-- A field of fixed width has another. -/
  | invalidLength (expected got : Nat)
  /-- The timestamp is of an unknown version. -/
  | timestampVersion (version : UInt8)
  /-- The nanoseconds make up a second or more. -/
  | timestampNanos
  /-- The name is not UTF-8. -/
  | nameEncoding
deriving DecidableEq, Repr

/-- The wording of each cause. -/
def WireError.message : WireError → String
  | short => "input too short"
  | trailing => "trailing bytes after decode"
  | tooLong got max => s!"field of {got} bytes exceeds limit {max}"
  | invalidLength expected got => s!"invalid length: expected {expected} got {got}"
  | timestampVersion version => s!"unsupported timestamp version {version.toNat}"
  | timestampNanos => "timestamp nanoseconds out of range"
  | nameEncoding => "name is not valid UTF-8"

end OwnershipLog
