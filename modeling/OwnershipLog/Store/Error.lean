import OwnershipLog.Merkle.Span
import OwnershipLog.Text.Utf8
import OwnershipLog.Wire.Error

/-!
# Keys of the store

The log keeps three kinds of values in a store of byte strings: the byte form of
each leaf, the hash of each inner node, and the number of leaves. `StoreKey` names
them and `StoreKey.bytes` says under which bytes they are filed. `StoreError`
says why the store could not answer, or answered with what cannot be.
-/

namespace OwnershipLog

/-- What the log files in its store. -/
inductive StoreKey where
  /-- The byte form of the leaf at an index. -/
  | leaf (index : UInt64)
  /-- The hash of the node over a span. -/
  | node (span : Span)
  /-- The number of leaves. -/
  | size
deriving DecidableEq, Repr

namespace StoreKey

/-- The bytes that a value is filed under. -/
def bytes : StoreKey → Bytes
  | leaf index => word64 index
  | node span => word64 span.left ++ word64 span.right
  | size => utf8 "size"

/-- The name of a key in messages. -/
def label : StoreKey → String
  | leaf index => s!"leaf {index.toNat}"
  | node span => s!"node [{span.left.toNat}, {span.right.toNat})"
  | size => "size"

end StoreKey

/-- Why the store has no answer, or no good one. -/
inductive StoreError where
  /-- The directory of the store could not be used. -/
  | io (detail : String)
  /-- The database refused. -/
  | database (detail : String)
  /-- The bytes under a key do not decode. -/
  | corrupt (key : StoreKey) (cause : WireError)
  /-- A value of fixed width has `length` bytes. -/
  | badWidth (key : StoreKey) (length : Nat)
  /-- A value that must be there is not. -/
  | missing (key : StoreKey)
deriving DecidableEq, Repr

/-- The wording of each cause. -/
def StoreError.message : StoreError → String
  | io detail => "IO error: " ++ detail
  | database detail => "SQLite error: " ++ detail
  | corrupt key cause => s!"corrupt value under key {key.label}: {cause.message}"
  | badWidth key length => s!"value under key {key.label} has wrong width: {length} bytes"
  | missing key => s!"missing value under key {key.label}"

end OwnershipLog
