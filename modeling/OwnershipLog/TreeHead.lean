import OwnershipLog.Timestamp

/-!
# Tree heads

A head states the size and the root hash of the log at an instant. The log makes
heads without a signature; the authority adds its own before they leave. On the
wire a head is 55 bytes, or 119 with its signature: the length alone tells the
two apart.
-/

namespace OwnershipLog

/-- The size and root of the log at an instant, with the authority's signature if it has one. -/
structure TreeHead where
  size : UInt64
  timestamp : Timestamp
  root : Digest
  signature : Option Signature
deriving DecidableEq

namespace TreeHead

/-- The bytes of an optional signature: none, or all 64. -/
def signatureBytes : Option Signature → Bytes
  | none => []
  | some signature => signature.toBytes

/-- The size, the instant, the root, and the signature if there is one. -/
def encode (h : TreeHead) : Bytes :=
  word64 h.size ++ h.timestamp.encode ++ h.root.toBytes ++ signatureBytes h.signature

/-- The signature that the last bytes of a head hold. -/
def signatureOf (field : Bytes) : Except WireError (Option Signature) :=
  if field.isEmpty then .ok none
  else match Octets.ofBytes? 64 field with
    | some signature => .ok (some signature)
    | none => .error (.invalidLength 64 field.length)

/-- A head from all of the input. -/
def reader : Reader TreeHead := do
  let size ← Reader.word
  let timestamp ← Timestamp.reader
  let root ← Reader.digest
  match signatureOf (← Reader.rest) with
  | .ok signature => return ⟨size, timestamp, root, signature⟩
  | .error e => throw e

/-- A head from a byte string. -/
def decode (input : Bytes) : Except WireError TreeHead := Reader.decode reader input

end TreeHead

end OwnershipLog
