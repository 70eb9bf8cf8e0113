import OwnershipLog.Timestamp
import OwnershipLog.Text.Utf8

/-!
# Ownership

An ownership ties the hash of some content to the name that claims it. A signed
ownership adds the instant at which the authority saw it, and the authority's
signature; it is what a private registration leaves behind.
-/

namespace OwnershipLog

/-- The most bytes a name may have: its length is one byte. -/
def maxName : Nat := 255

/-- A content hash and the name that claims it. -/
structure Ownership where
  contentHash : Digest
  name : String
deriving DecidableEq

namespace Ownership

/-- An ownership from raw request fields. The name is judged before the hash. -/
def ofFields (contentHash : Bytes) (name : String) : Except WireError Ownership :=
  if name.utf8ByteSize > maxName then .error (.tooLong name.utf8ByteSize maxName)
  else match Octets.ofBytes? 32 contentHash with
    | some hash => .ok ⟨hash, name⟩
    | none => .error (.invalidLength 32 contentHash.length)

/-- The hash, the length of the name in one byte, the name. -/
def encode (o : Ownership) : Except WireError Bytes :=
  let name := utf8 o.name
  if name.length ≤ maxName then .ok (o.contentHash.toBytes ++ bigEndian 1 name.length ++ name)
  else .error (.tooLong name.length maxName)

/-- An ownership from the front of the input. -/
def reader : Reader Ownership := do
  let hash ← Reader.digest
  let field ← Reader.exact (← Reader.number 1)
  match text? field.toBytes with
  | some name => return ⟨hash, name⟩
  | none => throw .nameEncoding

/-- An ownership from a byte string that holds nothing else. -/
def decode (input : Bytes) : Except WireError Ownership := Reader.decodeAll reader input

end Ownership

/-- The authority's word that `ownership` was registered before `timestamp`. -/
structure SignedOwnership where
  timestamp : Timestamp
  ownership : Ownership
  signature : Signature
deriving DecidableEq

namespace SignedOwnership

/-- The instant, the ownership, the signature. -/
def encode (s : SignedOwnership) : Except WireError Bytes := do
  let ownership ← s.ownership.encode
  return s.timestamp.encode ++ ownership ++ s.signature.toBytes

/-- A signed ownership from the front of the input. -/
def reader : Reader SignedOwnership := do
  let timestamp ← Timestamp.reader
  let ownership ← Ownership.reader
  let signature ← Reader.exact 64
  return ⟨timestamp, ownership, signature⟩

/-- A signed ownership from a byte string that holds nothing else. -/
def decode (input : Bytes) : Except WireError SignedOwnership := Reader.decodeAll reader input

end SignedOwnership

end OwnershipLog
