import OwnershipLog.Ownership

/-!
# Leaves

A leaf is one ownership as the log keeps it: when it was made, whose key may
speak for it, and two sealed payloads of contact data. Its byte form is what the
log stores, hashes and sends, so it must fit behind a two-byte length.
-/

namespace OwnershipLog

/-- One record of the log. -/
structure Leaf where
  created : Timestamp
  ownership : Ownership
  /-- The key that signs public claims for this leaf; of any length. -/
  publicKey : Bytes
  /-- What a winning private claim is given, sealed. -/
  privateData : Bytes
  /-- What a winning public claim is given, sealed. -/
  publicData : Bytes
deriving DecidableEq

namespace Leaf

/-- The fields of a leaf one after another, each behind its length. -/
def fields (leaf : Leaf) : Except WireError Bytes := do
  let ownership ← prefixed (← leaf.ownership.encode)
  let key ← prefixed leaf.publicKey
  let privateData ← prefixed leaf.privateData
  let publicData ← prefixed leaf.publicData
  return leaf.created.encode ++ ownership ++ key ++ privateData ++ publicData

/-- The byte form of a leaf. One that would not fit behind a length has none. -/
def encode (leaf : Leaf) : Except WireError Bytes := do
  let bytes ← leaf.fields
  if bytes.length ≤ maxField then return bytes
  else throw (.tooLong bytes.length maxField)

/-- A leaf from the front of the input. -/
def reader : Reader Leaf := do
  let created ← Timestamp.reader
  let ownership ← Reader.nested Ownership.decode
  let publicKey ← Reader.prefixed
  let privateData ← Reader.prefixed
  let publicData ← Reader.prefixed
  return ⟨created, ownership, publicKey, privateData, publicData⟩

/-- A leaf from a byte string that holds nothing else. -/
def decode (input : Bytes) : Except WireError Leaf := Reader.decodeAll reader input

end Leaf

end OwnershipLog
