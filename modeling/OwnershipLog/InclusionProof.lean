import OwnershipLog.Leaf
import OwnershipLog.TreeHead

/-!
# Inclusion proofs

A proof carries a leaf, its index, a head, and the hashes of the siblings on the
way from the leaf up to the root. It can be judged without the log.
-/

namespace OwnershipLog

/-- The most sibling hashes a proof may carry: their count is two bytes. -/
def maxHashes : Nat := 65535

/-- A leaf with the path that ties it to a head. -/
structure InclusionProof where
  head : TreeHead
  index : UInt64
  leaf : Leaf
  /-- The sibling hashes, from the leaf up. -/
  hashes : List Digest
deriving DecidableEq

namespace InclusionProof

/-- The head behind its length, the index, the leaf behind its length, the count
of hashes, the hashes. The count is judged before the leaf. -/
def encode (p : InclusionProof) : Except WireError Bytes := do
  if p.hashes.length > maxHashes then throw (.tooLong p.hashes.length maxHashes)
  let leaf ← p.leaf.encode
  let head ← prefixed p.head.encode
  let leaf ← prefixed leaf
  return head ++ (word64 p.index ++ (leaf ++
    (bigEndian 2 p.hashes.length ++ p.hashes.flatMap Octets.toBytes)))

/-- A proof from all of the input. The bytes after the count must be exactly the hashes. -/
def reader : Reader InclusionProof := do
  let head ← Reader.nested TreeHead.decode
  let index ← Reader.word
  let leaf ← Reader.nested Leaf.decode
  let count ← Reader.number 2
  let left ← Reader.remaining
  if left ≠ 32 * count then throw (.invalidLength (32 * count) left)
  let hashes ← Reader.digests count
  return ⟨head, index, leaf, hashes⟩

/-- A proof from a byte string that holds nothing else. -/
def decode (input : Bytes) : Except WireError InclusionProof := Reader.decodeAll reader input

end InclusionProof

end OwnershipLog
