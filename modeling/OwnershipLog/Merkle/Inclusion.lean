import OwnershipLog.InclusionProof
import OwnershipLog.Merkle.Span
import OwnershipLog.Suite

/-!
# Verifying inclusion

A leaf is hashed as it is written, an inner node as the hashes of its halves.
A span with no leaf yet hashes to zero. `Merkle.climb` folds a list of sibling
hashes from a leaf up to the root and refuses a list that is too short, too long,
or has a zero anywhere but beside a span that starts at or past the end of the
log.
-/

namespace OwnershipLog

/-- The hash of an inner node from those of its halves. -/
def HashFunction.node (hash : HashFunction) (left right : Digest) : Digest :=
  hash (left.toBytes ++ right.toBytes)

/-- The hash of the parent of `s`, from its own hash and its sibling's. -/
def Span.combine (hash : HashFunction) (s : Span) (own sibling : Digest) : Digest :=
  if s.isLeftChild then hash.node own sibling else hash.node sibling own

/-- The hash of a leaf; none if it has no byte form. -/
def Leaf.hash? (hash : HashFunction) (leaf : Leaf) : Option Digest :=
  match leaf.encode with
  | .ok bytes => some (hash bytes)
  | .error _ => none

namespace Merkle

/-- The root hash that a node and its sibling hashes lead to in a tree with `size` leaves. -/
def climb (hash : HashFunction) (size : UInt64) : Span → Digest → List Digest → Option Digest
  | s, own, [] => if s.isRoot size then some own else none
  | s, own, sibling :: rest =>
    if s.isRoot size then none
    else if decide (sibling = Digest.zero) ≠ decide (size ≤ s.sibling.left) then none
    else climb hash size s.parent (s.combine hash own sibling) rest

end Merkle

/-- Whether the hashes of a proof tie its leaf to the root of its head. The signature of the head
is not looked at. -/
def InclusionProof.verifyHashes (hash : HashFunction) (p : InclusionProof) : Bool :=
  if maxLeaves < p.head.size ∨ p.head.size ≤ p.index then false
  else match p.leaf.hash? hash with
    | none => false
    | some own =>
      decide (Merkle.climb hash p.head.size (Span.leaf p.index) own p.hashes = some p.head.root)

end OwnershipLog
