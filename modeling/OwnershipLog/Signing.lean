import OwnershipLog.InclusionProof
import OwnershipLog.Suite

/-!
# Signing

Nothing is signed or verified but the checksum of an artifact, recomputed from
its fields. The checksum of a head and that of an ownership each begin with a tag
of their own; that of a leaf is the hash of its byte form, the hash the tree
holds.
-/

namespace OwnershipLog

/-- The tag of head checksums. -/
def headTag : Bytes := utf8 "sth"

/-- The tag of ownership checksums. -/
def ownershipTag : Bytes := utf8 "ownership"

/-- The bytes that the signature of a head stands for; its signature is not among them. -/
def TreeHead.preimage (h : TreeHead) : Bytes :=
  headTag ++ (word64 h.size ++ (h.timestamp.encode ++ h.root.toBytes))

/-- The bytes that the signature of an ownership stands for. -/
def Ownership.preimage (timestamp : Timestamp) (o : Ownership) : Except WireError Bytes := do
  return ownershipTag ++ (timestamp.encode ++ (← o.encode))

/-- The checksum that the authority signs for a head. -/
def TreeHead.checksum (hash : HashFunction) (h : TreeHead) : Digest := hash h.preimage

/-- The checksum that the authority signs for an ownership. -/
def Ownership.checksum (hash : HashFunction) (timestamp : Timestamp) (o : Ownership) :
    Except WireError Digest := do
  return hash (← o.preimage timestamp)

/-- The checksum that the owner of a leaf signs. -/
def Leaf.checksum (hash : HashFunction) (leaf : Leaf) : Except WireError Digest := do
  return hash (← leaf.encode)

namespace Suite

/-- Whether raw bytes are a signature of the digest under raw key bytes. Any other lengths than
those of keys and signatures fail. -/
def verifyBytes (suite : Suite) (key : Bytes) (digest : Digest) (signature : Bytes) : Bool :=
  match Octets.ofBytes? 32 key, Octets.ofBytes? 64 signature with
  | some key, some signature => suite.verify key digest signature
  | _, _ => false

/-- The head with the authority's signature in place of any other. -/
def signHead (suite : Suite) (seed : Seed) (head : TreeHead) : TreeHead :=
  { head with signature := some (suite.sign seed (head.checksum suite.hash)) }

/-- The authority's word for an ownership at an instant. -/
def signOwnership (suite : Suite) (seed : Seed) (timestamp : Timestamp) (ownership : Ownership) :
    Except WireError SignedOwnership := do
  let digest ← ownership.checksum suite.hash timestamp
  return ⟨timestamp, ownership, suite.sign seed digest⟩

/-- An owner's signature over a leaf. -/
def signLeaf (suite : Suite) (seed : Seed) (leaf : Leaf) : Except WireError Signature := do
  return suite.sign seed (← leaf.checksum suite.hash)

/-- Whether a head is signed under the key. One without a signature is not. -/
def verifyHead (suite : Suite) (key : PublicKey) (head : TreeHead) : Bool :=
  match head.signature with
  | none => false
  | some signature => suite.verify key (head.checksum suite.hash) signature

/-- Whether an ownership is signed under the key. -/
def verifyOwnership (suite : Suite) (key : PublicKey) (signed : SignedOwnership) : Bool :=
  match signed.ownership.checksum suite.hash signed.timestamp with
  | .ok digest => suite.verify key digest signed.signature
  | .error _ => false

/-- Whether raw bytes are a signature of the leaf under raw key bytes. -/
def verifyLeaf (suite : Suite) (key : Bytes) (leaf : Leaf) (signature : Bytes) : Bool :=
  match leaf.checksum suite.hash with
  | .ok digest => suite.verifyBytes key digest signature
  | .error _ => false

end Suite

end OwnershipLog
