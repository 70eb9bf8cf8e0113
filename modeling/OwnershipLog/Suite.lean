import OwnershipLog.Bytes

/-!
# The algorithms the log runs with

A suite names the hash, the signature scheme and the sealing that the rest of the
library is written over. Nothing outside this module and `Suite.Standard` knows
which algorithms they are, so what is said of the log for every suite holds for
the standard one.
-/

namespace OwnershipLog

/-- A hash function with 32-byte digests. -/
abbrev HashFunction := Bytes → Digest

/-- A hash, a signature scheme over digests, and an authenticated cipher. -/
structure Suite where
  hash : HashFunction
  /-- The public key of a seed. -/
  publicKey : Seed → PublicKey
  /-- The signature of a digest under a seed. -/
  sign : Seed → Digest → Signature
  /-- Whether a signature of a digest holds under a public key. -/
  verify : PublicKey → Digest → Signature → Bool
  /-- The encryption of a payload, bound to associated data; none if it is too long. -/
  encrypt : SealingKey → Nonce → (associated payload : Bytes) → Option Bytes
  /-- The payload that was encrypted; none if key, nonce, associated data or bytes do not match. -/
  decrypt : SealingKey → Nonce → (associated body : Bytes) → Option Bytes

/-- The hash of a tag and some parts, one after another. -/
def HashFunction.tagged (hash : HashFunction) (tag : Bytes) (parts : List Bytes) : Digest :=
  hash (tag ++ parts.flatten)

end OwnershipLog
