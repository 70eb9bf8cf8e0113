import OwnershipLog.Suite
import OwnershipLog.Crypto.Sha3
import OwnershipLog.Crypto.Ed25519
import OwnershipLog.Crypto.Gcm

/-!
# The standard algorithms

SHA3-256 for hashing, Ed25519 with strict verification for signatures, AES-256 in
Galois counter mode for sealing.
-/

namespace OwnershipLog

/-- The algorithms that the log is deployed with. -/
def Suite.standard : Suite where
  hash := Sha3.digest
  publicKey := Ed25519.publicKey
  sign := fun seed digest => Ed25519.sign seed digest.toBytes
  verify := fun key digest signature => Ed25519.verify key digest.toBytes signature
  encrypt := Gcm.encryptText
  decrypt := Gcm.decryptText

end OwnershipLog
