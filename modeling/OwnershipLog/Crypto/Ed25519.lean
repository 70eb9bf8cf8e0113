import OwnershipLog.Crypto.Edwards
import OwnershipLog.Crypto.Sha512

/-!
# Signatures

Ed25519 with strict verification: the scalar of a signature is below the group
order, neither the key nor the first half of the signature is a point of small
order, and the verification equation holds without the cofactor.
-/

namespace OwnershipLog.Ed25519

open Edwards

/-- The scalar that a hash stands for. -/
def scalarOf (hash : Bytes) : Nat := ofLittleEndian hash % order

/-- The secret scalar of a seed: its hash with the low three bits cleared and the top bit moved to 254. -/
def secretScalar (seed : Seed) : Nat :=
  let n := ofLittleEndian ((Sha512.digest seed.toBytes).take 32)
  n % 2 ^ 254 / 8 * 8 + 2 ^ 254

/-- The secret bytes that nonces come from. -/
def nonceKey (seed : Seed) : Bytes := (Sha512.digest seed.toBytes).drop 32

/-- The public key of a seed. -/
def publicKey (seed : Seed) : PublicKey := (Point.base.multiple (secretScalar seed)).encode

/-- The scalar that binds a signature to its key and message. -/
def challenge (nonce : Octets 32) (key : PublicKey) (message : Bytes) : Nat :=
  scalarOf (Sha512.digest (nonce.toBytes ++ key.toBytes ++ message))

/-- The signature of a message: the nonce point, then the scalar that answers the challenge. -/
def sign (seed : Seed) (message : Bytes) : Signature :=
  let secret := secretScalar seed
  let r := scalarOf (Sha512.digest (nonceKey seed ++ message))
  let nonce := (Point.base.multiple r).encode
  let s := (r + challenge nonce (publicKey seed) message * secret) % order
  ⟨nonce.toBytes ++ littleEndian 32 s, by simp [nonce.length_toBytes, littleEndian]⟩

/-- Whether a signature of the message holds under the key. -/
def verify (key : PublicKey) (message : Bytes) (signature : Signature) : Bool :=
  let scalar := ofLittleEndian (signature.toBytes.drop 32)
  match Octets.ofBytes? 32 (signature.toBytes.take 32) with
  | none => false
  | some nonce =>
    match Point.decode? key, Point.decode? nonce with
    | some keyPoint, some noncePoint =>
      let expected := (Point.base.multiple scalar).add
        (keyPoint.neg.multiple (challenge nonce key message))
      decide (scalar < order) && !noncePoint.isSmallOrder && !keyPoint.isSmallOrder
        && decide (expected.encode = nonce)
    | _, _ => false

end OwnershipLog.Ed25519
