import OwnershipLog.Suite

/-!
# Payloads

Contact data is sealed before it reaches the log: a nonce, then the sealed bytes.
The kind of claim that may release a payload is bound to it, so a payload sealed
for one kind never opens for the other.
-/

namespace OwnershipLog

/-- The kind of claim that may release a payload. -/
inductive Domain where
  | privateClaim
  | publicClaim
deriving DecidableEq, Repr

/-- The bytes that a payload is bound to. -/
def Domain.tag : Domain → Bytes
  | privateClaim => [0, 1]
  | publicClaim => [0, 2]

/-- A payload sealed for one kind of claim, behind the nonce it was sealed with. -/
def Suite.sealPayload (suite : Suite) (key : SealingKey) (domain : Domain) (nonce : Nonce)
    (payload : Bytes) : Option Bytes :=
  (suite.encrypt key nonce domain.tag payload).map fun body => nonce.toBytes ++ body

/-- The payload that was sealed for this kind of claim; none for any other bytes. -/
def Suite.openPayload (suite : Suite) (key : SealingKey) (domain : Domain) (sealed : Bytes) :
    Option Bytes :=
  match Octets.ofBytes? 12 (sealed.take 12) with
  | none => none
  | some nonce => suite.decrypt key nonce domain.tag (sealed.drop 12)

end OwnershipLog
