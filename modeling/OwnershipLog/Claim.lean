import OwnershipLog.Merkle.Inclusion
import OwnershipLog.Payload
import OwnershipLog.Signing

/-!
# Claims

An adjudicator judges a claim from the artifacts it carries and nothing else. The
checks run in a fixed order, the first that fails denies the claim, and no
payload is opened before all of them hold.

A private claim shows a signed ownership older than the claimed leaf; a public
claim shows an earlier leaf with the same content and a signature by its key.
-/

namespace OwnershipLog

/-- Why a claim is denied. The order is that of the checks. -/
inductive Denial where
  | malformed (cause : WireError)
  | invalidOwnershipSignature
  | invalidClaimingHeadSignature
  | invalidClaimingProof
  | invalidClaimedHeadSignature
  | invalidClaimedProof
  | contentHashMismatch
  | notEarlier
  | notLater
  | invalidLeafSignature
  | undecryptable
deriving DecidableEq, Repr

/-- The wording of each denial. -/
def Denial.message : Denial → String
  | malformed cause => "malformed claim input: " ++ cause.message
  | invalidOwnershipSignature => "invalid ownership timestamp signature"
  | invalidClaimingHeadSignature => "invalid claiming tree head signature"
  | invalidClaimingProof => "invalid claiming inclusion proof"
  | invalidClaimedHeadSignature => "invalid claimed tree head signature"
  | invalidClaimedProof => "invalid claimed inclusion proof"
  | contentHashMismatch => "this is not your content"
  | notEarlier => "claimed content was first"
  | notLater => "claimed content was first"
  | invalidLeafSignature => "invalid claiming leaf signature"
  | undecryptable => "could not decrypt claim data"

/-- What a claimant is told: the payload, or why there is none. -/
structure Verdict where
  granted : Bool
  data : String
deriving DecidableEq, Repr

/-- The verdict on a judged claim. A payload that is no text is told with replacement characters. -/
def Verdict.of : Except Denial Bytes → Verdict
  | .ok payload => ⟨true, textLossy payload⟩
  | .error denial => ⟨false, denial.message⟩

/-- Whether both the head's signature and the hashes of a proof hold. -/
def Suite.verifyProof (suite : Suite) (key : PublicKey) (proof : InclusionProof) : Bool :=
  suite.verifyHead key proof.head && proof.verifyHashes suite.hash

/-- What a judge knows: the authority's public key and the key that payloads are sealed under. -/
structure Adjudicator where
  authority : PublicKey
  key : SealingKey

namespace Adjudicator

/-- Nothing if the condition holds, else the denial. -/
def require (condition : Bool) (denial : Denial) : Except Denial Unit :=
  if condition then .ok () else .error denial

/-- Nothing stands against a private claim but, perhaps, the payload. -/
def checkPrivate (suite : Suite) (judge : Adjudicator) (claiming : SignedOwnership)
    (claimed : InclusionProof) : Except Denial Unit := do
  require (suite.verifyOwnership judge.authority claiming) .invalidOwnershipSignature
  require (suite.verifyHead judge.authority claimed.head) .invalidClaimedHeadSignature
  require (claimed.verifyHashes suite.hash) .invalidClaimedProof
  require (claiming.ownership.contentHash = claimed.leaf.ownership.contentHash)
    .contentHashMismatch
  require (claiming.timestamp.isBefore claimed.leaf.created) .notEarlier

/-- Nothing stands against a public claim but, perhaps, the payload. -/
def checkPublic (suite : Suite) (judge : Adjudicator) (claiming claimed : InclusionProof)
    (signature : Bytes) : Except Denial Unit := do
  require (suite.verifyHead judge.authority claiming.head) .invalidClaimingHeadSignature
  require (claiming.verifyHashes suite.hash) .invalidClaimingProof
  require (suite.verifyHead judge.authority claimed.head) .invalidClaimedHeadSignature
  require (claimed.verifyHashes suite.hash) .invalidClaimedProof
  require (claiming.leaf.ownership.contentHash = claimed.leaf.ownership.contentHash)
    .contentHashMismatch
  require (claiming.index < claimed.index) .notLater
  require (suite.verifyLeaf claiming.leaf.publicKey claiming.leaf signature) .invalidLeafSignature

/-- The payload behind a claim that passed its checks. -/
def release (suite : Suite) (judge : Adjudicator) (domain : Domain) (sealed : Bytes) :
    Except Denial Bytes :=
  match suite.openPayload judge.key domain sealed with
  | some payload => .ok payload
  | none => .error .undecryptable

/-- Grant the private payload of the claimed leaf if `claiming` registered its content earlier. -/
def judgePrivate (suite : Suite) (judge : Adjudicator) (claiming : SignedOwnership)
    (claimed : InclusionProof) : Except Denial Bytes := do
  judge.checkPrivate suite claiming claimed
  judge.release suite .privateClaim claimed.leaf.privateData

/-- Grant the public payload of the claimed leaf if the claiming leaf is an earlier one with the
same content and the signature is by its key. -/
def judgePublic (suite : Suite) (judge : Adjudicator) (claiming claimed : InclusionProof)
    (signature : Bytes) : Except Denial Bytes := do
  judge.checkPublic suite claiming claimed signature
  judge.release suite .publicClaim claimed.leaf.publicData

/-- An artifact from its bytes, as part of a claim. -/
def readArtifact {α : Type} (decoded : Except WireError α) : Except Denial α :=
  match decoded with
  | .ok artifact => .ok artifact
  | .error cause => .error (.malformed cause)

/-- The verdict on a private claim over serialized artifacts. -/
def claimPrivate (suite : Suite) (judge : Adjudicator) (claiming claimed : Bytes) : Verdict :=
  .of do
    let claiming ← readArtifact (SignedOwnership.decode claiming)
    let claimed ← readArtifact (InclusionProof.decode claimed)
    judge.judgePrivate suite claiming claimed

/-- The verdict on a public claim over serialized artifacts. -/
def claimPublic (suite : Suite) (judge : Adjudicator) (claiming claimed signature : Bytes) :
    Verdict :=
  .of do
    let claiming ← readArtifact (InclusionProof.decode claiming)
    let claimed ← readArtifact (InclusionProof.decode claimed)
    judge.judgePublic suite claiming claimed signature

end Adjudicator

end OwnershipLog
