import OwnershipLog.Claim
import OwnershipLog.Service
import OwnershipLog.Text.Hex

/-!
# Clients

A client deals with the log and with a monitor that judges its claims, only
through serialized artifacts, and checks everything the log sends before keeping
it. What it keeps from a registration is a filing, to be shown in a later claim.
-/

namespace OwnershipLog

/-- Why a client's request came to nothing. -/
inductive ClientError where
  /-- The log refused. -/
  | log (cause : LogError)
  /-- The log's answer cannot be read. -/
  | codec (cause : WireError)
  | invalidHead
  | invalidOwnership
  | invalidProof
  /-- The log answered for other content. -/
  | wrongHash
deriving DecidableEq, Repr

/-- The wording of each cause. -/
def ClientError.message : ClientError → String
  | log cause => "log error: " ++ cause.message
  | codec cause => "malformed response: " ++ cause.message
  | invalidHead => "invalid sth signature"
  | invalidOwnership => "invalid sot signature"
  | invalidProof => "invalid proof"
  | wrongHash => "artifact for wrong hash"

/-- What a client keeps after registering. -/
inductive Filing where
  /-- The bytes of a signed ownership. -/
  | ownership (bytes : Bytes)
  /-- The bytes of the proof of the client's own leaf. -/
  | proof (bytes : Bytes)
deriving DecidableEq

/-- The bytes that a filing holds. -/
def Filing.bytes : Filing → Bytes
  | ownership bytes => bytes
  | proof bytes => bytes

/-- A client: its signing seed, the log's public key, and the monitor it turns to. -/
structure Client where
  seed : Seed
  logKey : PublicKey
  monitor : Adjudicator

namespace Client

variable {S R W : Type} [Store S R W]

/-- A client of the service as it runs now. -/
def ofService (suite : Suite) (seed : Seed) (monitor : Adjudicator) (service : Service S) :
    Client := ⟨seed, service.publicKey suite, monitor⟩

/-- The client's own public key. -/
def publicKey (suite : Suite) (client : Client) : PublicKey := suite.publicKey client.seed

/-- An answer of the log as the client sees it. -/
def answered {α : Type} : Except LogError α → Except ClientError α
  | .ok a => .ok a
  | .error cause => .error (.log cause)

/-- An artifact as the client reads it. -/
def readable {α : Type} : Except WireError α → Except ClientError α
  | .ok a => .ok a
  | .error cause => .error (.codec cause)

/-- Nothing if the condition holds, else the error. -/
def require (condition : Bool) (error : ClientError) : Except ClientError Unit :=
  if condition then .ok () else .error error

/-- The size of the current head and its root as text, once its signature is checked. -/
def checkHead (suite : Suite) (client : Client) (bytes : Bytes) :
    Except ClientError (UInt64 × String) := do
  let head ← readable (TreeHead.decode bytes)
  require (suite.verifyHead client.logKey head) .invalidHead
  return (head.size, hex head.root.toBytes)

/-- Fetch and check the current head. -/
def fetchHead (suite : Suite) (now : Timestamp) (client : Client) (service : Service S) :
    Except ClientError (UInt64 × String) × Service S :=
  let (result, service) := service.head suite now
  (answered result >>= client.checkHead suite, service)

/-- The filing that a signed ownership of `content` makes. -/
def checkOwnership (suite : Suite) (client : Client) (content : Digest) (bytes : Bytes) :
    Except ClientError Filing := do
  let signed ← readable (SignedOwnership.decode bytes)
  require (suite.verifyOwnership client.logKey signed) .invalidOwnership
  require (signed.ownership.contentHash = content) .wrongHash
  return .ownership bytes

/-- Register privately and keep the signed ownership. -/
def preregister (suite : Suite) (now : Timestamp) (content : Digest) (name : String)
    (client : Client) (service : Service S) : Except ClientError Filing := do
  let bytes ← answered (service.signOwnership suite now content.toBytes name)
  client.checkOwnership suite content bytes

/-- The filing that the proof of a leaf for `content` makes. -/
def checkProof (suite : Suite) (client : Client) (content : Digest) (bytes : Bytes) :
    Except ClientError Filing := do
  let proof ← readable (InclusionProof.decode bytes)
  require (suite.verifyProof client.logKey proof) .invalidProof
  require (proof.leaf.ownership.contentHash = content) .wrongHash
  return .proof bytes

/-- Log a leaf at the instant `now`, then keep its proof as of `later`; the result is its index and
the filing. -/
def register (suite : Suite) (now later : Timestamp) (nonces : Nonce × Nonce) (content : Digest)
    (name privatePayload publicPayload : String) (client : Client) (service : Service S) :
    Except ClientError (UInt64 × Filing) × Service S :=
  let entry : Service.Entry := ⟨content.toBytes, name, (client.publicKey suite).toBytes,
    utf8 privatePayload, utf8 publicPayload⟩
  match service.append suite now nonces entry with
  | (.error e, service) => (.error (.log e), service)
  | (.ok index, service) =>
    let (result, service) := service.proof suite later index
    (do
      let filing ← client.checkProof suite content (← answered result)
      return (index, filing), service)

/-- The verdict on a claim with a filing, over the bytes of the claimed leaf's proof. -/
def present (suite : Suite) (client : Client) (filing : Filing) (claimed : Bytes) :
    Except ClientError Verdict :=
  match filing with
  | .ownership own => .ok (client.monitor.claimPrivate suite own claimed)
  | .proof own => do
    let proof ← readable (InclusionProof.decode own)
    let signature ← readable (suite.signLeaf client.seed proof.leaf)
    return client.monitor.claimPublic suite own claimed signature.toBytes

/-- Dispute the leaf at an index with a filing. -/
def claim (suite : Suite) (now : Timestamp) (filing : Filing) (index : UInt64) (client : Client)
    (service : Service S) : Except ClientError Verdict × Service S :=
  let (result, service) := service.proof suite now index
  (answered result >>= client.present suite filing, service)

end Client

end OwnershipLog
