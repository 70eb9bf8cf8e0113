import OwnershipLog.Follower
import OwnershipLog.Payload
import OwnershipLog.Signing
import OwnershipLog.Tree

/-!
# The service

What the log offers to others: requests are raw fields, answers are wire bytes.
Heads and proofs leave signed, payloads are sealed before they reach the tree,
and entries are served in pages of limited length.
-/

namespace OwnershipLog

/-- The log's secrets: the seed of its signing key and the key that payloads are sealed under. -/
structure KeyMaterial where
  seed : Seed
  key : SealingKey
deriving DecidableEq

/-- A log in a store, with the keys that it signs and seals with. -/
structure Service (S : Type) where
  keys : KeyMaterial
  maxPage : UInt64
  tree : Tree
  store : S

namespace Service

variable {S R W : Type} [Store S R W]

/-- Serve the log that the store holds. Pages must not be empty. -/
def start (now : Timestamp) (keys : KeyMaterial) (maxPage : UInt64) (s : S) :
    Except LogError (Service S) × S :=
  if maxPage = 0 then (.error (.config .zeroPage), s)
  else match Tree.attach now s with
    | (.ok tree, s) => (.ok ⟨keys, maxPage, tree, s⟩, s)
    | (.error e, s) => (.error e, s)

/-- The key that the service's heads and ownerships verify under. -/
def publicKey (suite : Suite) (service : Service S) : PublicKey :=
  suite.publicKey service.keys.seed

/-- The number of leaves as of the last append through the service. -/
def size (service : Service S) : UInt64 := service.tree.size

/-- Run an operation that reads the store. -/
def reading {α : Type} (operation : S → Except LogError α × S) (service : Service S) :
    Except LogError α × Service S :=
  let (result, s) := operation service.store
  (result, { service with store := s })

/-- An ownership from request fields. The content hash is judged first. -/
def ownershipOf (contentHash : Bytes) (name : String) : Except LogError Ownership :=
  if contentHash.length ≠ 32 then .error (.invalidContentHash contentHash.length)
  else match Ownership.ofFields contentHash name with
    | .ok ownership => .ok ownership
    | .error cause => .error (.codec cause)

/-- The signed head. -/
def signedHead (suite : Suite) (now : Timestamp) (service : Service S) :
    Except LogError TreeHead × Service S :=
  let (result, service') := service.reading (Tree.head suite.hash now)
  (result.map (suite.signHead service.keys.seed), service')

/-- The bytes of the signed head. -/
def head (suite : Suite) (now : Timestamp) (service : Service S) :
    Except LogError Bytes × Service S :=
  let (result, service) := service.signedHead suite now
  (result.map TreeHead.encode, service)

/-- What an entry asks to be logged: raw fields, with the payloads still open. -/
structure Entry where
  contentHash : Bytes
  name : String
  publicKey : Bytes
  privatePayload : Bytes
  publicPayload : Bytes

/-- A payload sealed under the service's key. -/
def sealed (suite : Suite) (keys : KeyMaterial) (domain : Domain) (nonce : Nonce)
    (payload : Bytes) : Except LogError Bytes :=
  match suite.sealPayload keys.key domain nonce payload with
  | some bytes => .ok bytes
  | none => .error .encryption

/-- The leaf that an entry becomes: its ownership is judged, then both payloads are sealed. -/
def leafOf (suite : Suite) (keys : KeyMaterial) (now : Timestamp) (nonces : Nonce × Nonce)
    (entry : Entry) : Except LogError Leaf := do
  let ownership ← ownershipOf entry.contentHash entry.name
  let privateData ← sealed suite keys .privateClaim nonces.1 entry.privatePayload
  let publicData ← sealed suite keys .publicClaim nonces.2 entry.publicPayload
  return ⟨now, ownership, entry.publicKey, privateData, publicData⟩

/-- Log an entry and answer its index. -/
def append (suite : Suite) (now : Timestamp) (nonces : Nonce × Nonce) (entry : Entry)
    (service : Service S) : Except LogError UInt64 × Service S :=
  match leafOf suite service.keys now nonces entry with
  | .error e => (.error e, service)
  | .ok leaf =>
    let (result, tree, s) := Tree.append suite.hash now leaf service.tree service.store
    (result, { service with tree := tree, store := s })

/-- The bytes of a signed ownership; nothing is logged. -/
def signOwnership (suite : Suite) (now : Timestamp) (contentHash : Bytes) (name : String)
    (service : Service S) : Except LogError Bytes := do
  let ownership ← ownershipOf contentHash name
  match suite.signOwnership service.keys.seed now ownership >>= SignedOwnership.encode with
  | .ok bytes => return bytes
  | .error cause => throw (.codec cause)

/-- Why a range of entries is refused, given the size that the service knows. -/
def rangeError? (start stop maxPage size : UInt64) : Option LogError :=
  if stop ≤ start then some (.invalidRange start stop .empty)
  else if maxPage < stop - start then some (.invalidRange start stop .exceedsPage)
  else if size ≤ start then some (.indexOutOfRange start size)
  else none

/-- The leaves from `start` up to `stop` or the end of the log. -/
def leaves (now : Timestamp) (start stop : UInt64) (service : Service S) :
    Except LogError (List Leaf) × Service S :=
  match rangeError? start stop service.maxPage service.size with
  | some e => (.error e, service)
  | none => service.reading (Tree.leaves now start stop)

/-- The byte forms of the leaves from `start` up to `stop` or the end of the log. -/
def entries (now : Timestamp) (start stop : UInt64) (service : Service S) :
    Except LogError (List Bytes) × Service S :=
  let (result, service) := service.leaves now start stop
  (result >>= fun leaves => leaves.mapM fun leaf => leaf.encode.mapError .codec, service)

/-- The signed proof for the leaf at an index. -/
def signedProof (suite : Suite) (now : Timestamp) (index : UInt64) (service : Service S) :
    Except LogError InclusionProof × Service S :=
  let (result, service') := service.reading (Tree.proof suite.hash now index)
  (result.map fun p => { p with head := suite.signHead service.keys.seed p.head }, service')

/-- The bytes of the signed proof for the leaf at an index. -/
def proof (suite : Suite) (now : Timestamp) (index : UInt64) (service : Service S) :
    Except LogError Bytes × Service S :=
  let (result, service) := service.signedProof suite now index
  (result >>= fun p => p.encode.mapError .codec, service)

/-- The service as a source of leaves. -/
def source (now : Timestamp) : LeafSource (Service S) where
  size service := (.ok service.size, service)
  entries start stop service := service.leaves now start stop

end Service

/-- A tree in a store as a source of leaves. -/
def Tree.source {S R W : Type} [Store S R W] (now : Timestamp) : LeafSource (Tree × S) where
  size := fun (tree, s) => (.ok tree.size, tree, s)
  entries := fun start stop (tree, s) =>
    let (result, s) := Tree.leaves now start stop s
    (result, tree, s)

end OwnershipLog
