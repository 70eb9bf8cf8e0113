import OwnershipLog.Claim
import OwnershipLog.Proofs.Merkle.Climb
import OwnershipLog.Proofs.Service.Answers

/-!
# What the service serves

Artifacts leave the service as bytes. The proof that is served for a leaf of the log
has bytes that decode to it (`exists_encode_proofOf`), and it verifies under the
service's key whatever the size of the log (`verifyProof_proofOf`). A proof may show
zero beside its path only where the log has no leaf, so this asks that nothing the
tree hashes has the hash zero (`ZeroFree`).
-/

namespace OwnershipLog

namespace Service

variable {suite : Suite} {keys : KeyMaterial}

/-! ## Leaves that were logged -/

namespace Logged

theorem created_eq (l : Logged suite keys) : l.leaf.created = l.now := by
  obtain ⟨o, privateData, publicData, -, -, -, hleaf⟩ := leafOf_eq_ok_iff.1 l.made
  rw [leaf, hleaf]

theorem publicKey_eq (l : Logged suite keys) : l.leaf.publicKey = l.entry.publicKey := by
  obtain ⟨o, privateData, publicData, -, -, -, hleaf⟩ := leafOf_eq_ok_iff.1 l.made
  rw [leaf, hleaf]

theorem contentHash_eq (l : Logged suite keys) :
    l.leaf.ownership.contentHash.toBytes = l.entry.contentHash := by
  obtain ⟨o, privateData, publicData, ho, -, -, hleaf⟩ := leafOf_eq_ok_iff.1 l.made
  rw [leaf, hleaf]
  exact (ownershipOf_eq_ok_iff.1 ho).2.1

/-- Leaves are for the same content when their entries are. -/
theorem contentHash_eq_iff (l l' : Logged suite keys) :
    l.leaf.ownership.contentHash = l'.leaf.ownership.contentHash ↔
      l.entry.contentHash = l'.entry.contentHash := by
  rw [← l.contentHash_eq, ← l'.contentHash_eq, Octets.ext_iff]

/-- The public payload of a leaf that was logged opens to that of its entry. -/
theorem openPayload_public (hown : suite.DecryptsOwn) (l : Logged suite keys) :
    suite.openPayload keys.key .publicClaim l.leaf.publicData = some l.entry.publicPayload := by
  obtain ⟨o, privateData, publicData, -, -, hpublic, hleaf⟩ := leafOf_eq_ok_iff.1 l.made
  rw [leaf, hleaf]
  exact Suite.openPayload_of_sealPayload hown hpublic

/-- The private payload of a leaf that was logged opens to that of its entry. -/
theorem openPayload_private (hown : suite.DecryptsOwn) (l : Logged suite keys) :
    suite.openPayload keys.key .privateClaim l.leaf.privateData = some l.entry.privatePayload := by
  obtain ⟨o, privateData, publicData, -, hprivate, -, hleaf⟩ := leafOf_eq_ok_iff.1 l.made
  rw [leaf, hleaf]
  exact Suite.openPayload_of_sealPayload hown hprivate

end Logged

/-! ## Logs without the hash zero -/

theorem bytesOf_writtenOf_take (log : List (Logged suite keys)) (n : Nat) :
    bytesOf (writtenOf (log.take n)) = (bytesOf (writtenOf log)).take n := by
  rw [bytesOf, writtenOf, List.map_take, List.map_take]
  rfl

/-- No string that the tree of a log is built from has the hash of a node without leaves. -/
def ZeroFree (log : List (Logged suite keys)) : Prop :=
  ∀ x ∈ Merkle.buildInputs suite.hash (bytesOf (writtenOf log)), suite.hash x ≠ Digest.zero

instance (log : List (Logged suite keys)) : Decidable (ZeroFree log) :=
  inferInstanceAs (Decidable (∀ x ∈ Merkle.buildInputs suite.hash (bytesOf (writtenOf log)),
    suite.hash x ≠ Digest.zero))

variable {log : List (Logged suite keys)}

theorem ZeroFree.take (h : ZeroFree log) (n : Nat) : ZeroFree (log.take n) := by
  intro x hx
  rw [bytesOf_writtenOf_take] at hx
  exact h x (mem_buildInputs_of_take suite.hash hx)

theorem ZeroFree.of_append {later : List (Logged suite keys)} (h : ZeroFree (log ++ later)) :
    ZeroFree log := by
  have htake := h.take log.length
  rwa [List.take_left] at htake

/-- Then no leaf and no node of the tree of the log has that hash. -/
theorem ZeroFree.nowhereZero (h : ZeroFree log) (hle : log.length ≤ 2 ^ 63) :
    suite.hash.NowhereZero (bytesOf (writtenOf log)) :=
  nowhereZero_of_buildInputs (by rwa [length_bytesOf, length_writtenOf]) h

/-! ## Proofs -/

/-- The proof of a leaf of the log verifies. -/
theorem verifyProof_proofOf (hown : suite.VerifiesOwn) (hle : log.length ≤ 2 ^ 63)
    (hzero : suite.hash.NowhereZero (bytesOf (writtenOf log))) (now : Timestamp) {index : UInt64}
    {l : Logged suite keys} (hat : log[index.toNat]? = some l) :
    suite.verifyProof (suite.publicKey keys.seed) (proofOf log now index l.leaf) = true := by
  have hbytes : (bytesOf (writtenOf log))[index.toNat]? = some l.written.bytes := by
    rw [getElem?_bytesOf, getElem?_writtenOf, hat]
    rfl
  have hsize : (UInt64.ofNat log.length).toNat = (bytesOf (writtenOf log)).length := by
    rw [toNat_ofNat_of_le hle, length_bytesOf, length_writtenOf]
  rw [Suite.verifyProof, Bool.and_eq_true]
  constructor
  · exact Suite.verifyHead_signHead hown keys.seed _
  · exact verifyHashes_complete (by rwa [length_bytesOf, length_writtenOf]) hsize rfl
      l.written.encode_eq hbytes rfl hzero

/-- The proof of a leaf of the log has bytes, and they decode to it. -/
theorem exists_encode_proofOf (hle : log.length ≤ 2 ^ 63) (now : Timestamp) (index : UInt64)
    (l : Logged suite keys) :
    ∃ bytes, (proofOf log now index l.leaf).encode = .ok bytes ∧
      InclusionProof.decode bytes = .ok (proofOf log now index l.leaf) := by
  have hdepth : Span.depth log.length ≤ 63 := Span.depth_le hle
  have hhashes : (proofOf log now index l.leaf).hashes.length ≤ maxHashes := by
    rw [proofOf, HashFunction.pathHashes, length_besides, length_bytesOf, length_writtenOf]
    exact Nat.le_trans hdepth (by decide)
  have hencode := InclusionProof.encode_of_leaf (p := proofOf log now index l.leaf)
    l.written.encode_eq hhashes
  exact ⟨_, hencode, InclusionProof.decode_encode hencode⟩

/-! ## Bytes -/

variable {S R W : Type} [Store S R W]

/-- The judge who knows the public key of a service and the key that it seals under. -/
def judge (suite : Suite) (service : Service S) : Adjudicator :=
  ⟨service.publicKey suite, service.keys.key⟩

variable [LawfulStore S R W] {service : Service S}

namespace Holds

theorem head (h : Holds suite keys log service) (hle : log.length ≤ 2 ^ 63) (now : Timestamp) :
    ∃ service', service.head suite now = (.ok (headOf log now).encode, service') ∧
      Holds suite keys log service' := by
  obtain ⟨service', hhead, h'⟩ := h.signedHead hle now
  refine ⟨service', ?_, h'⟩
  rw [Service.head, hhead]
  rfl

theorem proof (h : Holds suite keys log service) (hle : log.length ≤ 2 ^ 63) (now : Timestamp)
    {index : UInt64} {l : Logged suite keys} (hat : log[index.toNat]? = some l) :
    ∃ bytes service', service.proof suite now index = (.ok bytes, service') ∧
      InclusionProof.decode bytes = .ok (proofOf log now index l.leaf) ∧
      Holds suite keys log service' := by
  obtain ⟨bytes, hencode, hdecode⟩ := exists_encode_proofOf hle now index l
  obtain ⟨service', hproof, h'⟩ := h.signedProof hle now hat
  refine ⟨bytes, service', ?_, hdecode, h'⟩
  rw [Service.proof, hproof]
  show ((proofOf log now index l.leaf).encode.mapError LogError.codec, service') = _
  rw [hencode]
  rfl

/-- Past the end of the log nothing is served. -/
theorem proof_of_le (h : Holds suite keys log service) (hle : log.length ≤ 2 ^ 63)
    (now : Timestamp) {index : UInt64} (hpast : log.length ≤ index.toNat) :
    ∃ service', service.proof suite now index =
        (.error (.indexOutOfRange index (UInt64.ofNat log.length)), service') ∧
      Holds suite keys log service' := by
  obtain ⟨service', hproof, h'⟩ := h.signedProof_of_le hle now hpast
  refine ⟨service', ?_, h'⟩
  rw [Service.proof, hproof]
  rfl

/-- Serving a proof leaves the log as it is, whether there is one or not. -/
theorem after_proof (h : Holds suite keys log service) (hle : log.length ≤ 2 ^ 63)
    (now : Timestamp) (index : UInt64) :
    Holds suite keys log (service.proof suite now index).2 := by
  cases hat : log[index.toNat]? with
  | some l =>
      obtain ⟨bytes, service', hproof, -, h'⟩ := h.proof hle now hat
      rwa [hproof]
  | none =>
      obtain ⟨service', hproof, h'⟩ := h.proof_of_le hle now (List.getElem?_eq_none_iff.1 hat)
      rwa [hproof]

/-- An ownership is signed for every name that fits its length byte. -/
theorem signOwnership (h : Holds suite keys log service) (hown : suite.VerifiesOwn)
    (now : Timestamp) (content : Digest) {name : String} (hname : name.utf8ByteSize ≤ maxName) :
    ∃ bytes signature, service.signOwnership suite now content.toBytes name = .ok bytes ∧
      SignedOwnership.decode bytes = .ok ⟨now, ⟨content, name⟩, signature⟩ ∧
      suite.verifyOwnership (suite.publicKey keys.seed) ⟨now, ⟨content, name⟩, signature⟩ =
        true := by
  have hownership : ownershipOf content.toBytes name = .ok ⟨content, name⟩ :=
    ownershipOf_eq_ok_iff.2 ⟨hname, rfl, rfl⟩
  obtain ⟨x, bytes, hpreimage, hsign, hdecode⟩ :=
    exists_signOwnership service now hownership
  rw [h.keys_eq] at hdecode
  exact ⟨bytes, _, hsign, hdecode, Suite.verifyOwnership_sign hown keys.seed hpreimage⟩

end Holds

end Service

end OwnershipLog
