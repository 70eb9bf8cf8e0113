import OwnershipLog.Proofs.Service.Signed
import OwnershipLog.Proofs.Tree.Inclusion
import OwnershipLog.Service

/-!
# What the service answers

A log of the service is a list of entries, each with the leaf that it became
(`Service.Logged`). `Service.Holds` says that the tree of a service holds the leaves
of such a log; every operation of the service keeps it, and only an entry that is
logged makes the log longer. Heads and proofs are answered as the reference hashes
of the log have them, with the authority's signature.
-/

namespace OwnershipLog

namespace Service

variable {suite : Suite} {keys : KeyMaterial}

/-! ## The leaf of an entry -/

/-- The service accepts a content hash of 32 bytes and a name that fits its length byte. -/
theorem ownershipOf_eq_ok_iff {contentHash : Bytes} {name : String} {o : Ownership} :
    ownershipOf contentHash name = .ok o ↔
      name.utf8ByteSize ≤ maxName ∧ o.contentHash.toBytes = contentHash ∧ o.name = name := by
  constructor
  · intro h
    rw [ownershipOf] at h
    split at h
    · cases h
    · cases hfields : Ownership.ofFields contentHash name with
      | error cause =>
          rw [hfields] at h
          cases h
      | ok o' =>
          rw [hfields] at h
          cases h
          rw [Ownership.ofFields] at hfields
          split at hfields
          · cases hfields
          · rename_i hname
            cases hhash : Octets.ofBytes? 32 contentHash with
            | none =>
                rw [hhash] at hfields
                cases hfields
            | some digest =>
                rw [hhash] at hfields
                cases hfields
                exact ⟨Nat.not_lt.1 hname, Octets.ofBytes?_eq_some_iff.1 hhash, rfl⟩
  · rintro ⟨hname, rfl, rfl⟩
    have hfields : Ownership.ofFields o.contentHash.toBytes o.name = .ok o := by
      rw [Ownership.ofFields, if_neg (Nat.not_lt.2 hname), Octets.ofBytes?_toBytes]
    rw [ownershipOf, if_neg (by simp [o.contentHash.length_toBytes]), hfields]

/-- An ownership that the service accepts has a byte form. -/
theorem encode_of_ownershipOf {contentHash : Bytes} {name : String} {o : Ownership}
    (h : ownershipOf contentHash name = .ok o) : ∃ bytes, o.encode = .ok bytes := by
  obtain ⟨hname, -, rfl⟩ := ownershipOf_eq_ok_iff.1 h
  have hlength : (utf8 o.name).length = o.name.utf8ByteSize := by simp [utf8]
  exact ⟨_, Ownership.encode_eq_ok_iff.2 ⟨by rwa [hlength], rfl⟩⟩

theorem sealed_eq_ok_iff {domain : Domain} {nonce : Nonce} {payload bytes : Bytes} :
    sealed suite keys domain nonce payload = .ok bytes ↔
      suite.sealPayload keys.key domain nonce payload = some bytes := by
  rw [sealed]
  cases suite.sealPayload keys.key domain nonce payload with
  | none => simp
  | some body => simp

theorem leafOf_eq_ok_iff {now : Timestamp} {nonces : Nonce × Nonce} {entry : Entry} {leaf : Leaf} :
    leafOf suite keys now nonces entry = .ok leaf ↔
      ∃ o privateData publicData, ownershipOf entry.contentHash entry.name = .ok o ∧
        suite.sealPayload keys.key .privateClaim nonces.1 entry.privatePayload = some privateData ∧
        suite.sealPayload keys.key .publicClaim nonces.2 entry.publicPayload = some publicData ∧
        leaf = ⟨now, o, entry.publicKey, privateData, publicData⟩ := by
  rw [leafOf, bind_eq_ok_iff]
  simp only [bind_eq_ok_iff, sealed_eq_ok_iff]
  constructor
  · rintro ⟨o, ho, privateData, hprivate, publicData, hpublic, heq⟩
    cases heq
    exact ⟨o, privateData, publicData, ho, hprivate, hpublic, rfl⟩
  · rintro ⟨o, privateData, publicData, ho, hprivate, hpublic, rfl⟩
    exact ⟨o, ho, privateData, hprivate, publicData, hpublic, rfl⟩

/-- An entry that is logged, with the leaf that it becomes. -/
structure Logged (suite : Suite) (keys : KeyMaterial) where
  now : Timestamp
  nonces : Nonce × Nonce
  entry : Entry
  written : Leaf.Written
  made : leafOf suite keys now nonces entry = .ok written.leaf

/-- The leaf of an entry that is logged. -/
def Logged.leaf (l : Logged suite keys) : Leaf := l.written.leaf

/-- The entry with its leaf, if it can be logged: if it has a leaf, and the leaf a byte form. -/
def logged? (suite : Suite) (keys : KeyMaterial) (now : Timestamp) (nonces : Nonce × Nonce)
    (entry : Entry) : Option (Logged suite keys) :=
  match h : leafOf suite keys now nonces entry with
  | .error _ => none
  | .ok leaf => match h' : leaf.encode with
    | .error _ => none
    | .ok bytes => some ⟨now, nonces, entry, ⟨leaf, bytes, h'⟩, h⟩

theorem logged?_of_ok {now : Timestamp} {nonces : Nonce × Nonce} {entry : Entry} {leaf : Leaf}
    {bytes : Bytes} (h : leafOf suite keys now nonces entry = .ok leaf)
    (h' : leaf.encode = .ok bytes) :
    logged? suite keys now nonces entry = some ⟨now, nonces, entry, ⟨leaf, bytes, h'⟩, h⟩ := by
  unfold logged?
  split
  · rename_i cause heq
    cases h.symm.trans heq
  · rename_i leaf' heq
    cases h.symm.trans heq
    split
    · rename_i cause heq'
      cases h'.symm.trans heq'
    · rename_i bytes' heq'
      cases h'.symm.trans heq'
      rfl

theorem entry_of_logged? {now : Timestamp} {nonces : Nonce × Nonce} {entry : Entry}
    {l : Logged suite keys} (h : logged? suite keys now nonces entry = some l) :
    l.now = now ∧ l.nonces = nonces ∧ l.entry = entry := by
  unfold logged? at h
  split at h
  · cases h
  · split at h
    · cases h
    · cases h
      exact ⟨rfl, rfl, rfl⟩

/-- The leaves of a log of entries, with their byte forms. -/
def writtenOf (log : List (Logged suite keys)) : List Leaf.Written := log.map Logged.written

@[simp] theorem length_writtenOf (log : List (Logged suite keys)) :
    (writtenOf log).length = log.length := List.length_map _

theorem getElem?_writtenOf (log : List (Logged suite keys)) (i : Nat) :
    (writtenOf log)[i]? = log[i]?.map Logged.written := List.getElem?_map

/-- The root hash of a log of entries. -/
def rootOf (log : List (Logged suite keys)) : Digest :=
  suite.hash.rootHash (bytesOf (writtenOf log))

/-- The signed head of a log of entries. -/
def headOf (log : List (Logged suite keys)) (now : Timestamp) : TreeHead :=
  suite.signHead keys.seed ⟨UInt64.ofNat log.length, now, rootOf log, none⟩

/-- The signed proof for the leaf at an index of a log of entries. -/
def proofOf (log : List (Logged suite keys)) (now : Timestamp) (index : UInt64) (leaf : Leaf) :
    InclusionProof :=
  ⟨headOf log now, index, leaf, suite.hash.pathHashes (bytesOf (writtenOf log)) index.toNat⟩

/-! ## Operations -/

variable {S R W : Type} [Store S R W]

section

variable {service : Service S}

/-- An entry without a leaf is refused before the store is touched. -/
theorem append_of_leafOf {now : Timestamp} {nonces : Nonce × Nonce} {entry : Entry} {e : LogError}
    (h : leafOf suite service.keys now nonces entry = .error e) :
    service.append suite now nonces entry = (.error e, service) := by
  rw [append, h]

theorem append_of_encode {now : Timestamp} {nonces : Nonce × Nonce} {entry : Entry} {leaf : Leaf}
    {cause : WireError} (h : leafOf suite service.keys now nonces entry = .ok leaf)
    (hencode : leaf.encode = .error cause) :
    service.append suite now nonces entry = (.error (.codec cause), service) := by
  rw [append, h]
  simp only [Tree.append, hencode]

/-- An ownership that is accepted is signed, and the bytes read back as its signed form. -/
theorem exists_signOwnership (service : Service S) (now : Timestamp) {contentHash : Bytes}
    {name : String} {o : Ownership} (h : ownershipOf contentHash name = .ok o) :
    ∃ x bytes, o.preimage now = .ok x ∧
      service.signOwnership suite now contentHash name = .ok bytes ∧
      SignedOwnership.decode bytes =
        .ok ⟨now, o, suite.sign service.keys.seed (suite.hash x)⟩ := by
  obtain ⟨ownership, hownership⟩ := encode_of_ownershipOf h
  obtain ⟨x, hpreimage⟩ : ∃ x, o.preimage now = .ok x :=
    ⟨_, Ownership.preimage_eq_ok_iff.2 ⟨ownership, hownership, rfl⟩⟩
  have hsigned : suite.signOwnership service.keys.seed now o = _ :=
    Suite.signOwnership_of_ok hpreimage service.keys.seed
  obtain ⟨bytes, hbytes⟩ :
      ∃ bytes, SignedOwnership.encode ⟨now, o, suite.sign service.keys.seed (suite.hash x)⟩ =
        .ok bytes :=
    ⟨_, SignedOwnership.encode_eq_ok_iff.2 ⟨ownership, hownership, rfl⟩⟩
  refine ⟨x, bytes, hpreimage, ?_, SignedOwnership.decode_encode hbytes⟩
  rw [signOwnership, bind_eq_ok_iff]
  refine ⟨o, h, ?_⟩
  rw [bind_eq_ok_iff.2 ⟨_, hsigned, hbytes⟩]
  rfl

end

variable [LawfulStore S R W]

/-- The service has these keys, and its tree holds the leaves of the log. -/
structure Holds (suite : Suite) (keys : KeyMaterial) (log : List (Logged suite keys))
    (service : Service S) : Prop where
  keys_eq : service.keys = keys
  tree : Tree.Holds suite.hash (writtenOf log) service.tree service.store

variable {log : List (Logged suite keys)} {service : Service S}

/-- A service over an empty store begins with an empty log. -/
theorem start_holds {s₀ : S} (hready : LawfulStore.Ready s₀)
    (hempty : LawfulStore.view s₀ = View.empty) (suite : Suite) (now : Timestamp)
    (keys : KeyMaterial) {maxPage : UInt64} (hpage : maxPage ≠ 0) :
    ∃ service s', start now keys maxPage s₀ = (.ok service, s') ∧
      Holds suite keys ([] : List (Logged suite keys)) service := by
  have hrepresents : Represents suite.hash (bytesOf []) (LawfulStore.view s₀) := by
    rw [hempty]
    exact represents_empty
  obtain ⟨s', hattach, h⟩ := Tree.attach_of_represents hready hrepresents now
  refine ⟨⟨keys, maxPage, ⟨UInt64.ofNat 0⟩, s'⟩, s', ?_, rfl, h⟩
  rw [start, if_neg hpage, hattach]
  rfl

namespace Holds

/-- An entry that can be logged goes to the end of the log, and its index is answered. -/
theorem append (h : Holds suite keys log service) (hlt : log.length < 2 ^ 63) {now : Timestamp}
    {nonces : Nonce × Nonce} {entry : Entry} {l : Logged suite keys}
    (hlogged : logged? suite keys now nonces entry = some l) :
    ∃ service', service.append suite now nonces entry = (.ok (UInt64.ofNat log.length), service') ∧
      Holds suite keys (log ++ [l]) service' := by
  obtain ⟨rfl, rfl, rfl⟩ := entry_of_logged? hlogged
  obtain ⟨tree, s, happend, htree⟩ :=
    h.tree.append (by rwa [length_writtenOf]) l.now l.written
  refine ⟨{ service with tree := tree, store := s }, ?_, h.keys_eq, ?_⟩
  · rw [Service.append, h.keys_eq, l.made]
    simp only [happend, length_writtenOf]
  · rw [writtenOf, List.map_append]
    exact htree

/-- An entry that cannot be logged is refused and changes nothing. -/
theorem append_of_none (h : Holds suite keys log service) {now : Timestamp}
    {nonces : Nonce × Nonce} {entry : Entry} (hnone : logged? suite keys now nonces entry = none) :
    ∃ e, service.append suite now nonces entry = (.error e, service) := by
  have hkeys := h.keys_eq
  subst hkeys
  cases hleaf : leafOf suite service.keys now nonces entry with
  | error e => exact ⟨e, append_of_leafOf hleaf⟩
  | ok leaf =>
      cases hencode : leaf.encode with
      | ok bytes =>
          rw [logged?_of_ok hleaf hencode] at hnone
          cases hnone
      | error cause => exact ⟨.codec cause, append_of_encode hleaf hencode⟩

/-- A read of the tree leaves the service as it is. -/
theorem of_reading (h : Holds suite keys log service) {s : S}
    (htree : Tree.Holds suite.hash (writtenOf log) service.tree s) :
    Holds suite keys log { service with store := s } := ⟨h.keys_eq, htree⟩

theorem signedHead (h : Holds suite keys log service) (hle : log.length ≤ 2 ^ 63)
    (now : Timestamp) :
    ∃ service', service.signedHead suite now = (.ok (headOf log now), service') ∧
      Holds suite keys log service' := by
  obtain ⟨s, hhead, htree⟩ := h.tree.head (by rwa [length_writtenOf]) now
  refine ⟨_, ?_, h.of_reading htree⟩
  rw [Service.signedHead, reading, h.keys_eq]
  simp only [hhead, length_writtenOf]
  rfl

theorem signedProof (h : Holds suite keys log service) (hle : log.length ≤ 2 ^ 63)
    (now : Timestamp) {index : UInt64} {l : Logged suite keys} (hat : log[index.toNat]? = some l) :
    ∃ service', service.signedProof suite now index =
        (.ok (proofOf log now index l.leaf), service') ∧
      Holds suite keys log service' := by
  have hwritten : (writtenOf log)[index.toNat]? = some l.written := by
    rw [getElem?_writtenOf, hat]
    rfl
  obtain ⟨s, hproof, htree⟩ := h.tree.proof (by rwa [length_writtenOf]) now hwritten
  refine ⟨_, ?_, h.of_reading htree⟩
  rw [Service.signedProof, reading, h.keys_eq]
  simp only [hproof, length_writtenOf]
  rfl

/-- Past the end of the log there is no proof. -/
theorem signedProof_of_le (h : Holds suite keys log service) (hle : log.length ≤ 2 ^ 63)
    (now : Timestamp) {index : UInt64} (hpast : log.length ≤ index.toNat) :
    ∃ service', service.signedProof suite now index =
        (.error (.indexOutOfRange index (UInt64.ofNat log.length)), service') ∧
      Holds suite keys log service' := by
  obtain ⟨s, hproof, htree⟩ := h.tree.proof_of_le (by rwa [length_writtenOf]) now
    (by rwa [length_writtenOf])
  refine ⟨_, ?_, h.of_reading htree⟩
  rw [Service.signedProof, reading, h.keys_eq]
  simp only [hproof, length_writtenOf]
  rfl

end Holds

end Service

end OwnershipLog
