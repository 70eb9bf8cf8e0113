import OwnershipLog.Proofs.Service.Reached
import OwnershipLog.Proofs.Wire.Domain
import OwnershipLog.Suite.Standard

/-!
# What is admitted

The lengths of an entry are judged in four places: by the service, when its ownership is made, when
each field is put behind its length, and when the leaf is complete. Between the second and the third
its payloads are sealed, which makes each of them 28 bytes longer. Together they admit an entry
exactly when the leaf it becomes has a byte form (`Service.admission_is_exact`): so what is logged
can be proved, and what is refused is refused before the store is touched.
-/

namespace OwnershipLog

/-! ## Sealing -/

namespace Gcm

theorem length_keystreamOnto (keys : List Aes256.Block) (n counter : Nat) (found : Bytes) :
    (keystreamOnto keys n counter found).length = 16 * n + found.length := by
  induction n generalizing counter found with
  | zero => simp [keystreamOnto]
  | succ n ih =>
      rw [keystreamOnto, ih, List.length_append, List.length_reverse, length_bigEndian]
      omega

/-- The keystream is as long as the text or longer. -/
theorem length_mask (keys : List Aes256.Block) (nonce : Nonce) (text : Bytes) :
    (mask keys nonce text).length = text.length := by
  rw [mask, List.length_zipWith, length_keystreamOnto, List.length_nil]
  omega

end Gcm

namespace Suite

/-- Sealing adds 16 bytes to this text, whatever it is sealed under and bound to. -/
def Seals (suite : Suite) (text : Bytes) : Prop :=
  ∀ key nonce associated, ∃ body, suite.encrypt key nonce associated text = some body ∧
    body.length = text.length + 16

theorem standard_seals {text : Bytes} (h : text.length ≤ Gcm.maxText) :
    Suite.standard.Seals text := by
  intro key nonce associated
  refine ⟨_, if_pos h, ?_⟩
  rw [List.length_append, Gcm.length_mask, Gcm.tag, length_bigEndian]

theorem Seals.exists_sealPayload {suite : Suite} {text : Bytes} (h : suite.Seals text)
    (key : SealingKey) (domain : Domain) (nonce : Nonce) :
    ∃ data, suite.sealPayload key domain nonce text = some data ∧
      data.length = text.length + 28 := by
  obtain ⟨body, hbody, hlength⟩ := h key nonce domain.tag
  refine ⟨nonce.toBytes ++ body, by rw [sealPayload, hbody]; rfl, ?_⟩
  rw [List.length_append, nonce.length_toBytes, hlength]
  omega

end Suite

/-! ## The first length that does not fit -/

/-- The lengths that are measured when a leaf is written, in this order. -/
def Leaf.lengths (leaf : Leaf) : List Nat :=
  [leaf.publicKey.length, leaf.privateData.length, leaf.publicData.length, leaf.wireSize]

/-- The first of these lengths that does not fit behind two bytes. -/
def firstTooLong? (lengths : List Nat) : Option Nat := lengths.find? fun n => decide (maxField < n)

theorem firstTooLong?_cons_of_lt {n : Nat} (h : maxField < n) (lengths : List Nat) :
    firstTooLong? (n :: lengths) = some n :=
  List.find?_cons_of_pos (decide_eq_true h)

theorem firstTooLong?_cons_of_le {n : Nat} (h : n ≤ maxField) (lengths : List Nat) :
    firstTooLong? (n :: lengths) = firstTooLong? lengths :=
  List.find?_cons_of_neg (by simpa using h)

namespace Leaf

/-- The whole is longer than its parts, so it is measured last. -/
theorem firstTooLong?_lengths_eq_none_iff (leaf : Leaf) :
    firstTooLong? leaf.lengths = none ↔ leaf.wireSize ≤ maxField := by
  simp only [firstTooLong?, lengths, List.find?_eq_none, List.mem_cons, List.not_mem_nil, or_false,
    forall_eq_or_imp, forall_eq, decide_eq_true_eq, Nat.not_lt]
  constructor
  · rintro ⟨-, -, -, h⟩
    exact h
  · intro h
    have hsize := h
    rw [wireSize] at hsize
    exact ⟨by omega, by omega, by omega, h⟩

/-- A leaf whose name fits is refused for the first length that does not. -/
theorem encode_of_firstTooLong? {leaf : Leaf} {n : Nat}
    (hname : leaf.ownership.name.utf8ByteSize ≤ maxName)
    (h : firstTooLong? leaf.lengths = some n) : leaf.encode = .error (.tooLong n maxField) := by
  obtain ⟨ownership, hownership⟩ := (Ownership.exists_encode_iff _).2 hname
  have hfirst := prefixed_of_le (Ownership.length_le_maxField hownership)
  rw [lengths] at h
  -- Fields are written in the order of the list: those before the first that is too long fit.
  rcases Nat.lt_or_ge maxField leaf.publicKey.length with hkey | hkey
  · rw [firstTooLong?_cons_of_lt hkey] at h
    cases h
    simp only [encode, fields, hownership, hfirst, prefixed_of_lt hkey, bind, Except.bind]
  rw [firstTooLong?_cons_of_le hkey] at h
  rcases Nat.lt_or_ge maxField leaf.privateData.length with hprivate | hprivate
  · rw [firstTooLong?_cons_of_lt hprivate] at h
    cases h
    simp only [encode, fields, hownership, hfirst, prefixed_of_le hkey, prefixed_of_lt hprivate,
      bind, Except.bind]
  rw [firstTooLong?_cons_of_le hprivate] at h
  rcases Nat.lt_or_ge maxField leaf.publicData.length with hpublic | hpublic
  · rw [firstTooLong?_cons_of_lt hpublic] at h
    cases h
    simp only [encode, fields, hownership, hfirst, prefixed_of_le hkey, prefixed_of_le hprivate,
      prefixed_of_lt hpublic, bind, Except.bind]
  rw [firstTooLong?_cons_of_le hpublic] at h
  rcases Nat.lt_or_ge maxField leaf.wireSize with hall | hall
  · rw [firstTooLong?_cons_of_lt hall] at h
    cases h
    have hfields := fields_of_le hownership hkey hprivate hpublic
    rw [← length_layout_of_encode hownership] at hall ⊢
    exact encode_of_fields_of_lt hfields hall
  · rw [firstTooLong?_cons_of_le hall] at h
    cases h

end Leaf

/-! ## Entries -/

namespace Service

variable {suite : Suite} {keys : KeyMaterial}

/-- How many bytes the leaf of an entry takes: those of its fields, and 112 beside them. -/
def Entry.wireSize (entry : Entry) : Nat :=
  112 + entry.name.utf8ByteSize + entry.publicKey.length + entry.privatePayload.length +
    entry.publicPayload.length

/-- The lengths that are measured when the leaf of an entry is written, in this order. -/
def Entry.lengths (entry : Entry) : List Nat :=
  [entry.publicKey.length, entry.privatePayload.length + 28, entry.publicPayload.length + 28,
    entry.wireSize]

theorem ownershipOf_of_length_ne {contentHash : Bytes} (name : String)
    (h : contentHash.length ≠ 32) :
    ownershipOf contentHash name = .error (.invalidContentHash contentHash.length) := if_pos h

theorem ownershipOf_of_lt {contentHash : Bytes} {name : String} (hlength : contentHash.length = 32)
    (hname : maxName < name.utf8ByteSize) :
    ownershipOf contentHash name = .error (.codec (.tooLong name.utf8ByteSize maxName)) := by
  rw [ownershipOf, if_neg (not_not.2 hlength), Ownership.ofFields, if_pos hname]

theorem exists_ownershipOf_iff {contentHash : Bytes} {name : String} :
    (∃ o, ownershipOf contentHash name = .ok o) ↔
      contentHash.length = 32 ∧ name.utf8ByteSize ≤ maxName := by
  simp only [ownershipOf_eq_ok_iff]
  constructor
  · rintro ⟨o, hname, rfl, -⟩
    exact ⟨o.contentHash.length_toBytes, hname⟩
  · rintro ⟨hlength, hname⟩
    exact ⟨⟨⟨contentHash, hlength⟩, name⟩, hname, rfl, rfl⟩

theorem leafOf_of_ownershipOf {now : Timestamp} {nonces : Nonce × Nonce} {entry : Entry}
    {e : LogError} (h : ownershipOf entry.contentHash entry.name = .error e) :
    leafOf suite keys now nonces entry = .error e := by
  rw [leafOf, h]
  rfl

/-- An entry whose payloads can be sealed has a leaf if its ownership is accepted, and the leaf is
measured by the lengths of the entry. -/
theorem exists_leafOf (keys : KeyMaterial) {entry : Entry}
    (hprivate : suite.Seals entry.privatePayload) (hpublic : suite.Seals entry.publicPayload)
    (hlength : entry.contentHash.length = 32)
    (hname : entry.name.utf8ByteSize ≤ maxName) (now : Timestamp) (nonces : Nonce × Nonce) :
    ∃ leaf, leafOf suite keys now nonces entry = .ok leaf ∧ leaf.ownership.name = entry.name ∧
      leaf.lengths = entry.lengths ∧ leaf.wireSize = entry.wireSize := by
  obtain ⟨privateData, hprivateData, hprivateLength⟩ :=
    hprivate.exists_sealPayload keys.key .privateClaim nonces.1
  obtain ⟨publicData, hpublicData, hpublicLength⟩ :=
    hpublic.exists_sealPayload keys.key .publicClaim nonces.2
  obtain ⟨o, ho⟩ := exists_ownershipOf_iff.2 ⟨hlength, hname⟩
  have hoName : o.name = entry.name := (ownershipOf_eq_ok_iff.1 ho).2.2
  have hsize : Leaf.wireSize ⟨now, o, entry.publicKey, privateData, publicData⟩ =
      entry.wireSize := by
    simp only [Leaf.wireSize, Entry.wireSize, hoName, hprivateLength, hpublicLength]
    omega
  refine ⟨_, leafOf_eq_ok_iff.2 ⟨o, privateData, publicData, ho, hprivateData, hpublicData, rfl⟩,
    hoName, ?_, hsize⟩
  rw [Leaf.lengths, hsize, Entry.lengths, hprivateLength, hpublicLength]

/-! ## Requests -/

section

variable {S R W : Type} [Store S R W] {service : Service S}

/-- An entry whose leaf would be too long is refused for the first length that is. -/
theorem exists_append_of_lt {entry : Entry} (hprivate : suite.Seals entry.privatePayload)
    (hpublic : suite.Seals entry.publicPayload) (hlength : entry.contentHash.length = 32)
    (hname : entry.name.utf8ByteSize ≤ maxName) (hsize : maxField < entry.wireSize)
    (now : Timestamp) (nonces : Nonce × Nonce) :
    ∃ got, firstTooLong? entry.lengths = some got ∧
      service.append suite now nonces entry =
        (.error (.codec (.tooLong got maxField)), service) := by
  obtain ⟨leaf, hleaf, hleafName, hlengths, hleafSize⟩ :=
    exists_leafOf service.keys hprivate hpublic hlength hname now nonces
  rw [← hlengths]
  cases hfirst : firstTooLong? leaf.lengths with
  | none =>
      rw [leaf.firstTooLong?_lengths_eq_none_iff, hleafSize] at hfirst
      exact absurd hfirst (Nat.not_le.2 hsize)
  | some got =>
      rw [← hleafName] at hname
      exact ⟨got, rfl, append_of_encode hleaf (Leaf.encode_of_firstTooLong? hname hfirst)⟩

theorem exists_ownershipOf_of_signOwnership {now : Timestamp} {contentHash : Bytes} {name : String}
    {bytes : Bytes} (h : service.signOwnership suite now contentHash name = .ok bytes) :
    ∃ o, ownershipOf contentHash name = .ok o := by
  rw [signOwnership, bind_eq_ok_iff] at h
  obtain ⟨o, ho, -⟩ := h
  exact ⟨o, ho⟩

/-- An ownership is signed exactly when it is accepted. -/
theorem exists_signOwnership_iff (service : Service S) (now : Timestamp) (contentHash : Bytes)
    (name : String) :
    (∃ bytes, service.signOwnership suite now contentHash name = .ok bytes) ↔
      contentHash.length = 32 ∧ name.utf8ByteSize ≤ maxName := by
  rw [← exists_ownershipOf_iff]
  constructor
  · rintro ⟨bytes, h⟩
    exact exists_ownershipOf_of_signOwnership h
  · rintro ⟨o, ho⟩
    obtain ⟨-, bytes, -, hsign, -⟩ := exists_signOwnership service now ho
    exact ⟨bytes, hsign⟩

/-- What is signed reads back as it was asked for. -/
theorem exists_decode_of_signOwnership {now : Timestamp} {contentHash : Bytes} {name : String}
    {bytes : Bytes} (h : service.signOwnership suite now contentHash name = .ok bytes) :
    ∃ signed, SignedOwnership.decode bytes = .ok signed ∧ signed.timestamp = now ∧
      signed.ownership.contentHash.toBytes = contentHash ∧ signed.ownership.name = name := by
  obtain ⟨o, ho⟩ := exists_ownershipOf_of_signOwnership h
  obtain ⟨-, hhash, hname⟩ := ownershipOf_eq_ok_iff.1 ho
  obtain ⟨x, bytes', -, hsign, hdecode⟩ := exists_signOwnership service now ho
  cases hsign.symm.trans h
  exact ⟨_, hdecode, rfl, hhash, hname⟩

end

section

variable {S R W : Type} [Store S R W] [LawfulStore S R W] {service : Service S} {s₀ : S}
  {leaves : List Leaf}

/-- An entry is accepted if its leaf is short enough. -/
theorem Reached.exists_append_of_le (h : Reached suite keys s₀ leaves service)
    (hready : LawfulStore.Ready s₀) (hempty : LawfulStore.view s₀ = View.empty)
    (hlt : leaves.length < 2 ^ 63) {entry : Entry} (hprivate : suite.Seals entry.privatePayload)
    (hpublic : suite.Seals entry.publicPayload) (hlength : entry.contentHash.length = 32)
    (hname : entry.name.utf8ByteSize ≤ maxName) (hsize : entry.wireSize ≤ maxField)
    (now : Timestamp) (nonces : Nonce × Nonce) :
    ∃ leaf bytes service', leafOf suite keys now nonces entry = .ok leaf ∧
      leaf.encode = .ok bytes ∧ bytes.length = entry.wireSize ∧
      service.append suite now nonces entry = (.ok (UInt64.ofNat leaves.length), service') ∧
      Reached suite keys s₀ (leaves ++ [leaf]) service' := by
  obtain ⟨leaf, hleaf, hleafName, -, hleafSize⟩ :=
    exists_leafOf keys hprivate hpublic hlength hname now nonces
  rw [← hleafName] at hname
  rw [← hleafSize] at hsize
  obtain ⟨bytes, hencode⟩ := leaf.exists_encode_iff.2 ⟨hname, hsize⟩
  obtain ⟨ownership, hownership, hlayout, -⟩ := Leaf.encode_eq_ok_iff.1 hencode
  obtain ⟨service', happend, hreached⟩ := h.exists_append hready hempty hlt hleaf hencode
  refine ⟨leaf, bytes, service', hleaf, hencode, ?_, happend, hreached⟩
  rw [hlayout, Leaf.length_layout_of_encode hownership, hleafSize]

/-- A proof is served for the leaf that was accepted last. -/
theorem Reached.exists_proof_last {leaf : Leaf}
    (h : Reached suite keys s₀ (leaves ++ [leaf]) service) (hready : LawfulStore.Ready s₀)
    (hempty : LawfulStore.view s₀ = View.empty) (hlt : leaves.length < 2 ^ 63) (now : Timestamp) :
    ∃ bytes p, (service.proof suite now (UInt64.ofNat leaves.length)).1 = .ok bytes ∧
      InclusionProof.decode bytes = .ok p ∧ p.leaf = leaf := by
  have hle : (leaves ++ [leaf]).length ≤ 2 ^ 63 := by
    rw [List.length_append, List.length_singleton]
    exact hlt
  obtain ⟨log, hlog, hholds⟩ := h.exists_holds hready hempty hle
  have hlength : log.length ≤ 2 ^ 63 := by rwa [← hlog, List.length_map] at hle
  have hat : (log.map Logged.leaf)[leaves.length]? = some leaf := by
    rw [hlog, List.getElem?_concat_length]
  rw [List.getElem?_map, Option.map_eq_some_iff] at hat
  obtain ⟨l, hat, rfl⟩ := hat
  rw [← toNat_ofNat_of_le hlt.le] at hat
  obtain ⟨bytes, service', hproof, hdecode, -⟩ := hholds.proof hlength now hat
  exact ⟨bytes, _, by rw [hproof], hdecode, rfl⟩

/-- A service that has accepted `leaves`, of which spans can address `2⁶³`, accepts an entry whose
payloads can be sealed exactly when its content hash has 32 bytes, its name at most 255, and its
leaf at most 65535. The leaf then has that many bytes, and a proof of it is served. Any other entry
is refused, for its content hash, else for its name, else for the first of its key, its sealed
payloads and its leaf that has more than 65535 bytes; the service, and so its head, stays as it is.
An ownership is signed exactly when its content hash has 32 bytes and its name at most 255, and the
bytes read back as asked for. -/
theorem admission_is_exact (suite : Suite) (keys : KeyMaterial) (hready : LawfulStore.Ready s₀)
    (hempty : LawfulStore.view s₀ = View.empty) (hreached : Reached suite keys s₀ leaves service)
    (hlt : leaves.length < 2 ^ 63) :
    (∀ now nonces (entry : Entry), suite.Seals entry.privatePayload →
      suite.Seals entry.publicPayload →
      ((∃ index service', service.append suite now nonces entry = (.ok index, service')) ↔
        entry.contentHash.length = 32 ∧ entry.name.utf8ByteSize ≤ 255 ∧ entry.wireSize ≤ 65535) ∧
      (entry.contentHash.length ≠ 32 → service.append suite now nonces entry =
        (.error (.invalidContentHash entry.contentHash.length), service)) ∧
      (entry.contentHash.length = 32 → 255 < entry.name.utf8ByteSize →
        service.append suite now nonces entry =
          (.error (.codec (.tooLong entry.name.utf8ByteSize 255)), service)) ∧
      (entry.contentHash.length = 32 → entry.name.utf8ByteSize ≤ 255 → 65535 < entry.wireSize →
        ∃ got, firstTooLong? entry.lengths = some got ∧ service.append suite now nonces entry =
          (.error (.codec (.tooLong got 65535)), service)) ∧
      ∀ index service', service.append suite now nonces entry = (.ok index, service') →
        index = UInt64.ofNat leaves.length ∧ ∃ leaf bytes,
          leafOf suite keys now nonces entry = .ok leaf ∧ leaf.encode = .ok bytes ∧
          bytes.length = entry.wireSize ∧ Reached suite keys s₀ (leaves ++ [leaf]) service' ∧
          ∀ later, ∃ shown p, (service'.proof suite later index).1 = .ok shown ∧
            InclusionProof.decode shown = .ok p ∧ p.leaf = leaf) ∧
    ∀ now contentHash name,
      ((∃ bytes, service.signOwnership suite now contentHash name = .ok bytes) ↔
        contentHash.length = 32 ∧ name.utf8ByteSize ≤ 255) ∧
      ∀ bytes, service.signOwnership suite now contentHash name = .ok bytes →
        ∃ signed, SignedOwnership.decode bytes = .ok signed ∧ signed.timestamp = now ∧
          signed.ownership.contentHash.toBytes = contentHash ∧ signed.ownership.name = name := by
  refine ⟨fun now nonces entry hprivate hpublic => ?_, fun now contentHash name =>
    ⟨exists_signOwnership_iff service now contentHash name,
      fun bytes => exists_decode_of_signOwnership⟩⟩
  have hhash : entry.contentHash.length ≠ 32 → service.append suite now nonces entry =
      (.error (.invalidContentHash entry.contentHash.length), service) := by
    intro hlength
    exact append_of_leafOf (leafOf_of_ownershipOf (ownershipOf_of_length_ne entry.name hlength))
  have hname : entry.contentHash.length = 32 → maxName < entry.name.utf8ByteSize →
      service.append suite now nonces entry =
        (.error (.codec (.tooLong entry.name.utf8ByteSize maxName)), service) := by
    intro hlength hlong
    exact append_of_leafOf (leafOf_of_ownershipOf (ownershipOf_of_lt hlength hlong))
  have hsize : entry.contentHash.length = 32 → entry.name.utf8ByteSize ≤ maxName →
      maxField < entry.wireSize → ∃ got, firstTooLong? entry.lengths = some got ∧
        service.append suite now nonces entry =
          (.error (.codec (.tooLong got maxField)), service) := by
    intro hlength hfits hlong
    exact exists_append_of_lt hprivate hpublic hlength hfits hlong now nonces
  have hadmitted : ∀ index service', service.append suite now nonces entry = (.ok index, service') →
      entry.contentHash.length = 32 ∧ entry.name.utf8ByteSize ≤ maxName ∧
        entry.wireSize ≤ maxField := by
    intro index service' happend
    by_cases hlength : entry.contentHash.length = 32
    · by_cases hfits : entry.name.utf8ByteSize ≤ maxName
      · refine ⟨hlength, hfits, Nat.not_lt.1 fun hlong => ?_⟩
        obtain ⟨got, -, hrefused⟩ := hsize hlength hfits hlong
        cases hrefused.symm.trans happend
      · cases (hname hlength (Nat.not_le.1 hfits)).symm.trans happend
    · cases (hhash hlength).symm.trans happend
  refine ⟨⟨?_, ?_⟩, hhash, hname, hsize, ?_⟩
  · rintro ⟨index, service', happend⟩
    exact hadmitted index service' happend
  · rintro ⟨hlength, hfits, hshort⟩
    obtain ⟨leaf, bytes, service', -, -, -, happend, -⟩ :=
      hreached.exists_append_of_le hready hempty hlt hprivate hpublic hlength hfits hshort now
        nonces
    exact ⟨_, service', happend⟩
  · intro index service' happend
    obtain ⟨hlength, hfits, hshort⟩ := hadmitted index service' happend
    obtain ⟨leaf, bytes, service₁, hleaf, hencode, hbytes, happend₁, hreached₁⟩ :=
      hreached.exists_append_of_le hready hempty hlt hprivate hpublic hlength hfits hshort now
        nonces
    cases happend₁.symm.trans happend
    exact ⟨rfl, leaf, bytes, hleaf, hencode, hbytes, hreached₁,
      fun later => hreached₁.exists_proof_last hready hempty hlt later⟩

end

/-- An entry with a key of so many bytes and empty payloads. -/
def entryOfKeyLength (n : Nat) : Entry :=
  ⟨sampleContent.toBytes, "ada", List.replicate n 0, [], []⟩

theorem wireSize_entryOfKeyLength (n : Nat) : (entryOfKeyLength n).wireSize = 115 + n := by
  rw [Entry.wireSize, entryOfKeyLength, List.length_replicate]
  show 112 + 3 + n + 0 + 0 = _
  omega

theorem lengths_entryOfKeyLength (n : Nat) :
    (entryOfKeyLength n).lengths = [n, 28, 28, 115 + n] := by
  rw [Entry.lengths, wireSize_entryOfKeyLength, entryOfKeyLength, List.length_replicate]
  rfl

/-- Under the standard suite a key of 65420 bytes is the longest that fits beside empty payloads.
One more byte is refused for the leaf as a whole. -/
theorem admission_is_exact_at_limit :
    LawfulStore.Ready Versioned.empty ∧ LawfulStore.view Versioned.empty = View.empty ∧
    ([] : List Leaf).length < 2 ^ 63 ∧ Suite.standard.Seals [] ∧
    ∃ service, Reached Suite.standard sampleKeys Versioned.empty [] service ∧
      (∃ index service', service.append Suite.standard (moment 1) (Octets.zero 12, Octets.zero 12)
        (entryOfKeyLength 65420) = (.ok index, service')) ∧
      service.append Suite.standard (moment 1) (Octets.zero 12, Octets.zero 12)
        (entryOfKeyLength 65421) = (.error (.codec (.tooLong 65536 65535)), service) ∧
      ∃ bytes, service.signOwnership Suite.standard (moment 1) sampleContent.toBytes "ada" =
        .ok bytes := by
  have hready : LawfulStore.Ready Versioned.empty := Versioned.bounded_empty
  have hempty : LawfulStore.view Versioned.empty = View.empty := Versioned.current_empty
  have hlt : ([] : List Leaf).length < 2 ^ 63 := by decide
  have hseals : Suite.standard.Seals [] := Suite.standard_seals (Nat.zero_le _)
  obtain ⟨service, s', hstart, -⟩ :=
    start_holds hready hempty Suite.standard (moment 0) sampleKeys (by decide : (1 : UInt64) ≠ 0)
  have hreached : Reached Suite.standard sampleKeys Versioned.empty [] service := .opened hstart
  obtain ⟨hentries, hownerships⟩ :=
    admission_is_exact Suite.standard sampleKeys hready hempty hreached hlt
  have hhash : sampleContent.toBytes.length = 32 := sampleContent.length_toBytes
  have hname : "ada".utf8ByteSize ≤ 255 := by decide
  obtain ⟨haccepted, -⟩ := hentries (moment 1) (Octets.zero 12, Octets.zero 12)
    (entryOfKeyLength 65420) hseals hseals
  obtain ⟨-, -, -, hrefused, -⟩ := hentries (moment 1) (Octets.zero 12, Octets.zero 12)
    (entryOfKeyLength 65421) hseals hseals
  rw [wireSize_entryOfKeyLength, lengths_entryOfKeyLength] at hrefused
  obtain ⟨got, hgot, happend⟩ := hrefused hhash hname (by decide)
  have hlimit : firstTooLong? [65421, 28, 28, 115 + 65421] = some 65536 := by decide
  cases hlimit.symm.trans hgot
  refine ⟨hready, hempty, hlt, hseals, service, hreached, haccepted.2 ⟨hhash, hname, ?_⟩, happend,
    (hownerships (moment 1) sampleContent.toBytes "ada").1.2 ⟨hhash, hname⟩⟩
  rw [wireSize_entryOfKeyLength]

end Service

end OwnershipLog
