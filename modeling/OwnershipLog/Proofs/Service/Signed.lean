import OwnershipLog.Payload
import OwnershipLog.Proofs.Wire.RoundTrip
import OwnershipLog.Signing

/-!
# What signatures stand for

The authority signs heads and ownerships, and nothing else. A signature stands for
the hash of a string that spells the artifact: different artifacts of one kind have
different strings (`TreeHead.preimage_inj`, `Ownership.preimage_inj`), and the tags
keep the two kinds apart (`TreeHead.preimage_ne`), so as long as these strings do
not collide, a signature that was made for one artifact holds for no other.

What the library takes from its signature scheme and its cipher is stated here as
well: a signature holds under the key of its seed, what was sealed opens to what it
was sealed from, and a signature that was presented was made (`Suite.Unforged`).
-/

namespace OwnershipLog

namespace TreeHead

/-- The string that is signed tells heads apart, up to their signatures. -/
theorem preimage_inj {h h' : TreeHead} (heq : h.preimage = h'.preimage) :
    h.size = h'.size ∧ h.timestamp = h'.timestamp ∧ h.root = h'.root := by
  have hbody := List.append_cancel_left heq
  obtain ⟨hsize, hrest⟩ := List.append_inj hbody (by simp)
  obtain ⟨htimestamp, hroot⟩ := List.append_inj hrest (by simp [Timestamp.length_encode])
  exact ⟨word64_inj.1 hsize, Timestamp.encode_inj htimestamp, Octets.ext hroot⟩

end TreeHead

namespace Ownership

theorem preimage_eq_ok_iff {o : Ownership} {timestamp : Timestamp} {x : Bytes} :
    o.preimage timestamp = .ok x ↔
      ∃ bytes, o.encode = .ok bytes ∧ x = ownershipTag ++ (timestamp.encode ++ bytes) := by
  rw [preimage, bind_eq_ok_iff]
  constructor
  · rintro ⟨bytes, hencode, heq⟩
    cases heq
    exact ⟨bytes, hencode, rfl⟩
  · rintro ⟨bytes, hencode, rfl⟩
    exact ⟨bytes, hencode, rfl⟩

/-- The string that is signed tells ownerships and their instants apart. -/
theorem preimage_inj {o o' : Ownership} {t t' : Timestamp} {x : Bytes} (h : o.preimage t = .ok x)
    (h' : o'.preimage t' = .ok x) : t = t' ∧ o = o' := by
  obtain ⟨bytes, hencode, rfl⟩ := preimage_eq_ok_iff.1 h
  obtain ⟨bytes', hencode', heq⟩ := preimage_eq_ok_iff.1 h'
  obtain ⟨htimestamp, rfl⟩ :=
    List.append_inj (List.append_cancel_left heq) (by simp [Timestamp.length_encode])
  exact ⟨Timestamp.encode_inj htimestamp, encode_inj hencode hencode'⟩

theorem checksum_of_ok (hash : HashFunction) {o : Ownership} {timestamp : Timestamp} {x : Bytes}
    (h : o.preimage timestamp = .ok x) : o.checksum hash timestamp = .ok (hash x) := by
  rw [checksum, h]
  rfl

end Ownership

/-- No string is signed for a head and for an ownership. -/
theorem TreeHead.preimage_ne (h : TreeHead) {o : Ownership} {timestamp : Timestamp} {x : Bytes}
    (ho : o.preimage timestamp = .ok x) : h.preimage ≠ x := by
  obtain ⟨bytes, -, rfl⟩ := Ownership.preimage_eq_ok_iff.1 ho
  intro heq
  have hhead : h.preimage.head? = some 115 := rfl
  have hownership : (ownershipTag ++ (timestamp.encode ++ bytes)).head? = some 111 := rfl
  rw [heq, hownership] at hhead
  exact absurd hhead (by decide)

/-! ## What is signed and what is shown -/

/-- An artifact that the authority signs. -/
inductive Signed where
  | head (h : TreeHead)
  | ownership (timestamp : Timestamp) (o : Ownership)

/-- The strings whose hashes are signed for an artifact: one, if it has a byte form. -/
def Signed.strings : Signed → List Bytes
  | head h => [h.preimage]
  | ownership timestamp o => match o.preimage timestamp with
    | .ok x => [x]
    | .error _ => []

/-- The digests that a head is shown to be signed for, with the signatures. -/
def TreeHead.signatures (hash : HashFunction) (h : TreeHead) : List (Digest × Signature) :=
  match h.signature with
  | some signature => [(h.checksum hash, signature)]
  | none => []

/-- The digests that an ownership is shown to be signed for, with the signatures. -/
def SignedOwnership.signatures (hash : HashFunction) (s : SignedOwnership) :
    List (Digest × Signature) :=
  match s.ownership.checksum hash s.timestamp with
  | .ok digest => [(digest, s.signature)]
  | .error _ => []

namespace Suite

/-- A signature holds under the key of the seed that made it. -/
def VerifiesOwn (suite : Suite) : Prop :=
  ∀ seed digest, suite.verify (suite.publicKey seed) digest (suite.sign seed digest) = true

/-- What was encrypted decrypts to what it was encrypted from. -/
def DecryptsOwn (suite : Suite) : Prop :=
  ∀ key nonce associated payload body, suite.encrypt key nonce associated payload = some body →
    suite.decrypt key nonce associated body = some payload

/-- Of the signatures that are shown, those that hold under the key are for strings that were
signed. -/
def Unforged (suite : Suite) (key : PublicKey) (strings : List Bytes)
    (shown : List (Digest × Signature)) : Prop :=
  ∀ entry ∈ shown, suite.verify key entry.1 entry.2 = true → ∃ x ∈ strings, suite.hash x = entry.1

instance (suite : Suite) (key : PublicKey) (strings : List Bytes)
    (shown : List (Digest × Signature)) : Decidable (suite.Unforged key strings shown) :=
  inferInstanceAs (Decidable (∀ entry ∈ shown, suite.verify key entry.1 entry.2 = true →
    ∃ x ∈ strings, suite.hash x = entry.1))

variable {suite : Suite} {key : PublicKey} {strings : List Bytes}

theorem Unforged.mono {shown shown' : List (Digest × Signature)}
    (h : suite.Unforged key strings shown)
    (hsub : ∀ entry ∈ shown', entry ∈ shown) : suite.Unforged key strings shown' :=
  fun entry hentry => h entry (hsub entry hentry)

/-- The hash of a head that verifies is that of a string that was signed. -/
theorem Unforged.head {h : TreeHead}
    (hunforged : suite.Unforged key strings (h.signatures suite.hash))
    (hverify : suite.verifyHead key h = true) :
    ∃ x ∈ strings, suite.hash x = suite.hash h.preimage := by
  cases hsignature : h.signature with
  | none =>
      rw [verifyHead, hsignature] at hverify
      cases hverify
  | some signature =>
      rw [verifyHead, hsignature] at hverify
      rw [TreeHead.signatures, hsignature] at hunforged
      exact hunforged _ List.mem_cons_self hverify

/-- The hash of an ownership that verifies is that of a string that was signed. -/
theorem Unforged.ownership {s : SignedOwnership}
    (hunforged : suite.Unforged key strings (s.signatures suite.hash))
    (hverify : suite.verifyOwnership key s = true) :
    ∃ y, s.ownership.preimage s.timestamp = .ok y ∧ ∃ x ∈ strings, suite.hash x = suite.hash y := by
  cases hpreimage : s.ownership.preimage s.timestamp with
  | error cause =>
      rw [verifyOwnership, Ownership.checksum, hpreimage] at hverify
      cases hverify
  | ok y =>
      rw [verifyOwnership, Ownership.checksum_of_ok _ hpreimage] at hverify
      rw [SignedOwnership.signatures, Ownership.checksum_of_ok _ hpreimage] at hunforged
      exact ⟨y, rfl, hunforged _ List.mem_cons_self hverify⟩

/-! ## What the authority makes verifies -/

theorem verifyHead_signHead (hown : suite.VerifiesOwn) (seed : Seed) (head : TreeHead) :
    suite.verifyHead (suite.publicKey seed) (suite.signHead seed head) = true := hown seed _

theorem signOwnership_of_ok {o : Ownership} {timestamp : Timestamp} {x : Bytes}
    (h : o.preimage timestamp = .ok x) (seed : Seed) :
    suite.signOwnership seed timestamp o =
      .ok ⟨timestamp, o, suite.sign seed (suite.hash x)⟩ := by
  rw [signOwnership, Ownership.checksum_of_ok _ h]
  rfl

theorem verifyOwnership_sign (hown : suite.VerifiesOwn) (seed : Seed) {o : Ownership}
    {timestamp : Timestamp} {x : Bytes} (h : o.preimage timestamp = .ok x) :
    suite.verifyOwnership (suite.publicKey seed)
      ⟨timestamp, o, suite.sign seed (suite.hash x)⟩ = true := by
  rw [verifyOwnership]
  simp only [Ownership.checksum_of_ok _ h]
  exact hown seed _

theorem signLeaf_of_ok {leaf : Leaf} {bytes : Bytes} (h : leaf.encode = .ok bytes) (seed : Seed) :
    suite.signLeaf seed leaf = .ok (suite.sign seed (suite.hash bytes)) := by
  rw [signLeaf, Leaf.checksum, h]
  rfl

theorem verifyLeaf_sign (hown : suite.VerifiesOwn) (seed : Seed) {leaf : Leaf} {bytes : Bytes}
    (h : leaf.encode = .ok bytes) :
    suite.verifyLeaf (suite.publicKey seed).toBytes leaf
      (suite.sign seed (suite.hash bytes)).toBytes = true := by
  rw [verifyLeaf, Leaf.checksum, h]
  show suite.verifyBytes _ (suite.hash bytes) _ = true
  simp only [verifyBytes, Octets.ofBytes?_toBytes]
  exact hown seed _

/-- What was sealed for a kind of claim opens for it. -/
theorem openPayload_of_sealPayload (hown : suite.DecryptsOwn) {key : SealingKey} {domain : Domain}
    {nonce : Nonce} {payload sealed : Bytes}
    (h : suite.sealPayload key domain nonce payload = some sealed) :
    suite.openPayload key domain sealed = some payload := by
  obtain ⟨body, hencrypt, rfl⟩ := Option.map_eq_some_iff.1 h
  have htake : (nonce.toBytes ++ body).take 12 = nonce.toBytes :=
    List.take_left' nonce.length_toBytes
  have hdrop : (nonce.toBytes ++ body).drop 12 = body := List.drop_left' nonce.length_toBytes
  rw [openPayload, htake, hdrop]
  simp only [Octets.ofBytes?_toBytes]
  exact hown _ _ _ _ _ hencrypt

end Suite

end OwnershipLog
