import OwnershipLog.Proofs.Claim.Checks
import OwnershipLog.Proofs.Service.Run
import OwnershipLog.Proofs.Service.Served

/-!
# No payload without priority

Whatever bytes are shown to a judge of the log, a payload is released only for a
leaf that the log has, and only to who was there before: with an earlier leaf for the
same content, or with an ownership that the authority signed before the leaf was
made.

The argument goes from the signature inwards. A signature that holds was made for a
string of the run, the string is that of the head which is shown, and it cannot be
the string of an ownership, so the head states the log as it was at some point. The
hashes of the proof lead to its root, so the leaf is the one that was logged. Two
things are taken for granted, of what was shown alone (`Service.Trusted`): no
signature in it is forged, and no string hashed to judge it collides with another
that the service hashed.
-/

namespace OwnershipLog

/-- The strings that are hashed to judge a proof: that of its head, and those of its path. -/
def InclusionProof.judged (hash : HashFunction) (p : InclusionProof) : List Bytes :=
  p.head.preimage :: p.inputs hash

/-- The strings that are hashed to judge a signed ownership. -/
def SignedOwnership.judged (s : SignedOwnership) : List Bytes :=
  (Signed.ownership s.timestamp s.ownership).strings

namespace Service

variable {S R W : Type} [Store S R W]

/-- The strings that the service signs hashes of in a run. -/
def signedStrings (suite : Suite) (service : Service S) (requests : List Request) : List Bytes :=
  (signed suite service requests).flatMap Signed.strings

/-- The strings that the service hashes in a run: those that it signs hashes of, and those that its
tree is built from. -/
def hashed (suite : Suite) (keys : KeyMaterial) (service : Service S) (requests : List Request) :
    List Bytes :=
  signedStrings suite service requests ++
    Merkle.buildInputs suite.hash (bytesOf (writtenOf (logged suite keys requests)))

/-- What is taken for granted of an artifact that is shown: its signatures are not forged, and no
string hashed to judge it collides with another that the service hashed. -/
structure Trusted (suite : Suite) (keys : KeyMaterial) (service : Service S)
    (requests : List Request) (shown : List (Digest × Signature)) (judged : List Bytes) : Prop where
  unforged : suite.Unforged (suite.publicKey keys.seed) (signedStrings suite service requests) shown
  collisionFree : ¬ suite.hash.Collides judged (hashed suite keys service requests)

variable {suite : Suite} {keys : KeyMaterial} {service : Service S} {requests : List Request}

theorem Trusted.mono {shown shown' : List (Digest × Signature)} {judged judged' : List Bytes}
    (h : Trusted suite keys service requests shown judged)
    (hshown : ∀ entry ∈ shown', entry ∈ shown) (hjudged : ∀ x ∈ judged', x ∈ judged) :
    Trusted suite keys service requests shown' judged' :=
  ⟨h.unforged.mono hshown, fun hcollides => h.collisionFree (hcollides.mono hjudged fun _ hy => hy)⟩

theorem Trusted.left {shown shown' : List (Digest × Signature)} {judged judged' : List Bytes}
    (h : Trusted suite keys service requests (shown ++ shown') (judged ++ judged')) :
    Trusted suite keys service requests shown judged :=
  h.mono (fun _ => List.mem_append_left _) fun _ => List.mem_append_left _

theorem Trusted.right {shown shown' : List (Digest × Signature)} {judged judged' : List Bytes}
    (h : Trusted suite keys service requests (shown ++ shown') (judged ++ judged')) :
    Trusted suite keys service requests shown' judged' :=
  h.mono (fun _ => List.mem_append_right _) fun _ => List.mem_append_right _

theorem mem_signedStrings {x : Bytes} :
    x ∈ signedStrings suite service requests ↔
      ∃ a ∈ signed suite service requests, x ∈ a.strings := List.mem_flatMap

/-- A head that verifies is one that was signed, up to its signature. -/
theorem Trusted.exists_signed_head {p : InclusionProof}
    (h : Trusted suite keys service requests (p.head.signatures suite.hash) (p.judged suite.hash))
    (hverify : suite.verifyHead (suite.publicKey keys.seed) p.head = true) :
    ∃ head, .head head ∈ signed suite service requests ∧ p.head.size = head.size ∧
      p.head.root = head.root := by
  obtain ⟨x, hx, hhash⟩ := h.unforged.head hverify
  have hsame : p.head.preimage = x :=
    HashFunction.eq_of_not_collides h.collisionFree List.mem_cons_self
      (List.mem_append_left _ hx) hhash.symm
  obtain ⟨a, ha, hxa⟩ := mem_signedStrings.1 hx
  cases a with
  | head head =>
      obtain ⟨hsize, -, hroot⟩ := TreeHead.preimage_inj (hsame.trans (List.mem_singleton.1 hxa))
      exact ⟨head, ha, hsize, hroot⟩
  | ownership timestamp o =>
      rw [Signed.strings] at hxa
      cases hpreimage : o.preimage timestamp with
      | error cause => simp [hpreimage] at hxa
      | ok y =>
          rw [hpreimage] at hxa
          rw [List.mem_singleton.1 hxa] at hsame
          exact absurd hsame (TreeHead.preimage_ne _ hpreimage)

/-- An ownership that verifies is one that was signed. -/
theorem Trusted.signed_ownership {s : SignedOwnership}
    (h : Trusted suite keys service requests (s.signatures suite.hash) s.judged)
    (hverify : suite.verifyOwnership (suite.publicKey keys.seed) s = true) :
    .ownership s.timestamp s.ownership ∈ signed suite service requests := by
  obtain ⟨y, hpreimage, x, hx, hhash⟩ := h.unforged.ownership hverify
  have hy : y ∈ s.judged := by
    rw [SignedOwnership.judged, Signed.strings, hpreimage]
    exact List.mem_cons_self
  obtain rfl : y = x :=
    HashFunction.eq_of_not_collides h.collisionFree hy (List.mem_append_left _ hx) hhash.symm
  obtain ⟨a, ha, hya⟩ := mem_signedStrings.1 hx
  cases a with
  | head head =>
      rw [List.mem_singleton.1 hya] at hpreimage
      exact absurd rfl (TreeHead.preimage_ne head hpreimage)
  | ownership timestamp o =>
      rw [Signed.strings] at hya
      cases hpreimage' : o.preimage timestamp with
      | error cause => simp [hpreimage'] at hya
      | ok y' =>
          rw [hpreimage'] at hya
          rw [← List.mem_singleton.1 hya] at hpreimage'
          obtain ⟨htimestamp, hownership⟩ := Ownership.preimage_inj hpreimage hpreimage'
          rw [htimestamp, hownership]
          exact ha

variable [LawfulStore S R W]

/-- A proof that verifies carries a leaf that was logged, at its index. -/
theorem Trusted.exists_logged {p : InclusionProof} (hservice : Holds suite keys [] service)
    (hle : (logged suite keys requests).length ≤ 2 ^ 63)
    (h : Trusted suite keys service requests (p.head.signatures suite.hash) (p.judged suite.hash))
    (hhead : suite.verifyHead (suite.publicKey keys.seed) p.head = true)
    (hhashes : p.verifyHashes suite.hash = true) :
    ∃ l, (logged suite keys requests)[p.index.toNat]? = some l ∧ p.leaf = l.leaf := by
  obtain ⟨head, hsigned, hsize, hroot⟩ := h.exists_signed_head hhead
  rw [hservice.signed_eq (by simpa using hle)] at hsigned
  obtain ⟨n, hn, hsize', hroot'⟩ := size_root_of_mem_signedOver hsigned
  rw [List.nil_append] at hn hroot'
  have hlength : ((logged suite keys requests).take n).length = n := List.length_take_of_le hn
  have hleaves : (bytesOf (writtenOf ((logged suite keys requests).take n))).length = n := by
    rw [length_bytesOf, length_writtenOf, hlength]
  have hsize'' : p.head.size.toNat = n := by
    rw [hsize, hsize', toNat_ofNat_of_le (hn.trans hle)]
  rcases verifyHashes_sound (by omega) (hsize''.trans hleaves.symm) (hroot.trans hroot') hhashes
    with ⟨-, ⟨bytes, hencode, hat⟩, -⟩ | hcollides
  · rw [getElem?_bytesOf, getElem?_writtenOf, Option.map_map, Option.map_eq_some_iff] at hat
    obtain ⟨l, hl, hbytes⟩ := hat
    have hl' : (logged suite keys requests)[p.index.toNat]? = some l := by
      have hlt := (List.getElem?_eq_some_iff.1 hl).1
      rwa [List.getElem?_take_of_lt (by omega)] at hl
    refine ⟨l, hl', ?_⟩
    have hencode' := l.written.encode_eq
    rw [show l.written.bytes = bytes from hbytes] at hencode'
    exact Leaf.encode_inj hencode hencode'
  · rw [bytesOf_writtenOf_take] at hcollides
    exact absurd (hcollides.mono (fun x hx => List.mem_cons_of_mem _ hx)
      fun y hy => List.mem_append_right _ (mem_buildInputs_of_take suite.hash hy)) h.collisionFree

/-- A public claim that is granted shows an earlier leaf of the log for the same content, and
releases the public payload of the later one. -/
theorem Holds.claimPublic_granted (hservice : Holds suite keys [] service)
    (hown : suite.DecryptsOwn) (hle : (logged suite keys requests).length ≤ 2 ^ 63)
    {claiming claimed signature : Bytes}
    (hgranted : ((service.judge suite).claimPublic suite claiming claimed signature).granted =
      true) :
    ∃ p q, InclusionProof.decode claiming = .ok p ∧ InclusionProof.decode claimed = .ok q ∧
      (Trusted suite keys service requests
          (p.head.signatures suite.hash ++ q.head.signatures suite.hash)
          (p.judged suite.hash ++ q.judged suite.hash) →
        ∃ a b : Logged suite keys, p.index.toNat < q.index.toNat ∧
          (logged suite keys requests)[p.index.toNat]? = some a ∧
          (logged suite keys requests)[q.index.toNat]? = some b ∧
          p.leaf = a.leaf ∧ q.leaf = b.leaf ∧
          a.leaf.ownership.contentHash = b.leaf.ownership.contentHash ∧
          suite.verifyLeaf a.leaf.publicKey a.leaf signature = true ∧
          ((service.judge suite).claimPublic suite claiming claimed signature).data =
            textLossy b.entry.publicPayload) := by
  obtain ⟨p, q, payload, hp, hq, hcheck, hopen, hverdict⟩ :=
    Adjudicator.claimPublic_granted_iff.1 hgranted
  refine ⟨p, q, hp, hq, ?_⟩
  intro htrusted
  obtain ⟨hhead, hhashes, hhead', hhashes', hcontent, hindex, hleaf⟩ :=
    Adjudicator.checkPublic_eq_ok_iff.1 hcheck
  have hkeys := hservice.keys_eq
  rw [judge, publicKey, hkeys] at hhead hhead'
  rw [judge, hkeys] at hopen
  obtain ⟨a, ha, hpa⟩ := htrusted.left.exists_logged hservice hle hhead hhashes
  obtain ⟨b, hb, hqb⟩ := htrusted.right.exists_logged hservice hle hhead' hhashes'
  refine ⟨a, b, UInt64.lt_iff_toNat_lt.1 hindex, ha, hb, hpa, hqb, ?_, ?_, ?_⟩
  · rw [← hpa, ← hqb, hcontent]
  · rw [← hpa, hleaf]
  · rw [hqb, b.openPayload_public hown] at hopen
    cases hopen
    rw [hverdict]

/-- A private claim that is granted shows an ownership that was signed before the claimed leaf of
the log was made, and releases the private payload of the leaf. -/
theorem Holds.claimPrivate_granted (hservice : Holds suite keys [] service)
    (hown : suite.DecryptsOwn) (hle : (logged suite keys requests).length ≤ 2 ^ 63)
    {claiming claimed : Bytes}
    (hgranted : ((service.judge suite).claimPrivate suite claiming claimed).granted = true) :
    ∃ s q, SignedOwnership.decode claiming = .ok s ∧ InclusionProof.decode claimed = .ok q ∧
      (Trusted suite keys service requests
          (s.signatures suite.hash ++ q.head.signatures suite.hash)
          (s.judged ++ q.judged suite.hash) →
        .ownership s.timestamp s.ownership ∈ signed suite service requests ∧
        ∃ b : Logged suite keys, (logged suite keys requests)[q.index.toNat]? = some b ∧
          q.leaf = b.leaf ∧
          s.ownership.contentHash = b.leaf.ownership.contentHash ∧
          s.timestamp.isBefore b.leaf.created = true ∧
          ((service.judge suite).claimPrivate suite claiming claimed).data =
            textLossy b.entry.privatePayload) := by
  obtain ⟨s, q, payload, hs, hq, hcheck, hopen, hverdict⟩ :=
    Adjudicator.claimPrivate_granted_iff.1 hgranted
  refine ⟨s, q, hs, hq, ?_⟩
  intro htrusted
  obtain ⟨hownership, hhead, hhashes, hcontent, hbefore⟩ :=
    Adjudicator.checkPrivate_eq_ok_iff.1 hcheck
  have hkeys := hservice.keys_eq
  rw [judge, publicKey, hkeys] at hownership hhead
  rw [judge, hkeys] at hopen
  obtain ⟨b, hb, hqb⟩ := htrusted.right.exists_logged hservice hle hhead hhashes
  refine ⟨?_, b, hb, hqb, ?_, ?_, ?_⟩
  · exact htrusted.left.signed_ownership hownership
  · rw [← hqb, hcontent]
  · rw [← hqb, hbefore]
  · rw [hqb, b.openPayload_private hown] at hopen
    cases hopen
    rw [hverdict]

/-- Whatever a service over an empty store was asked, and whatever bytes its judge is shown: the log
holds the leaves of the entries that were logged, a public claim is granted only for a later leaf of
the log than another for the same content whose key signed the claim, a private claim only for a
leaf made after an ownership of its content was signed, and what is released is the payload that the
entry of the claimed leaf came with. -/
theorem granted_claims_have_priority (hown : suite.DecryptsOwn) {s₀ : S}
    (hready : LawfulStore.Ready s₀) (hempty : LawfulStore.view s₀ = View.empty) (opened : Timestamp)
    (keys : KeyMaterial) {maxPage : UInt64} (hpage : maxPage ≠ 0) (requests : List Request)
    (hle : (logged suite keys requests).length ≤ 2 ^ 63) :
    ∃ service s', start opened keys maxPage s₀ = (.ok service, s') ∧
      (∀ now index, (Tree.leaf? now index (service.after suite requests).store).1 =
        .ok ((logged suite keys requests)[index.toNat]?.map Logged.leaf)) ∧
      (∀ claiming claimed signature,
        ((service.judge suite).claimPublic suite claiming claimed signature).granted = true →
        ∃ p q, InclusionProof.decode claiming = .ok p ∧ InclusionProof.decode claimed = .ok q ∧
          (Trusted suite keys service requests
              (p.head.signatures suite.hash ++ q.head.signatures suite.hash)
              (p.judged suite.hash ++ q.judged suite.hash) →
            ∃ a b : Logged suite keys, p.index.toNat < q.index.toNat ∧
              (logged suite keys requests)[p.index.toNat]? = some a ∧
              (logged suite keys requests)[q.index.toNat]? = some b ∧
              p.leaf = a.leaf ∧ q.leaf = b.leaf ∧
              a.leaf.ownership.contentHash = b.leaf.ownership.contentHash ∧
              suite.verifyLeaf a.leaf.publicKey a.leaf signature = true ∧
              ((service.judge suite).claimPublic suite claiming claimed signature).data =
                textLossy b.entry.publicPayload)) ∧
      ∀ claiming claimed,
        ((service.judge suite).claimPrivate suite claiming claimed).granted = true →
        ∃ s q, SignedOwnership.decode claiming = .ok s ∧ InclusionProof.decode claimed = .ok q ∧
          (Trusted suite keys service requests
              (s.signatures suite.hash ++ q.head.signatures suite.hash)
              (s.judged ++ q.judged suite.hash) →
            .ownership s.timestamp s.ownership ∈ signed suite service requests ∧
            ∃ b : Logged suite keys, (logged suite keys requests)[q.index.toNat]? = some b ∧
              q.leaf = b.leaf ∧ s.ownership.contentHash = b.leaf.ownership.contentHash ∧
              s.timestamp.isBefore b.leaf.created = true ∧
              ((service.judge suite).claimPrivate suite claiming claimed).data =
                textLossy b.entry.privatePayload) := by
  obtain ⟨service, s', hstart, h⟩ := start_holds hready hempty suite opened keys hpage
  have hafter := h.after requests (by simpa using hle)
  rw [List.nil_append] at hafter
  refine ⟨service, s', hstart, ?_, ?_, ?_⟩
  · intro now index
    obtain ⟨s'', hleaf, -⟩ := hafter.tree.leaf? (by rwa [length_writtenOf]) now index
    rw [hleaf, getElem?_writtenOf, Option.map_map]
    rfl
  · intro claiming claimed signature hgranted
    exact h.claimPublic_granted hown hle hgranted
  · intro claiming claimed hgranted
    exact h.claimPrivate_granted hown hle hgranted

end Service

/-! ### A dispute in memory -/

theorem Suite.plain_verifiesOwn : Suite.plain.VerifiesOwn := by
  intro seed digest
  exact decide_eq_true rfl

theorem Suite.plain_decryptsOwn : Suite.plain.DecryptsOwn := by
  intro key nonce associated payload body h
  cases h
  simp [Suite.plain]

namespace Service

/-- The instant some seconds after the epoch. -/
def moment (secs : Int64) : Timestamp := { Timestamp.epoch with secs := secs }

def sampleKeys : KeyMaterial := ⟨Octets.replicate 32 1, Octets.replicate 32 2⟩

def sampleContent : Digest := Octets.replicate 32 7

/-- The bytes that an artifact is shown as. -/
def bytesOrNone (encoded : Except WireError Bytes) : Bytes := encoded.toOption.getD []

/-- An entry for the one content by the owner of some seed. -/
def sampleEntry (owner : UInt8) (contact : String) : Entry :=
  ⟨sampleContent.toBytes, "ada", List.replicate 32 owner, utf8 contact, utf8 contact⟩

/-- An ownership of the one content is signed, two entries for it are logged and proved. -/
def sampleRequests : List Request :=
  [.signOwnership (moment 1) sampleContent.toBytes "ada",
    .append (moment 2) (Octets.zero 12, Octets.zero 12) (sampleEntry 5 "first"),
    .append (moment 3) (Octets.zero 12, Octets.zero 12) (sampleEntry 6 "second"),
    .proof (moment 4) 0, .proof (moment 4) 1]

/-- The signed ownership. -/
def sampleOwnership : Bytes :=
  bytesOrNone (Suite.plain.signOwnership sampleKeys.seed (moment 1) ⟨sampleContent, "ada"⟩ >>=
    SignedOwnership.encode)

/-- The proof of an entry. -/
def sampleProof (i : Nat) : Bytes :=
  match (logged Suite.plain sampleKeys sampleRequests)[i]? with
  | some l => bytesOrNone (proofOf (logged Suite.plain sampleKeys sampleRequests) (moment 4)
      (UInt64.ofNat i) l.leaf).encode
  | none => []

/-- The signature of the first owner. -/
def sampleSignature : Bytes :=
  match (logged Suite.plain sampleKeys sampleRequests)[0]? with
  | some l => bytesOrNone ((Suite.plain.signLeaf (Octets.replicate 32 5) l.leaf).map Octets.toBytes)
  | none => []

/-- The strings that the service signs hashes of. -/
def sampleStrings : List Bytes :=
  (signedOver ([] : List (Logged Suite.plain sampleKeys)) sampleRequests).flatMap Signed.strings

/-- The strings that the service hashes. -/
def sampleHashed : List Bytes :=
  sampleStrings ++ Merkle.buildInputs Suite.plain.hash
    (bytesOf (writtenOf (logged Suite.plain sampleKeys sampleRequests)))

theorem trusted_of_sample {service : Service Versioned}
    (h : Holds Suite.plain sampleKeys [] service) {shown : List (Digest × Signature)}
    {judged : List Bytes}
    (hshown : Suite.plain.Unforged (Suite.plain.publicKey sampleKeys.seed) sampleStrings shown)
    (hjudged : ¬ Suite.plain.hash.Collides judged sampleHashed) :
    Trusted Suite.plain sampleKeys service sampleRequests shown judged := by
  have hsigned : signed Suite.plain service sampleRequests = signedOver [] sampleRequests :=
    h.signed_eq (by decide +kernel)
  constructor
  · rwa [signedStrings, hsigned]
  · rwa [hashed, signedStrings, hsigned]

/-- Whether two artifacts that decode pass a test. -/
def passes {ε α β : Type} (test : α → β → Bool) : Except ε α → Except ε β → Bool
  | .ok a, .ok b => test a b
  | _, _ => false

theorem exists_of_passes {ε α β : Type} {test : α → β → Bool} {first : Except ε α}
    {second : Except ε β} (h : passes test first second = true) :
    ∃ a b, first = .ok a ∧ second = .ok b ∧ test a b = true := by
  cases first with
  | error e => cases h
  | ok a =>
      cases second with
      | error e => cases h
      | ok b => exact ⟨a, b, rfl, rfl, h⟩

/-- Nothing that the sample proofs show is forged, and nothing collides. -/
theorem sample_public {p q : InclusionProof} (hp : InclusionProof.decode (sampleProof 0) = .ok p)
    (hq : InclusionProof.decode (sampleProof 1) = .ok q) :
    Suite.plain.Unforged (Suite.plain.publicKey sampleKeys.seed) sampleStrings
        (p.head.signatures Suite.plain.hash ++ q.head.signatures Suite.plain.hash) ∧
      ¬ Suite.plain.hash.Collides (p.judged Suite.plain.hash ++ q.judged Suite.plain.hash)
        sampleHashed := by
  have h : passes (fun p q : InclusionProof =>
      decide (Suite.plain.Unforged (Suite.plain.publicKey sampleKeys.seed) sampleStrings
          (p.head.signatures Suite.plain.hash ++ q.head.signatures Suite.plain.hash) ∧
        ¬ Suite.plain.hash.Collides (p.judged Suite.plain.hash ++ q.judged Suite.plain.hash)
          sampleHashed))
      (InclusionProof.decode (sampleProof 0)) (InclusionProof.decode (sampleProof 1)) = true := by
    decide +kernel
  rw [hp, hq] at h
  exact of_decide_eq_true h

/-- Nothing that the sample ownership and the second proof show is forged, and nothing collides. -/
theorem sample_private {s : SignedOwnership} {q : InclusionProof}
    (hs : SignedOwnership.decode sampleOwnership = .ok s)
    (hq : InclusionProof.decode (sampleProof 1) = .ok q) :
    Suite.plain.Unforged (Suite.plain.publicKey sampleKeys.seed) sampleStrings
        (s.signatures Suite.plain.hash ++ q.head.signatures Suite.plain.hash) ∧
      ¬ Suite.plain.hash.Collides (s.judged ++ q.judged Suite.plain.hash) sampleHashed := by
  have h : passes (fun (s : SignedOwnership) (q : InclusionProof) =>
      decide (Suite.plain.Unforged (Suite.plain.publicKey sampleKeys.seed) sampleStrings
          (s.signatures Suite.plain.hash ++ q.head.signatures Suite.plain.hash) ∧
        ¬ Suite.plain.hash.Collides (s.judged ++ q.judged Suite.plain.hash) sampleHashed))
      (SignedOwnership.decode sampleOwnership) (InclusionProof.decode (sampleProof 1)) = true := by
    decide +kernel
  rw [hs, hq] at h
  exact of_decide_eq_true h

/-- The dispute in memory, under the suite in the open: the first owner and the holder of the signed
ownership are both granted the contact data of the second owner. -/
theorem granted_claims_have_priority_sample :
    Suite.plain.DecryptsOwn ∧ LawfulStore.Ready Versioned.empty ∧
    LawfulStore.view Versioned.empty = View.empty ∧ (1 : UInt64) ≠ 0 ∧
    (logged Suite.plain sampleKeys sampleRequests).length ≤ 2 ^ 63 ∧
    ∃ service s', start (moment 0) sampleKeys 1 Versioned.empty = (.ok service, s') ∧
      ((service.judge Suite.plain).claimPublic Suite.plain (sampleProof 0) (sampleProof 1)
        sampleSignature).granted = true ∧
      (∃ b ∈ logged Suite.plain sampleKeys sampleRequests,
        ((service.judge Suite.plain).claimPublic Suite.plain (sampleProof 0) (sampleProof 1)
          sampleSignature).data = textLossy b.entry.publicPayload) ∧
      ((service.judge Suite.plain).claimPrivate Suite.plain sampleOwnership
        (sampleProof 1)).granted = true ∧
      ∃ b ∈ logged Suite.plain sampleKeys sampleRequests,
        ((service.judge Suite.plain).claimPrivate Suite.plain sampleOwnership
          (sampleProof 1)).data = textLossy b.entry.privatePayload := by
  have hready : LawfulStore.Ready Versioned.empty := Versioned.bounded_empty
  have hempty : LawfulStore.view Versioned.empty = View.empty := Versioned.current_empty
  have hpage : (1 : UInt64) ≠ 0 := by decide
  have hle : (logged Suite.plain sampleKeys sampleRequests).length ≤ 2 ^ 63 := by decide +kernel
  obtain ⟨service, s', hstart, -, hpublic, hprivate⟩ :=
    granted_claims_have_priority Suite.plain_decryptsOwn hready hempty (moment 0) sampleKeys hpage
      sampleRequests hle
  obtain ⟨service', s'', hstart', h⟩ :=
    start_holds hready hempty Suite.plain (moment 0) sampleKeys hpage
  cases hstart.symm.trans hstart'
  have hjudge : service.judge Suite.plain = ⟨sampleKeys.seed, sampleKeys.key⟩ := by
    rw [judge, publicKey, h.keys_eq]
    rfl
  have hgranted : ((service.judge Suite.plain).claimPublic Suite.plain (sampleProof 0)
      (sampleProof 1) sampleSignature).granted = true := by
    rw [hjudge]
    decide +kernel
  have hgranted' : ((service.judge Suite.plain).claimPrivate Suite.plain sampleOwnership
      (sampleProof 1)).granted = true := by
    rw [hjudge]
    decide +kernel
  obtain ⟨p, q, hp, hq, hpriority⟩ := hpublic _ _ _ hgranted
  obtain ⟨hshown, hjudged⟩ := sample_public hp hq
  obtain ⟨-, b, -, -, hb, -, -, -, -, hdata⟩ := hpriority (trusted_of_sample h hshown hjudged)
  obtain ⟨s, q', hs, hq', hpriority'⟩ := hprivate _ _ hgranted'
  obtain ⟨hshown', hjudged'⟩ := sample_private hs hq'
  obtain ⟨-, b', hb', -, -, -, hdata'⟩ := hpriority' (trusted_of_sample h hshown' hjudged')
  exact ⟨Suite.plain_decryptsOwn, hready, hempty, hpage, hle, service, s', hstart, hgranted,
    ⟨b, List.mem_of_getElem? hb, hdata⟩, hgranted', b', List.mem_of_getElem? hb', hdata'⟩

end Service

end OwnershipLog
