import OwnershipLog.Client
import OwnershipLog.Proofs.Claim.Checks
import OwnershipLog.Proofs.Service.Served
import OwnershipLog.Proofs.Text.Lossy

/-!
# What a client is answered

A client who knows the keys of the log finds nothing wrong with what an honest log
serves: a registration that is logged leaves a proof of its own leaf
(`Registration.perform_of_logged`), and a private one a signed ownership
(`preregister_of_le`). A claim with either is judged on the content and the order
alone (`claim_proof`, `claim_ownership`), with the proof of the filing taken when the
log was of any size (`Proves`).
-/

namespace OwnershipLog

/-- The verdict on artifacts beyond doubt: the content decides first, then the order. -/
def Verdict.byPriority (same earlier : Prop) [Decidable same] [Decidable earlier] (data : String) :
    Verdict :=
  if same then if earlier then ⟨true, data⟩ else ⟨false, "claimed content was first"⟩
  else ⟨false, "this is not your content"⟩

namespace Verdict

/-- What is said of a content that is another, or of one that was there first. -/
theorem of_ite {same same' earlier : Prop} [Decidable same] [Decidable same'] [Decidable earlier]
    (hsame : same ↔ same') {late : Denial} (hlate : late.message = "claimed content was first")
    (data : String) :
    Verdict.of (if same then if earlier then .ok (utf8 data) else .error late
      else .error .contentHashMismatch) = byPriority same' earlier data := by
  by_cases h : same
  · rw [byPriority, if_pos h, if_pos (hsame.1 h)]
    by_cases h' : earlier
    · rw [if_pos h', if_pos h', Verdict.of, textLossy_utf8]
    · rw [if_neg h', if_neg h', Verdict.of, hlate]
  · rw [byPriority, if_neg h, if_neg fun h' => h (hsame.2 h')]
    rfl

end Verdict

namespace Client

open Service (Logged Holds ZeroFree logged? proofOf)

variable {suite : Suite} {keys : KeyMaterial}

/-- The client of a log with these keys, and of the judge who knows them. -/
def matching (suite : Suite) (keys : KeyMaterial) (seed : Seed) : Client :=
  ⟨seed, suite.publicKey keys.seed, ⟨suite.publicKey keys.seed, keys.key⟩⟩

/-- What a client asks for when it registers, with the instants at which the entry is logged and its
proof is fetched. -/
structure Registration where
  seed : Seed
  now : Timestamp
  later : Timestamp
  nonces : Nonce × Nonce
  content : Digest
  name : String
  privateData : String
  publicData : String
deriving DecidableEq

/-- The entry that a registration asks to be logged. -/
def Registration.entry (suite : Suite) (r : Registration) : Service.Entry :=
  ⟨r.content.toBytes, r.name, (suite.publicKey r.seed).toBytes, utf8 r.privateData,
    utf8 r.publicData⟩

/-- The entry of a registration with its leaf, if it can be logged. -/
def Registration.logged? (suite : Suite) (keys : KeyMaterial) (r : Registration) :
    Option (Logged suite keys) := Service.logged? suite keys r.now r.nonces (r.entry suite)

variable {S R W : Type} [Store S R W]

/-- A registration by the client that it names. -/
def Registration.perform (suite : Suite) (clients : Seed → Client) (service : Service S)
    (r : Registration) : Except ClientError (UInt64 × Filing) × Service S :=
  (clients r.seed).register suite r.now r.later r.nonces r.content r.name r.privateData
    r.publicData service

/-- Bytes that decode to a proof of the leaf at an index, with the head of the log at some size. -/
def Proves (log : List (Logged suite keys)) (index : UInt64) (own : Bytes) : Prop :=
  ∃ n now l, n ≤ log.length ∧ (log.take n)[index.toNat]? = some l ∧
    InclusionProof.decode own = .ok (proofOf (log.take n) now index l.leaf)

variable {log : List (Logged suite keys)}

theorem Proves.of_decode {index : UInt64} {own : Bytes} {now : Timestamp} {l : Logged suite keys}
    (hat : log[index.toNat]? = some l)
    (hdecode : InclusionProof.decode own = .ok (proofOf log now index l.leaf))
    (later : List (Logged suite keys)) : Proves (log ++ later) index own := by
  refine ⟨log.length, now, l, ?_, ?_, ?_⟩
  · rw [List.length_append]
    exact Nat.le_add_right _ _
  · rwa [List.take_left]
  · rwa [List.take_left]

variable [LawfulStore S R W] {service : Service S}

theorem ofService_judge (h : Holds suite keys log service) (seed : Seed) :
    ofService suite seed (service.judge suite) service = matching suite keys seed := by
  rw [ofService, Service.judge, Service.publicKey, h.keys_eq, matching]

/-! ## What a client checks -/

theorem readable_eq_ok_iff {α : Type} {decoded : Except WireError α} {a : α} :
    readable decoded = .ok a ↔ decoded = .ok a := by
  cases decoded with
  | ok b => simp [readable]
  | error cause => simp [readable]

theorem require_eq_ok_iff {condition : Bool} {error : ClientError} {u : Unit} :
    require condition error = .ok u ↔ condition = true := by
  cases condition with
  | true => simp [require]
  | false => simp [require]

theorem checkProof_of_verified {client : Client} {content : Digest} {bytes : Bytes}
    {p : InclusionProof} (hdecode : InclusionProof.decode bytes = .ok p)
    (hverify : suite.verifyProof client.logKey p = true)
    (hcontent : p.leaf.ownership.contentHash = content) :
    client.checkProof suite content bytes = .ok (.proof bytes) :=
  bind_eq_ok_iff.2 ⟨p, readable_eq_ok_iff.2 hdecode,
    bind_eq_ok_iff.2 ⟨(), require_eq_ok_iff.2 hverify,
      bind_eq_ok_iff.2 ⟨(), require_eq_ok_iff.2 (decide_eq_true hcontent), rfl⟩⟩⟩

theorem checkOwnership_of_verified {client : Client} {content : Digest} {bytes : Bytes}
    {s : SignedOwnership} (hdecode : SignedOwnership.decode bytes = .ok s)
    (hverify : suite.verifyOwnership client.logKey s = true)
    (hcontent : s.ownership.contentHash = content) :
    client.checkOwnership suite content bytes = .ok (.ownership bytes) :=
  bind_eq_ok_iff.2 ⟨s, readable_eq_ok_iff.2 hdecode,
    bind_eq_ok_iff.2 ⟨(), require_eq_ok_iff.2 hverify,
      bind_eq_ok_iff.2 ⟨(), require_eq_ok_iff.2 (decide_eq_true hcontent), rfl⟩⟩⟩

/-! ## Registrations -/

theorem entry_of_logged?_eq {r : Registration} {l : Logged suite keys}
    (h : r.logged? suite keys = some l) : l.now = r.now ∧ l.entry = r.entry suite := by
  obtain ⟨hnow, -, hentry⟩ := Service.entry_of_logged? h
  exact ⟨hnow, hentry⟩

/-- A registration that is logged leaves its client with a proof of its own leaf. -/
theorem Registration.perform_of_logged (h : Holds suite keys log service)
    (hown : suite.VerifiesOwn) (hlt : log.length < 2 ^ 63) {r : Registration}
    {l : Logged suite keys} (hlogged : r.logged? suite keys = some l)
    (hzero : ZeroFree (log ++ [l])) :
    ∃ own service', r.perform suite (matching suite keys) service =
        (.ok (UInt64.ofNat log.length, .proof own), service') ∧
      InclusionProof.decode own =
        .ok (proofOf (log ++ [l]) r.later (UInt64.ofNat log.length) l.leaf) ∧
      Holds suite keys (log ++ [l]) service' := by
  have hle : (log ++ [l]).length ≤ 2 ^ 63 := by
    rw [List.length_append, List.length_singleton]
    omega
  have hat : (log ++ [l])[(UInt64.ofNat log.length).toNat]? = some l := by
    rw [toNat_ofNat_of_le hlt.le, List.getElem?_concat_length]
  obtain ⟨service₁, happend, h₁⟩ := h.append hlt hlogged
  obtain ⟨own, service₂, hproof, hdecode, h₂⟩ := h₁.proof hle r.later hat
  have hverify := Service.verifyProof_proofOf hown hle (hzero.nowhereZero hle) r.later hat
  have hcontent : l.leaf.ownership.contentHash = r.content := by
    apply Octets.ext
    rw [l.contentHash_eq, (entry_of_logged?_eq hlogged).2]
    rfl
  have hcheck : (matching suite keys r.seed).checkProof suite r.content own = .ok (.proof own) :=
    checkProof_of_verified hdecode hverify hcontent
  refine ⟨own, service₂, ?_, hdecode, h₂⟩
  have happend' : service.append suite r.now r.nonces ⟨r.content.toBytes, r.name,
      ((matching suite keys r.seed).publicKey suite).toBytes, utf8 r.privateData,
      utf8 r.publicData⟩ = _ := happend
  rw [perform, register]
  simp only [happend', hproof]
  exact Prod.ext (bind_eq_ok_iff.2 ⟨own, rfl, bind_eq_ok_iff.2 ⟨.proof own, hcheck, rfl⟩⟩) rfl

/-- A registration that cannot be logged fails with what the log says, and changes nothing. -/
theorem Registration.perform_of_none (h : Holds suite keys log service) {r : Registration}
    (hnone : r.logged? suite keys = none) :
    ∃ e, r.perform suite (matching suite keys) service = (.error (.log e), service) := by
  obtain ⟨e, happend⟩ := h.append_of_none hnone
  refine ⟨e, ?_⟩
  have happend' : service.append suite r.now r.nonces ⟨r.content.toBytes, r.name,
      ((matching suite keys r.seed).publicKey suite).toBytes, utf8 r.privateData,
      utf8 r.publicData⟩ = _ := happend
  rw [perform, register]
  simp only [happend']

/-- Every name that fits its length byte can be registered privately. -/
theorem preregister_of_le (h : Holds suite keys log service) (hown : suite.VerifiesOwn)
    (seed : Seed) (now : Timestamp) (content : Digest) {name : String}
    (hname : name.utf8ByteSize ≤ maxName) :
    ∃ own signature, (matching suite keys seed).preregister suite now content name service =
        .ok (.ownership own) ∧
      SignedOwnership.decode own = .ok ⟨now, ⟨content, name⟩, signature⟩ ∧
      suite.verifyOwnership (suite.publicKey keys.seed) ⟨now, ⟨content, name⟩, signature⟩ =
        true := by
  obtain ⟨own, signature, hsign, hdecode, hverify⟩ := h.signOwnership hown now content hname
  refine ⟨own, signature, ?_, hdecode, hverify⟩
  rw [preregister, hsign]
  exact checkOwnership_of_verified hdecode hverify rfl

/-! ## Claims -/

/-- A claim hands the judge the bytes that are served for the leaf at the index. -/
theorem claim_fst (h : Holds suite keys log service) (hle : log.length ≤ 2 ^ 63) (seed : Seed)
    (now : Timestamp) (filing : Filing) {index : UInt64} {l : Logged suite keys}
    (hat : log[index.toNat]? = some l) :
    ∃ claimed, InclusionProof.decode claimed = .ok (proofOf log now index l.leaf) ∧
      ((matching suite keys seed).claim suite now filing index service).1 =
        (matching suite keys seed).present suite filing claimed := by
  obtain ⟨claimed, service', hproof, hdecode, -⟩ := h.proof hle now hat
  refine ⟨claimed, hdecode, ?_⟩
  rw [claim, hproof]
  rfl

/-- A claim with the proof of a leaf by the owner of the leaf. -/
theorem claim_proof (h : Holds suite keys log service) (hverifies : suite.VerifiesOwn)
    (hdecrypts : suite.DecryptsOwn) (hle : log.length ≤ 2 ^ 63) (hzero : ZeroFree log)
    {own : Bytes} {i j : UInt64} (hproves : Proves log i own) {a b : Logged suite keys}
    (ha : log[i.toNat]? = some a) (hb : log[j.toNat]? = some b) {seed : Seed}
    (hkey : a.entry.publicKey = (suite.publicKey seed).toBytes) {same : Prop} [Decidable same]
    (hsame : a.entry.contentHash = b.entry.contentHash ↔ same) {data : String}
    (hdata : b.entry.publicPayload = utf8 data) (now : Timestamp) :
    ((matching suite keys seed).claim suite now (.proof own) j service).1 =
      .ok (.byPriority same (i < j) data) := by
  obtain ⟨n, taken, a', hn, ha', hown⟩ := hproves
  obtain rfl : a' = a := by
    have hlt : i.toNat < n := by
      have hlt' := (List.getElem?_eq_some_iff.1 ha').1
      rwa [List.length_take_of_le hn] at hlt'
    rw [List.getElem?_take_of_lt hlt] at ha'
    exact Option.some.inj (ha'.symm.trans ha)
  obtain ⟨claimed, hclaimed, hclaim⟩ := claim_fst h hle seed now (.proof own) hb
  have hbefore : (log.take n).length ≤ 2 ^ 63 := by rw [List.length_take_of_le hn]; omega
  have hp := Service.verifyProof_proofOf hverifies hbefore ((hzero.take n).nowhereZero hbefore)
    taken ha'
  have hq := Service.verifyProof_proofOf hverifies hle (hzero.nowhereZero hle) now hb
  have hleaf : suite.verifyLeaf a'.leaf.publicKey a'.leaf
      (suite.sign seed (suite.hash a'.written.bytes)).toBytes = true := by
    rw [a'.publicKey_eq, hkey]
    exact Suite.verifyLeaf_sign hverifies seed a'.written.encode_eq
  have hopen := b.openPayload_public hdecrypts
  rw [hdata] at hopen
  have hjudged : (matching suite keys seed).monitor.judgePublic suite _ _ _ = _ :=
    Adjudicator.judgePublic_of_verified hp hq hleaf hopen
  rw [hclaim]
  refine bind_eq_ok_iff.2 ⟨_, readable_eq_ok_iff.2 hown, bind_eq_ok_iff.2 ⟨_, readable_eq_ok_iff.2
    (Suite.signLeaf_of_ok a'.written.encode_eq seed), ?_⟩⟩
  show Except.ok _ = _
  rw [Adjudicator.claimPublic_of_decoded hown hclaimed, hjudged]
  exact congrArg Except.ok (Verdict.of_ite ((Logged.contentHash_eq_iff a' b).trans hsame) rfl data)

/-- A claim with a signed ownership, by anyone. -/
theorem claim_ownership (h : Holds suite keys log service) (hverifies : suite.VerifiesOwn)
    (hdecrypts : suite.DecryptsOwn) (hle : log.length ≤ 2 ^ 63) (hzero : ZeroFree log)
    {own : Bytes} {s : SignedOwnership} (hown : SignedOwnership.decode own = .ok s)
    (hverify : suite.verifyOwnership (suite.publicKey keys.seed) s = true) {j : UInt64}
    {b : Logged suite keys} (hb : log[j.toNat]? = some b) {same : Prop} [Decidable same]
    (hsame : s.ownership.contentHash.toBytes = b.entry.contentHash ↔ same) {data : String}
    (hdata : b.entry.privatePayload = utf8 data) (seed : Seed) (now : Timestamp) :
    ((matching suite keys seed).claim suite now (.ownership own) j service).1 =
      .ok (.byPriority same (s.timestamp.isBefore b.leaf.created = true) data) := by
  obtain ⟨claimed, hclaimed, hclaim⟩ := claim_fst h hle seed now (.ownership own) hb
  have hq := Service.verifyProof_proofOf hverifies hle (hzero.nowhereZero hle) now hb
  have hopen := b.openPayload_private hdecrypts
  rw [hdata] at hopen
  have hjudged : (matching suite keys seed).monitor.judgePrivate suite _ _ = _ :=
    Adjudicator.judgePrivate_of_verified hverify hq hopen
  have hsame' : s.ownership.contentHash = b.leaf.ownership.contentHash ↔ same := by
    rw [Octets.ext_iff, b.contentHash_eq]
    exact hsame
  rw [hclaim]
  show Except.ok _ = _
  rw [Adjudicator.claimPrivate_of_decoded hown hclaimed, hjudged]
  exact congrArg Except.ok (Verdict.of_ite hsame' rfl data)

end Client

end OwnershipLog
