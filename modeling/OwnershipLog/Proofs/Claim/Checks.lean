import OwnershipLog.Claim
import OwnershipLog.Proofs.Wire.RoundTrip

/-!
# What a verdict says

The checks of a claim are a chain of guards, so a claim is granted exactly when all
of them hold and the payload opens (`checkPublic_eq_ok_iff`,
`checkPrivate_eq_ok_iff`). When the artifacts are beyond doubt, what is left is the
content and the order: `judgePublic_of_verified` and `judgePrivate_of_verified`
say which of the two denies a claim, in this order, and what is released otherwise.
-/

namespace OwnershipLog

/-! ## Verdicts -/

namespace Verdict

theorem granted_of_iff {judged : Except Denial Bytes} :
    (Verdict.of judged).granted = true ↔ ∃ payload, judged = .ok payload := by
  cases judged with
  | ok payload => simp [Verdict.of]
  | error denial => simp [Verdict.of]

theorem of_ok {judged : Except Denial Bytes} {payload : Bytes} (h : judged = .ok payload) :
    Verdict.of judged = ⟨true, textLossy payload⟩ := by
  rw [h, Verdict.of]

theorem denied_of_iff {judged : Except Denial Bytes} :
    (Verdict.of judged).granted = false ↔ ∃ denial, judged = .error denial := by
  cases judged with
  | ok payload => simp [Verdict.of]
  | error denial => simp [Verdict.of]

theorem of_eq_granted_iff {judged : Except Denial Bytes} {text : String} :
    Verdict.of judged = ⟨true, text⟩ ↔
      ∃ payload, judged = .ok payload ∧ text = textLossy payload := by
  cases judged with
  | ok payload => simp [Verdict.of, eq_comm]
  | error denial => simp [Verdict.of]

theorem of_eq_denied_iff {judged : Except Denial Bytes} {text : String} :
    Verdict.of judged = ⟨false, text⟩ ↔
      ∃ denial, judged = .error denial ∧ text = denial.message := by
  cases judged with
  | ok payload => simp [Verdict.of]
  | error denial => simp [Verdict.of, eq_comm]

end Verdict

namespace Adjudicator

variable {suite : Suite} {judge : Adjudicator}

@[simp] theorem require_eq_ok_iff {condition : Bool} {denial : Denial} {u : Unit} :
    require condition denial = .ok u ↔ condition = true := by
  cases condition with
  | true => simp [require]
  | false => simp [require]

theorem require_bind {α : Type} (condition : Bool) (denial : Denial)
    (next : Unit → Except Denial α) :
    (require condition denial >>= next) = if condition then next () else .error denial := by
  cases condition with
  | true => rfl
  | false => rfl

theorem readArtifact_eq_ok_iff {α : Type} {decoded : Except WireError α} {artifact : α} :
    readArtifact decoded = .ok artifact ↔ decoded = .ok artifact := by
  cases decoded with
  | ok a => simp [readArtifact]
  | error cause => simp [readArtifact]

theorem release_eq_ok_iff {domain : Domain} {bytes payload : Bytes} :
    judge.release suite domain bytes = .ok payload ↔
      suite.openPayload judge.key domain bytes = some payload := by
  rw [release]
  cases suite.openPayload judge.key domain bytes with
  | some opened => simp
  | none => simp

/-! ## When all checks hold -/

theorem checkPublic_eq_ok_iff {claiming claimed : InclusionProof} {signature : Bytes} :
    judge.checkPublic suite claiming claimed signature = .ok () ↔
      suite.verifyHead judge.authority claiming.head = true ∧
      claiming.verifyHashes suite.hash = true ∧
      suite.verifyHead judge.authority claimed.head = true ∧
      claimed.verifyHashes suite.hash = true ∧
      claiming.leaf.ownership.contentHash = claimed.leaf.ownership.contentHash ∧
      claiming.index < claimed.index ∧
      suite.verifyLeaf claiming.leaf.publicKey claiming.leaf signature = true := by
  simp [checkPublic, bind_eq_ok_iff]

theorem checkPrivate_eq_ok_iff {claiming : SignedOwnership} {claimed : InclusionProof} :
    judge.checkPrivate suite claiming claimed = .ok () ↔
      suite.verifyOwnership judge.authority claiming = true ∧
      suite.verifyHead judge.authority claimed.head = true ∧
      claimed.verifyHashes suite.hash = true ∧
      claiming.ownership.contentHash = claimed.leaf.ownership.contentHash ∧
      claiming.timestamp.isBefore claimed.leaf.created = true := by
  simp [checkPrivate, bind_eq_ok_iff]

/-- A public claim is granted when its bytes spell two proofs that pass the checks and the payload
opens; the verdict tells the payload. -/
theorem claimPublic_granted_iff {claiming claimed signature : Bytes} :
    (judge.claimPublic suite claiming claimed signature).granted = true ↔
      ∃ p q payload, InclusionProof.decode claiming = .ok p ∧
        InclusionProof.decode claimed = .ok q ∧ judge.checkPublic suite p q signature = .ok () ∧
        suite.openPayload judge.key .publicClaim q.leaf.publicData = some payload ∧
        judge.claimPublic suite claiming claimed signature = ⟨true, textLossy payload⟩ := by
  constructor
  · intro h
    obtain ⟨payload, hjudged⟩ := Verdict.granted_of_iff.1 h
    have hverdict := Verdict.of_ok hjudged
    obtain ⟨p, hp, h₁⟩ := bind_eq_ok_iff.1 hjudged
    obtain ⟨q, hq, h₂⟩ := bind_eq_ok_iff.1 h₁
    obtain ⟨u, hcheck, hrelease⟩ := bind_eq_ok_iff.1 h₂
    exact ⟨p, q, payload, readArtifact_eq_ok_iff.1 hp, readArtifact_eq_ok_iff.1 hq, hcheck,
      release_eq_ok_iff.1 hrelease, hverdict⟩
  · rintro ⟨p, q, payload, -, -, -, -, hverdict⟩
    rw [hverdict]

/-- A private claim is granted when its bytes spell an ownership and a proof that pass the checks
and the payload opens; the verdict tells the payload. -/
theorem claimPrivate_granted_iff {claiming claimed : Bytes} :
    (judge.claimPrivate suite claiming claimed).granted = true ↔
      ∃ s q payload, SignedOwnership.decode claiming = .ok s ∧
        InclusionProof.decode claimed = .ok q ∧ judge.checkPrivate suite s q = .ok () ∧
        suite.openPayload judge.key .privateClaim q.leaf.privateData = some payload ∧
        judge.claimPrivate suite claiming claimed = ⟨true, textLossy payload⟩ := by
  constructor
  · intro h
    obtain ⟨payload, hjudged⟩ := Verdict.granted_of_iff.1 h
    have hverdict := Verdict.of_ok hjudged
    obtain ⟨s, hs, h₁⟩ := bind_eq_ok_iff.1 hjudged
    obtain ⟨q, hq, h₂⟩ := bind_eq_ok_iff.1 h₁
    obtain ⟨u, hcheck, hrelease⟩ := bind_eq_ok_iff.1 h₂
    exact ⟨s, q, payload, readArtifact_eq_ok_iff.1 hs, readArtifact_eq_ok_iff.1 hq, hcheck,
      release_eq_ok_iff.1 hrelease, hverdict⟩
  · rintro ⟨s, q, payload, -, -, -, -, hverdict⟩
    rw [hverdict]

/-! ## When the artifacts are beyond doubt -/

theorem claimPublic_of_decoded {claiming claimed : Bytes} {p q : InclusionProof}
    (hp : InclusionProof.decode claiming = .ok p) (hq : InclusionProof.decode claimed = .ok q)
    (signature : Bytes) :
    judge.claimPublic suite claiming claimed signature =
      .of (judge.judgePublic suite p q signature) := by
  rw [claimPublic, hp, hq]
  rfl

theorem claimPrivate_of_decoded {claiming claimed : Bytes} {s : SignedOwnership}
    {q : InclusionProof} (hs : SignedOwnership.decode claiming = .ok s)
    (hq : InclusionProof.decode claimed = .ok q) :
    judge.claimPrivate suite claiming claimed = .of (judge.judgePrivate suite s q) := by
  rw [claimPrivate, hs, hq]
  rfl

/-- Two proofs that verify and a signature that holds: the content decides first, then the order. -/
theorem judgePublic_of_verified {p q : InclusionProof} {signature payload : Bytes}
    (hp : suite.verifyProof judge.authority p = true)
    (hq : suite.verifyProof judge.authority q = true)
    (hleaf : suite.verifyLeaf p.leaf.publicKey p.leaf signature = true)
    (hopen : suite.openPayload judge.key .publicClaim q.leaf.publicData = some payload) :
    judge.judgePublic suite p q signature =
      if p.leaf.ownership.contentHash = q.leaf.ownership.contentHash then
        if p.index < q.index then .ok payload else .error .notLater
      else .error .contentHashMismatch := by
  rw [Suite.verifyProof, Bool.and_eq_true] at hp hq
  rw [judgePublic, checkPublic, release]
  simp only [require_bind, hp.1, hp.2, hq.1, hq.2, hleaf, hopen, decide_eq_true_eq, if_true]
  split
  · split
    · rfl
    · rfl
  · rfl

/-- An ownership and a proof that verify: the content decides first, then the instants. -/
theorem judgePrivate_of_verified {s : SignedOwnership} {q : InclusionProof} {payload : Bytes}
    (hs : suite.verifyOwnership judge.authority s = true)
    (hq : suite.verifyProof judge.authority q = true)
    (hopen : suite.openPayload judge.key .privateClaim q.leaf.privateData = some payload) :
    judge.judgePrivate suite s q =
      if s.ownership.contentHash = q.leaf.ownership.contentHash then
        if s.timestamp.isBefore q.leaf.created then .ok payload else .error .notEarlier
      else .error .contentHashMismatch := by
  rw [Suite.verifyProof, Bool.and_eq_true] at hq
  rw [judgePrivate, checkPrivate, release]
  simp only [require_bind, hs, hq.1, hq.2, hopen, decide_eq_true_eq, if_true]
  split
  · cases hbefore : s.timestamp.isBefore q.leaf.created with
    | true => rfl
    | false => rfl
  · rfl

end Adjudicator

end OwnershipLog
