import OwnershipLog.Proofs.Claim.Priority
import OwnershipLog.Proofs.Wire.Domain

/-!
# The first check that fails

Every denial stands for a check, and `Claim.Fails` says of each check on its own when a claim fails
it, whatever becomes of the others. A claim is denied with the first denial, in the order in which
denials are declared, whose check it fails, and granted if it fails none (`Claim.decides_judged`).

Only the last of the checks opens a payload. So the key that payloads are sealed under, and
whatever comes out of opening one, have no part in any other denial
(`Claim.judged_of_ne_undecryptable`).
-/

namespace OwnershipLog

/-! ## The order of denials -/

namespace Denial

/-- The place of a denial among the others, as they are declared. -/
def rank (denial : Denial) : Nat := denial.ctorIdx

/-- Each denial comes after those before it in the list. -/
def Ascending (denials : List Denial) : Prop := denials.Pairwise fun a b => a.rank < b.rank

instance (denials : List Denial) : Decidable (Ascending denials) :=
  inferInstanceAs (Decidable (List.Pairwise _ denials))

/-- The denial is the first one with a property. -/
def IsFirst (denial : Denial) (fails : Denial → Prop) : Prop :=
  fails denial ∧ ∀ other, fails other → denial.rank ≤ other.rank

variable {fails fails' : Denial → Prop} {denial other : Denial}

theorem isFirst_congr (h : ∀ other, fails other ↔ fails' other) :
    denial.IsFirst fails ↔ denial.IsFirst fails' := by
  rw [IsFirst, IsFirst, h denial]
  exact and_congr_right fun _ => forall_congr' fun other => imp_congr_left (h other)

/-- Bytes that cannot be read come before all else. -/
theorem isFirst_iff_of_malformed {cause : WireError}
    (h : ∀ other, fails (.malformed other) ↔ other = cause) :
    denial.IsFirst fails ↔ denial = .malformed cause := by
  constructor
  · rintro ⟨hfails, hleast⟩
    have hrank : denial.rank ≤ 0 := hleast _ ((h cause).2 rfl)
    cases denial with
    | malformed other => rw [(h other).1 hfails]
    | _ => exact absurd hrank (by decide)
  · rintro rfl
    exact ⟨(h cause).2 rfl, fun _ _ => Nat.zero_le _⟩

theorem rank_lt_of_ne (h : denial ≠ .undecryptable) : denial.rank < undecryptable.rank := by
  cases denial with
  | undecryptable => exact absurd rfl h
  | malformed cause => exact Nat.zero_lt_succ _
  | _ => decide

theorem IsFirst.ne_undecryptable (h : denial.IsFirst fails) (hother : other ≠ .undecryptable)
    (hfails : fails other) : denial ≠ .undecryptable := by
  rintro rfl
  exact absurd (h.2 other hfails) (Nat.not_le.2 (rank_lt_of_ne hother))

/-- Which denial is the first one does not depend on whether the last of all has the property. -/
theorem IsFirst.of_agree (h : denial.IsFirst fails) (hne : denial ≠ .undecryptable)
    (hagree : ∀ d, d ≠ .undecryptable → (fails' d ↔ fails d)) : denial.IsFirst fails' := by
  refine ⟨(hagree denial hne).2 h.1, fun d hd => ?_⟩
  by_cases hlast : d = .undecryptable
  · rw [hlast]
    exact (rank_lt_of_ne hne).le
  · exact h.2 d ((hagree d hlast).1 hd)

end Denial

namespace Adjudicator

/-! ## Checks in turn -/

/-- What is judged is denied with the first check that fails, or granted with what opens. -/
structure Decides (fails : Denial → Prop) (opens : Bytes → Prop)
    (judged : Except Denial Bytes) : Prop where
  error_iff : ∀ denial, judged = .error denial ↔ denial.IsFirst fails
  ok_iff : ∀ payload, judged = .ok payload ↔ (∀ denial, ¬ fails denial) ∧ opens payload

theorem Decides.congr {fails fails' : Denial → Prop} {opens opens' : Bytes → Prop}
    {judged : Except Denial Bytes} (h : Decides fails opens judged)
    (hfails : ∀ denial, fails' denial ↔ fails denial)
    (hopens : ∀ payload, opens' payload ↔ opens payload) : Decides fails' opens' judged where
  error_iff denial := (h.error_iff denial).trans (Denial.isFirst_congr fun d => (hfails d).symm)
  ok_iff payload := by
    rw [h.ok_iff payload, hopens payload]
    exact and_congr_left' (forall_congr' fun d => not_congr (hfails d).symm)

/-- Require every condition in turn, each with the denial for those that do not meet it. -/
def requireAll (checks : List (Denial × Bool)) : Except Denial Unit :=
  forM checks fun check => require check.2 check.1

theorem requireAll_nil : requireAll [] = .ok () := rfl

theorem requireAll_cons (check : Denial × Bool) (rest : List (Denial × Bool)) :
    requireAll (check :: rest) = if check.2 then requireAll rest else .error check.1 := by
  rw [requireAll, List.forM_cons, require_bind]
  rfl

theorem requireAll_append (checks rest : List (Denial × Bool)) :
    requireAll (checks ++ rest) = (requireAll checks >>= fun _ => requireAll rest) :=
  List.forM_append

theorem requireAll_eq_ok_iff {checks : List (Denial × Bool)} :
    requireAll checks = .ok () ↔ ∀ denial, (denial, false) ∉ checks := by
  induction checks with
  | nil => simp [requireAll_nil]
  | cons check rest ih =>
      obtain ⟨head, condition⟩ := check
      rw [requireAll_cons]
      cases condition with
      | true => simp [ih]
      | false =>
          simp only [Bool.false_eq_true, if_false, reduceCtorEq, false_iff, not_forall, not_not]
          exact ⟨head, List.mem_cons_self⟩

/-- With the denials in their order, the first condition that is not met denies. -/
theorem requireAll_eq_error_iff {checks : List (Denial × Bool)} {denial : Denial}
    (hsorted : Denial.Ascending (checks.map Prod.fst)) :
    requireAll checks = .error denial ↔ denial.IsFirst fun other => (other, false) ∈ checks := by
  induction checks with
  | nil => simp [requireAll_nil, Denial.IsFirst]
  | cons check rest ih =>
      rw [Denial.Ascending, List.map_cons, List.pairwise_cons, List.forall_mem_map] at hsorted
      obtain ⟨head, condition⟩ := check
      rw [requireAll_cons]
      cases condition with
      | true =>
          rw [if_pos rfl, ih hsorted.2]
          exact Denial.isFirst_congr fun other => by simp
      | false =>
          -- The head denies, and whatever else is not met comes after it.
          rw [if_neg Bool.false_ne_true, Except.error.injEq]
          constructor
          · rintro rfl
            refine ⟨List.mem_cons_self, fun other hother => ?_⟩
            rcases List.mem_cons.1 hother with heq | hmem
            · rw [(Prod.mk.inj heq).1]
            · exact (hsorted.1 _ hmem).le
          · rintro ⟨hmem, hleast⟩
            rcases List.mem_cons.1 hmem with heq | hlater
            · exact (Prod.mk.inj heq).1.symm
            · exact absurd (hleast head List.mem_cons_self) (Nat.not_le.2 (hsorted.1 _ hlater))

variable {suite : Suite} {judge : Adjudicator}

/-- That the payload opens is one more condition, after the others. -/
theorem decides_release (checks : List (Denial × Bool)) {domain : Domain} {bytes : Bytes}
    (hsorted : Denial.Ascending (checks.map Prod.fst ++ [.undecryptable])) :
    Decides
      (fun denial => (denial, false) ∈ checks ++
        [(.undecryptable, (suite.openPayload judge.key domain bytes).isSome)])
      (fun payload => suite.openPayload judge.key domain bytes = some payload)
      (requireAll checks >>= fun _ => judge.release suite domain bytes) where
  error_iff denial := by
    rw [← requireAll_eq_error_iff (by simpa using hsorted), requireAll_append, requireAll_cons,
      requireAll_nil, bind_eq_error_iff, bind_eq_error_iff, release]
    cases suite.openPayload judge.key domain bytes with
    | some payload => simp
    | none => simp
  ok_iff payload := by
    rw [← requireAll_eq_ok_iff, requireAll_append, requireAll_cons, requireAll_nil, bind_eq_ok_iff,
      bind_eq_ok_iff]
    simp only [release_eq_ok_iff]
    constructor
    · rintro ⟨u, hchecks, hopen⟩
      exact ⟨⟨u, hchecks, by rw [hopen]; rfl⟩, hopen⟩
    · rintro ⟨⟨u, hchecks, -⟩, hopen⟩
      exact ⟨u, hchecks, hopen⟩

/-! ## Artifacts in turn -/

section

variable {α β : Type} {fails : Denial → Prop} {opens : Bytes → Prop}

/-- Of two artifacts the first that cannot be read is malformed in this way. -/
def Unreadable (first : Except WireError α) (second : Except WireError β) (cause : WireError) :
    Prop :=
  first = .error cause ∨ (∃ artifact, first = .ok artifact) ∧ second = .error cause

/-- Read one artifact, then the other, and judge what they say. -/
def judgeRead (first : Except WireError α) (second : Except WireError β)
    (judged : α → β → Except Denial Bytes) : Except Denial Bytes := do
  let a ← readArtifact first
  let b ← readArtifact second
  judged a b

theorem decides_malformed {cause : WireError}
    (h : ∀ other, fails (.malformed other) ↔ other = cause) :
    Decides fails opens (.error (.malformed cause)) where
  error_iff denial := by
    rw [Denial.isFirst_iff_of_malformed h, Except.error.injEq, eq_comm]
  ok_iff payload := by
    constructor
    · rintro ⟨⟩
    · rintro ⟨hnone, -⟩
      exact absurd ((h cause).2 rfl) (hnone _)

theorem decides_judgeRead {first : Except WireError α} {second : Except WireError β}
    {judged : α → β → Except Denial Bytes}
    (hmalformed : ∀ cause, fails (.malformed cause) ↔ Unreadable first second cause)
    (hjudged : ∀ a b, first = .ok a → second = .ok b → Decides fails opens (judged a b)) :
    Decides fails opens (judgeRead first second judged) := by
  cases first with
  | error cause =>
      exact decides_malformed fun other => by simp [hmalformed, Unreadable, eq_comm]
  | ok a =>
      cases second with
      | error cause =>
          exact decides_malformed fun other => by simp [hmalformed, Unreadable, eq_comm]
      | ok b => exact hjudged a b rfl rfl

end

/-! ## What a claim fails -/

/-- A private claim fails the check that a denial stands for. Each check looks at the artifacts it
is about, if they can be read, and at nothing else. -/
def FailsPrivate (suite : Suite) (judge : Adjudicator)
    (claiming : Except WireError SignedOwnership) (claimed : Except WireError InclusionProof) :
    Denial → Prop
  | .malformed cause => Unreadable claiming claimed cause
  | .invalidOwnershipSignature =>
    ∃ s, claiming = .ok s ∧ suite.verifyOwnership judge.authority s = false
  | .invalidClaimedHeadSignature =>
    ∃ q, claimed = .ok q ∧ suite.verifyHead judge.authority q.head = false
  | .invalidClaimedProof => ∃ q, claimed = .ok q ∧ q.verifyHashes suite.hash = false
  | .contentHashMismatch => ∃ s q, claiming = .ok s ∧ claimed = .ok q ∧
    s.ownership.contentHash ≠ q.leaf.ownership.contentHash
  | .notEarlier => ∃ s q, claiming = .ok s ∧ claimed = .ok q ∧
    s.timestamp.isBefore q.leaf.created = false
  | .undecryptable => ∃ q, claimed = .ok q ∧
    suite.openPayload judge.key .privateClaim q.leaf.privateData = none
  | .invalidClaimingHeadSignature | .invalidClaimingProof | .notLater | .invalidLeafSignature =>
    False

/-- A public claim fails the check that a denial stands for. -/
def FailsPublic (suite : Suite) (judge : Adjudicator)
    (claiming claimed : Except WireError InclusionProof) (signature : Bytes) : Denial → Prop
  | .malformed cause => Unreadable claiming claimed cause
  | .invalidClaimingHeadSignature =>
    ∃ p, claiming = .ok p ∧ suite.verifyHead judge.authority p.head = false
  | .invalidClaimingProof => ∃ p, claiming = .ok p ∧ p.verifyHashes suite.hash = false
  | .invalidClaimedHeadSignature =>
    ∃ q, claimed = .ok q ∧ suite.verifyHead judge.authority q.head = false
  | .invalidClaimedProof => ∃ q, claimed = .ok q ∧ q.verifyHashes suite.hash = false
  | .contentHashMismatch => ∃ p q, claiming = .ok p ∧ claimed = .ok q ∧
    p.leaf.ownership.contentHash ≠ q.leaf.ownership.contentHash
  | .notLater => ∃ p q, claiming = .ok p ∧ claimed = .ok q ∧ q.index ≤ p.index
  | .invalidLeafSignature =>
    ∃ p, claiming = .ok p ∧ suite.verifyLeaf p.leaf.publicKey p.leaf signature = false
  | .undecryptable => ∃ q, claimed = .ok q ∧
    suite.openPayload judge.key .publicClaim q.leaf.publicData = none
  | .invalidOwnershipSignature | .notEarlier => False

/-- The part of the claimed leaf that is sealed for a kind of claim opens to a payload. -/
def Opens (suite : Suite) (judge : Adjudicator) (domain : Domain) (part : Leaf → Bytes)
    (claimed : Except WireError InclusionProof) (payload : Bytes) : Prop :=
  ∃ q, claimed = .ok q ∧ suite.openPayload judge.key domain (part q.leaf) = some payload

/-- The conditions on a private claim, in the order they are required in. -/
def privateChecks (suite : Suite) (judge : Adjudicator) (claiming : SignedOwnership)
    (claimed : InclusionProof) : List (Denial × Bool) :=
  [(.invalidOwnershipSignature, suite.verifyOwnership judge.authority claiming),
    (.invalidClaimedHeadSignature, suite.verifyHead judge.authority claimed.head),
    (.invalidClaimedProof, claimed.verifyHashes suite.hash),
    (.contentHashMismatch,
      claiming.ownership.contentHash = claimed.leaf.ownership.contentHash),
    (.notEarlier, claiming.timestamp.isBefore claimed.leaf.created)]

/-- The conditions on a public claim, in the order they are required in. -/
def publicChecks (suite : Suite) (judge : Adjudicator) (claiming claimed : InclusionProof)
    (signature : Bytes) : List (Denial × Bool) :=
  [(.invalidClaimingHeadSignature, suite.verifyHead judge.authority claiming.head),
    (.invalidClaimingProof, claiming.verifyHashes suite.hash),
    (.invalidClaimedHeadSignature, suite.verifyHead judge.authority claimed.head),
    (.invalidClaimedProof, claimed.verifyHashes suite.hash),
    (.contentHashMismatch,
      claiming.leaf.ownership.contentHash = claimed.leaf.ownership.contentHash),
    (.notLater, claiming.index < claimed.index),
    (.invalidLeafSignature, suite.verifyLeaf claiming.leaf.publicKey claiming.leaf signature)]

theorem checkPrivate_eq_requireAll (s : SignedOwnership) (q : InclusionProof) :
    judge.checkPrivate suite s q = requireAll (judge.privateChecks suite s q) := by
  simp [checkPrivate, privateChecks, requireAll]

theorem checkPublic_eq_requireAll (p q : InclusionProof) (signature : Bytes) :
    judge.checkPublic suite p q signature =
      requireAll (judge.publicChecks suite p q signature) := by
  simp [checkPublic, publicChecks, requireAll]

theorem decides_judgePrivate (s : SignedOwnership) (q : InclusionProof) :
    Decides (judge.FailsPrivate suite (.ok s) (.ok q))
      (judge.Opens suite .privateClaim Leaf.privateData (.ok q))
      (judge.judgePrivate suite s q) := by
  have hsorted : Denial.Ascending [.invalidOwnershipSignature, .invalidClaimedHeadSignature,
      .invalidClaimedProof, .contentHashMismatch, .notEarlier, .undecryptable] := by decide
  rw [judgePrivate, checkPrivate_eq_requireAll]
  refine (decides_release (judge.privateChecks suite s q) hsorted).congr (fun denial => ?_)
    fun payload => by simp [Opens]
  cases denial <;> simp [privateChecks, FailsPrivate, Unreadable]

theorem decides_judgePublic (p q : InclusionProof) (signature : Bytes) :
    Decides (judge.FailsPublic suite (.ok p) (.ok q) signature)
      (judge.Opens suite .publicClaim Leaf.publicData (.ok q))
      (judge.judgePublic suite p q signature) := by
  have hsorted : Denial.Ascending [.invalidClaimingHeadSignature, .invalidClaimingProof,
      .invalidClaimedHeadSignature, .invalidClaimedProof, .contentHashMismatch, .notLater,
      .invalidLeafSignature, .undecryptable] := by decide
  rw [judgePublic, checkPublic_eq_requireAll]
  refine (decides_release (judge.publicChecks suite p q signature) hsorted).congr
    (fun denial => ?_) fun payload => by simp [Opens]
  cases denial <;> simp [publicChecks, FailsPublic, Unreadable]

end Adjudicator

/-! ## Claims in bytes -/

/-- A claim as it is shown to a judge. -/
inductive Claim where
  /-- An ownership that was signed, and the proof of a leaf made after it. -/
  | ofOwnership (claiming claimed : Bytes)
  /-- The proof of a leaf, that of a later one, and a signature by the key of the first. -/
  | ofProof (claiming claimed signature : Bytes)

namespace Claim

variable {suite : Suite} {judge : Adjudicator} {claim : Claim} {denial : Denial}

/-- What the claimant is told. -/
def verdict (suite : Suite) (judge : Adjudicator) : Claim → Verdict
  | ofOwnership claiming claimed => judge.claimPrivate suite claiming claimed
  | ofProof claiming claimed signature => judge.claimPublic suite claiming claimed signature

/-- The claim fails the check that a denial stands for. -/
def Fails (suite : Suite) (judge : Adjudicator) : Claim → Denial → Prop
  | ofOwnership claiming claimed =>
    judge.FailsPrivate suite (SignedOwnership.decode claiming) (InclusionProof.decode claimed)
  | ofProof claiming claimed signature =>
    judge.FailsPublic suite (InclusionProof.decode claiming) (InclusionProof.decode claimed)
      signature

/-- The payload that is sealed for the kind of the claim opens. -/
def Opens (suite : Suite) (judge : Adjudicator) : Claim → Bytes → Prop
  | ofOwnership _ claimed =>
    judge.Opens suite .privateClaim Leaf.privateData (InclusionProof.decode claimed)
  | ofProof _ claimed _ =>
    judge.Opens suite .publicClaim Leaf.publicData (InclusionProof.decode claimed)

/-- What the judge finds before it is put into words. -/
def judged (suite : Suite) (judge : Adjudicator) : Claim → Except Denial Bytes
  | ofOwnership claiming claimed =>
    Adjudicator.judgeRead (SignedOwnership.decode claiming) (InclusionProof.decode claimed)
      (judge.judgePrivate suite)
  | ofProof claiming claimed signature =>
    Adjudicator.judgeRead (InclusionProof.decode claiming) (InclusionProof.decode claimed)
      fun p q => judge.judgePublic suite p q signature

theorem verdict_eq (claim : Claim) :
    claim.verdict suite judge = .of (claim.judged suite judge) := by
  cases claim with
  | ofOwnership claiming claimed => rfl
  | ofProof claiming claimed signature => rfl

theorem decides_judged (suite : Suite) (judge : Adjudicator) (claim : Claim) :
    Adjudicator.Decides (claim.Fails suite judge) (claim.Opens suite judge)
      (claim.judged suite judge) := by
  cases claim with
  | ofOwnership claiming claimed =>
      refine Adjudicator.decides_judgeRead (fun _ => Iff.rfl) fun s q hs hq => ?_
      rw [Fails, Opens, hs, hq]
      exact Adjudicator.decides_judgePrivate s q
  | ofProof claiming claimed signature =>
      refine Adjudicator.decides_judgeRead (fun _ => Iff.rfl) fun p q hp hq => ?_
      rw [Fails, Opens, hp, hq]
      exact Adjudicator.decides_judgePublic p q signature

/-! ## Independence of the payloads -/

section

variable (decrypt : SealingKey → Nonce → Bytes → Bytes → Option Bytes) (key : SealingKey)

/-- No check but the last looks at what comes out of a sealed payload. -/
theorem fails_iff_of_ne_undecryptable (hdenial : denial ≠ .undecryptable) :
    claim.Fails { suite with decrypt := decrypt } { judge with key := key } denial ↔
      claim.Fails suite judge denial := by
  cases claim with
  | ofOwnership claiming claimed =>
      cases denial with
      | undecryptable => exact absurd rfl hdenial
      | _ => exact Iff.rfl
  | ofProof claiming claimed signature =>
      cases denial with
      | undecryptable => exact absurd rfl hdenial
      | _ => exact Iff.rfl

theorem judged_of_ne_undecryptable (hjudged : claim.judged suite judge = .error denial)
    (hdenial : denial ≠ .undecryptable) :
    claim.judged { suite with decrypt := decrypt } { judge with key := key } = .error denial := by
  have hfirst := ((decides_judged suite judge claim).error_iff denial).1 hjudged
  exact ((decides_judged _ _ claim).error_iff denial).2
    (hfirst.of_agree hdenial fun _ => fails_iff_of_ne_undecryptable decrypt key)

/-- Two judges who differ in what they make of sealed payloads deny a claim for the same reason. -/
theorem denial_eq_of_judged {denial' : Denial} (hjudged : claim.judged suite judge = .error denial)
    (hjudged' : claim.judged { suite with decrypt := decrypt } { judge with key := key } =
      .error denial') : denial' = denial := by
  by_cases hdenial : denial = .undecryptable
  · by_cases hdenial' : denial' = .undecryptable
    · rw [hdenial, hdenial']
    · -- The other judge found an earlier check failed, which this one would have found too.
      have h := judged_of_ne_undecryptable suite.decrypt judge.key hjudged' hdenial'
      exact Except.error.inj (h.symm.trans hjudged)
  · have h := judged_of_ne_undecryptable decrypt key hjudged hdenial
    exact Except.error.inj (hjudged'.symm.trans h)

end

/-- A claim is denied in the words of the first denial, in the order in which denials are declared,
whose check it fails, and granted exactly if it fails none of them and the payload that is sealed
for its kind opens. If it fails a check before that of the payload, then a judge with any other key
answers the same, whatever comes out of sealed payloads; and two judges who both deny a claim, and
differ in no more than that, deny it in the same words. -/
theorem denied_by_first_failed_check (suite : Suite) (judge : Adjudicator) (claim : Claim) :
    (∀ text, claim.verdict suite judge = ⟨false, text⟩ ↔
      ∃ denial : Denial, denial.IsFirst (claim.Fails suite judge) ∧ text = denial.message) ∧
    (∀ text, claim.verdict suite judge = ⟨true, text⟩ ↔
      (∀ denial, ¬ claim.Fails suite judge denial) ∧
        ∃ payload, claim.Opens suite judge payload ∧ text = textLossy payload) ∧
    (∀ decrypt key, (∃ denial, denial ≠ .undecryptable ∧ claim.Fails suite judge denial) →
      claim.verdict { suite with decrypt := decrypt } { judge with key := key } =
        claim.verdict suite judge) ∧
    ∀ decrypt key, (claim.verdict suite judge).granted = false →
      (claim.verdict { suite with decrypt := decrypt } { judge with key := key }).granted = false →
      claim.verdict { suite with decrypt := decrypt } { judge with key := key } =
        claim.verdict suite judge := by
  have hdecides := decides_judged suite judge claim
  refine ⟨fun text => ?_, fun text => ?_, fun decrypt key => ?_, fun decrypt key => ?_⟩
  · rw [verdict_eq, Verdict.of_eq_denied_iff]
    exact exists_congr fun denial => and_congr_left' (hdecides.error_iff denial)
  · rw [verdict_eq, Verdict.of_eq_granted_iff]
    simp only [hdecides.ok_iff, and_assoc, exists_and_left]
  · rintro ⟨other, hother, hfails⟩
    cases hjudged : claim.judged suite judge with
    | ok payload => exact absurd hfails (((hdecides.ok_iff payload).1 hjudged).1 other)
    | error denial =>
        have hdenial := ((hdecides.error_iff denial).1 hjudged).ne_undecryptable hother hfails
        rw [verdict_eq, verdict_eq, hjudged,
          judged_of_ne_undecryptable decrypt key hjudged hdenial]
  · rw [verdict_eq, verdict_eq, Verdict.denied_of_iff, Verdict.denied_of_iff]
    rintro ⟨denial, hjudged⟩ ⟨denial', hjudged'⟩
    rw [hjudged, hjudged', denial_eq_of_judged decrypt key hjudged hjudged']

/-- The second of two owners claims the entry of the first, with a signature by the first. -/
def turnedRound : Claim :=
  .ofProof (Service.sampleProof 1) (Service.sampleProof 0) Service.sampleSignature

/-- The judge of the log with the two entries. -/
def sampleJudge : Adjudicator := ⟨Service.sampleKeys.seed, Service.sampleKeys.key⟩

/-- Neither the order nor the signature is right. The order is told, whatever the payloads are. -/
theorem denied_by_first_failed_check_turnedRound :
    turnedRound.Fails Suite.plain sampleJudge .notLater ∧
    turnedRound.Fails Suite.plain sampleJudge .invalidLeafSignature ∧
    (turnedRound.verdict Suite.plain sampleJudge).granted = false ∧
    ∀ decrypt key, turnedRound.verdict { Suite.plain with decrypt := decrypt }
      { sampleJudge with key := key } = ⟨false, "claimed content was first"⟩ := by
  have hread : Service.passes (fun p q : InclusionProof => decide (q.index ≤ p.index ∧
        Suite.plain.verifyLeaf p.leaf.publicKey p.leaf Service.sampleSignature = false))
      (InclusionProof.decode (Service.sampleProof 1))
      (InclusionProof.decode (Service.sampleProof 0)) = true := by
    decide +kernel
  obtain ⟨p, q, hp, hq, htest⟩ := Service.exists_of_passes hread
  obtain ⟨horder, hsignature⟩ := of_decide_eq_true htest
  have hnotLater : turnedRound.Fails Suite.plain sampleJudge .notLater :=
    ⟨p, q, hp, hq, horder⟩
  have hverdict : turnedRound.verdict Suite.plain sampleJudge =
      ⟨false, "claimed content was first"⟩ := by
    decide +kernel
  obtain ⟨-, -, hsame, -⟩ := denied_by_first_failed_check Suite.plain sampleJudge turnedRound
  refine ⟨hnotLater, ⟨p, hp, hsignature⟩, by rw [hverdict], fun decrypt key => ?_⟩
  rw [hsame decrypt key ⟨.notLater, by decide, hnotLater⟩, hverdict]

end Claim

end OwnershipLog
