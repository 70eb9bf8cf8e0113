import OwnershipLog.Proofs.Claim.Priority
import OwnershipLog.Proofs.Client.Answers
import OwnershipLog.Proofs.Store.Lawful

/-!
# Disputes are decided by priority

Any number of clients deal with one log. A run is a list of their calls, each with
the seed of the client that makes it; what is registered in it depends on the calls
alone (`registered`), and the service holds the leaves of that after every prefix of
the run (`holds_after`). A filing that was earned at some point of the run proves a
leaf of the log, or an ownership, and at any later point a claim with it is decided by
the content and the order alone (`disputes_decided_by_priority`).
-/

namespace OwnershipLog

namespace Client

open Service (Logged Holds ZeroFree proofOf)

/-- A call that a client makes, named by its seed. -/
inductive Call where
  | register (r : Registration)
  | preregister (seed : Seed) (now : Timestamp) (content : Digest) (name : String)
  | fetchHead (seed : Seed) (now : Timestamp)
  | claim (seed : Seed) (now : Timestamp) (filing : Filing) (index : UInt64)

variable {S R W : Type} [Store S R W]

/-- The clients of a service, each with the judge who knows its keys. -/
def clients (suite : Suite) (service : Service S) : Seed → Client :=
  fun seed => ofService suite seed (service.judge suite) service

/-- The service after a call. -/
def Call.next (suite : Suite) (clients : Seed → Client) (service : Service S) : Call → Service S
  | register r => (r.perform suite clients service).2
  | preregister _ _ _ _ => service
  | fetchHead seed now => (Client.fetchHead suite now (clients seed) service).2
  | claim seed now filing index => ((clients seed).claim suite now filing index service).2

/-- The service after the calls of a run. -/
def after (suite : Suite) (clients : Seed → Client) (service : Service S) (calls : List Call) :
    Service S := calls.foldl (Call.next suite clients) service

section

variable (suite : Suite) (keys : KeyMaterial)

/-- What a call registers, with the entry that is logged for it. -/
def Call.registered? : Call → Option (Registration × Logged suite keys)
  | register r => (r.logged? suite keys).map (r, ·)
  | preregister _ _ _ _ => none
  | fetchHead _ _ => none
  | claim _ _ _ _ => none

/-- What a run registers, in the order of the log. -/
def registered (calls : List Call) : List (Registration × Logged suite keys) :=
  calls.filterMap (Call.registered? suite keys)

/-- The log of a run. -/
def entered (calls : List Call) : List (Logged suite keys) :=
  (registered suite keys calls).map Prod.snd

@[simp] theorem length_entered (calls : List Call) :
    (entered suite keys calls).length = (registered suite keys calls).length := List.length_map _

theorem registered_append (calls calls' : List Call) :
    registered suite keys (calls ++ calls') =
      registered suite keys calls ++ registered suite keys calls' := List.filterMap_append

theorem entered_append (calls calls' : List Call) :
    entered suite keys (calls ++ calls') =
      entered suite keys calls ++ entered suite keys calls' := by
  rw [entered, registered_append, List.map_append]
  rfl

theorem registered_of_some {r : Registration} {l : Logged suite keys}
    (h : r.logged? suite keys = some l) : registered suite keys [.register r] = [(r, l)] := by
  simp [registered, Call.registered?, h]

theorem registered_of_none {r : Registration} (h : r.logged? suite keys = none) :
    registered suite keys [.register r] = [] := by
  simp [registered, Call.registered?, h]

variable {suite keys}

theorem logged?_of_mem_registered {calls : List Call} {r : Registration} {l : Logged suite keys}
    (h : (r, l) ∈ registered suite keys calls) : r.logged? suite keys = some l := by
  obtain ⟨call, -, hcall⟩ := List.mem_filterMap.1 h
  cases call with
  | register r' =>
      obtain ⟨l', hl', heq⟩ := Option.map_eq_some_iff.1 hcall
      cases heq
      exact hl'
  | preregister seed now content name => cases hcall
  | fetchHead seed now => cases hcall
  | claim seed now filing index => cases hcall

theorem entered_of_registered {calls : List Call} {i : Nat} {r : Registration}
    {l : Logged suite keys} (h : (registered suite keys calls)[i]? = some (r, l)) :
    (entered suite keys calls)[i]? = some l := by
  rw [entered, List.getElem?_map, h]
  rfl

end

variable [LawfulStore S R W] {suite : Suite} {keys : KeyMaterial} {log : List (Logged suite keys)}
  {service : Service S}

theorem clients_eq (h : Holds suite keys log service) :
    clients suite service = matching suite keys := funext fun seed => ofService_judge h seed

/-- A call leaves the log with what it registers. -/
theorem holds_next (h : Holds suite keys log service) (hown : suite.VerifiesOwn) (call : Call)
    (hle : (log ++ entered suite keys [call]).length ≤ 2 ^ 63)
    (hzero : ZeroFree (log ++ entered suite keys [call])) :
    Holds suite keys (log ++ entered suite keys [call])
      (call.next suite (matching suite keys) service) := by
  have hlog : log.length ≤ 2 ^ 63 := (List.prefix_append _ _).length_le.trans hle
  cases call with
  | register r =>
      cases hlogged : r.logged? suite keys with
      | some l =>
          rw [entered, registered_of_some suite keys hlogged] at hle hzero ⊢
          have hlt : log.length < 2 ^ 63 := by
            rw [List.length_append] at hle
            exact Nat.lt_of_succ_le hle
          obtain ⟨own, service', hperform, -, h'⟩ :=
            Registration.perform_of_logged h hown hlt hlogged hzero
          rw [Call.next, hperform]
          exact h'
      | none =>
          obtain ⟨e, hperform⟩ := Registration.perform_of_none h hlogged
          rw [entered, registered_of_none suite keys hlogged, List.map_nil, List.append_nil,
            Call.next, hperform]
          exact h
  | preregister seed now content name =>
      have hnone : entered suite keys [.preregister seed now content name] = [] := rfl
      rwa [hnone, List.append_nil]
  | fetchHead seed now =>
      have hnone : entered suite keys [.fetchHead seed now] = [] := rfl
      obtain ⟨service', hhead, h'⟩ := h.head hlog now
      rw [hnone, List.append_nil, Call.next, fetchHead, hhead]
      exact h'
  | claim seed now filing index =>
      have hnone : entered suite keys [.claim seed now filing index] = [] := rfl
      rw [hnone, List.append_nil]
      exact h.after_proof hlog now index

/-- A run leaves the log with what it registers. -/
theorem holds_after (h : Holds suite keys log service) (hown : suite.VerifiesOwn)
    (calls : List Call) (hle : (log ++ entered suite keys calls).length ≤ 2 ^ 63)
    (hzero : ZeroFree (log ++ entered suite keys calls)) :
    Holds suite keys (log ++ entered suite keys calls)
      (after suite (matching suite keys) service calls) := by
  induction calls generalizing log service with
  | nil =>
      have hnone : entered suite keys [] = [] := rfl
      rwa [hnone, List.append_nil]
  | cons call calls ih =>
      have hsplit : log ++ entered suite keys (call :: calls) =
          log ++ entered suite keys [call] ++ entered suite keys calls := by
        rw [List.append_assoc, ← entered_append, List.singleton_append]
      rw [hsplit] at hle hzero ⊢
      have hstep : (log ++ entered suite keys [call]).length ≤ 2 ^ 63 :=
        (List.prefix_append _ _).length_le.trans hle
      exact ih (holds_next h hown call hstep hzero.of_append) hle hzero

/-! ## Points of a run -/

variable {calls before later : List Call}

theorem holds_before (h : Holds suite keys [] service) (hown : suite.VerifiesOwn)
    (hle : (entered suite keys calls).length ≤ 2 ^ 63) (hzero : ZeroFree (entered suite keys calls))
    (hcalls : calls = before ++ later) :
    Holds suite keys (entered suite keys before)
      (after suite (matching suite keys) service before) := by
  subst hcalls
  rw [entered_append] at hle hzero
  have hafter := holds_after h hown before ((List.prefix_append _ _).length_le.trans hle)
    hzero.of_append
  rwa [List.nil_append] at hafter

theorem exists_registered {i : Nat} {l : Logged suite keys}
    (h : (entered suite keys calls)[i]? = some l) :
    ∃ r, (registered suite keys calls)[i]? = some (r, l) := by
  rw [entered, List.getElem?_map, Option.map_eq_some_iff] at h
  obtain ⟨⟨r, l'⟩, hat, rfl⟩ := h
  exact ⟨r, hat⟩

theorem exists_registered_of_fst {i : Nat} {rs : List Registration} {r : Registration}
    (h : (registered suite keys calls).map Prod.fst = rs) (hat : rs[i]? = some r) :
    ∃ l, (registered suite keys calls)[i]? = some (r, l) := by
  rw [← h, List.getElem?_map, Option.map_eq_some_iff] at hat
  obtain ⟨⟨r', l⟩, hat', rfl⟩ := hat
  exact ⟨l, hat'⟩

theorem Proves.exists_registered {i : UInt64} {own : Bytes}
    (h : Proves (entered suite keys calls) i own) :
    ∃ r l, (registered suite keys calls)[i.toNat]? = some (r, l) := by
  obtain ⟨n, now, l, hn, hat, -⟩ := h
  have hlt := (List.getElem?_eq_some_iff.1 hat).1
  rw [List.length_take_of_le hn] at hlt
  rw [List.getElem?_take_of_lt hlt] at hat
  obtain ⟨r, hr⟩ := Client.exists_registered hat
  exact ⟨r, l, hr⟩

/-- The ways to come by bytes that prove the leaf at an index: to register it, or to be served its
proof, at some point of a run. -/
inductive Obtained {S R W : Type} [Store S R W] (suite : Suite) (clients : Seed → Client)
    (service : Service S) (calls : List Call) (index : UInt64) (own : Bytes) : Prop
  | registered {before later : List Call} {r : Registration}
    (hcalls : calls = before ++ .register r :: later)
    (hreply : (r.perform suite clients (after suite clients service before)).1 =
      .ok (index, .proof own))
  | served {before later : List Call} {now : Timestamp} (hcalls : calls = before ++ later)
    (hanswer : ((after suite clients service before).proof suite now index).1 = .ok own)

/-- A registration that the log takes is kept, with a proof of its own index and leaf. -/
theorem register_kept (h : Holds suite keys [] service) (hown : suite.VerifiesOwn)
    (hle : (entered suite keys calls).length ≤ 2 ^ 63) (hzero : ZeroFree (entered suite keys calls))
    {r : Registration} (hcalls : calls = before ++ .register r :: later) {l : Logged suite keys}
    (hlogged : r.logged? suite keys = some l) :
    ∃ index own p, ((after suite (matching suite keys) service before).append suite r.now r.nonces
        (r.entry suite)).1 = .ok index ∧
      (r.perform suite (matching suite keys)
        (after suite (matching suite keys) service before)).1 = .ok (index, .proof own) ∧
      (registered suite keys calls)[index.toNat]? = some (r, l) ∧
      InclusionProof.decode own = .ok p ∧ p.index = index ∧ p.leaf = l.leaf ∧
      Proves (entered suite keys calls) index own := by
  have hbefore := holds_before h hown hle hzero hcalls
  subst hcalls
  have hcall : entered suite keys [.register r] = [l] := by
    rw [entered, registered_of_some suite keys hlogged]
    rfl
  have hsplit : entered suite keys (before ++ .register r :: later) =
      entered suite keys before ++ [l] ++ entered suite keys later := by
    rw [entered_append, ← List.singleton_append, entered_append, hcall, List.append_assoc]
  rw [hsplit] at hle hzero ⊢
  have hlt : (entered suite keys before).length < 2 ^ 63 := by
    rw [List.length_append, List.length_append, List.length_singleton] at hle
    omega
  have hindex := toNat_ofNat_of_le hlt.le
  obtain ⟨service₁, happend, -⟩ := hbefore.append hlt hlogged
  obtain ⟨own, service₂, hperform, hdecode, -⟩ :=
    Registration.perform_of_logged hbefore hown hlt hlogged hzero.of_append
  refine ⟨UInt64.ofNat (entered suite keys before).length, own, _, ?_, ?_, ?_, hdecode, rfl, rfl,
    Proves.of_decode ?_ hdecode _⟩
  · exact congrArg Prod.fst happend
  · rw [hperform]
  · rw [hindex, length_entered, registered_append, List.getElem?_append_right (Nat.le_refl _),
      Nat.sub_self, ← List.singleton_append, registered_append,
      registered_of_some suite keys hlogged]
    rfl
  · rw [hindex, List.getElem?_concat_length]

/-- What was obtained for an index proves the leaf there, by the log of the whole run. -/
theorem proves_of_obtained (h : Holds suite keys [] service) (hown : suite.VerifiesOwn)
    (hle : (entered suite keys calls).length ≤ 2 ^ 63) (hzero : ZeroFree (entered suite keys calls))
    {index : UInt64} {own : Bytes}
    (hobtained : Obtained suite (matching suite keys) service calls index own) :
    Proves (entered suite keys calls) index own := by
  cases hobtained with
  | @registered before later r hcalls hreply =>
      cases hlogged : r.logged? suite keys with
      | some l =>
          obtain ⟨index', own', p, -, hperform, -, -, -, -, hproves⟩ :=
            register_kept h hown hle hzero hcalls hlogged
          rw [hperform] at hreply
          cases hreply
          exact hproves
      | none =>
          obtain ⟨e, hperform⟩ :=
            Registration.perform_of_none (holds_before h hown hle hzero hcalls) hlogged
          rw [hperform] at hreply
          cases hreply
  | @served before later now hcalls hanswer =>
      have hbefore := holds_before h hown hle hzero hcalls
      subst hcalls
      rw [entered_append] at hle ⊢
      have hlog := (List.prefix_append _ _).length_le.trans hle
      cases hat : (entered suite keys before)[index.toNat]? with
      | some l =>
          obtain ⟨bytes, service', hproof, hdecode, -⟩ := hbefore.proof hlog now hat
          rw [hproof] at hanswer
          cases hanswer
          exact Proves.of_decode hat hdecode _
      | none =>
          obtain ⟨service', hproof, -⟩ :=
            hbefore.proof_of_le hlog now (List.getElem?_eq_none_iff.1 hat)
          rw [hproof] at hanswer
          cases hanswer

/-- What a name must be for a private registration to succeed. -/
theorem le_of_preregister {client : Client} {now : Timestamp} {content : Digest} {name : String}
    {filing : Filing} (h : client.preregister suite now content name service = .ok filing) :
    name.utf8ByteSize ≤ maxName := by
  obtain ⟨bytes, hanswered, -⟩ := bind_eq_ok_iff.1 h
  cases hsign : service.signOwnership suite now content.toBytes name with
  | error e =>
      rw [hsign] at hanswered
      cases hanswered
  | ok bytes' =>
      obtain ⟨o, ho, -⟩ := bind_eq_ok_iff.1 hsign
      exact (Service.ownershipOf_eq_ok_iff.1 ho).1

/-- A claim with what was obtained for an index, by the client who registered there. -/
theorem claim_of_obtained (h : Holds suite keys [] service) (hverifies : suite.VerifiesOwn)
    (hdecrypts : suite.DecryptsOwn) (hle : (entered suite keys calls).length ≤ 2 ^ 63)
    (hzero : ZeroFree (entered suite keys calls)) {i : UInt64} {own : Bytes}
    (hobtained : Obtained suite (matching suite keys) service calls i own) :
    ∃ r a, (registered suite keys calls)[i.toNat]? = some (r, a) ∧
      ∀ now j r' b, (registered suite keys calls)[j.toNat]? = some (r', b) →
        ((matching suite keys r.seed).claim suite now (.proof own) j
            (after suite (matching suite keys) service calls)).1 =
          .ok (.byPriority (r.content = r'.content) (i < j) r'.publicData) := by
  have hproves := proves_of_obtained h hverifies hle hzero hobtained
  have hafter := holds_before h hverifies hle hzero (List.append_nil calls).symm
  obtain ⟨r, a, ha⟩ := hproves.exists_registered
  refine ⟨r, a, ha, ?_⟩
  intro now j r' b hb
  have hentry := (entry_of_logged?_eq (logged?_of_mem_registered (List.mem_of_getElem? ha))).2
  have hentry' := (entry_of_logged?_eq (logged?_of_mem_registered (List.mem_of_getElem? hb))).2
  have hsame : a.entry.contentHash = b.entry.contentHash ↔ r.content = r'.content := by
    rw [hentry, hentry', Octets.ext_iff]
    rfl
  exact claim_proof hafter hverifies hdecrypts hle hzero hproves (entered_of_registered ha)
    (entered_of_registered hb) (by rw [hentry]; rfl) hsame (by rw [hentry']; rfl) now

/-- A claim with a signed ownership from some point of the run, by anyone. -/
theorem claim_of_preregister (h : Holds suite keys [] service) (hverifies : suite.VerifiesOwn)
    (hdecrypts : suite.DecryptsOwn) (hle : (entered suite keys calls).length ≤ 2 ^ 63)
    (hzero : ZeroFree (entered suite keys calls)) {seed : Seed} {t : Timestamp} {content : Digest}
    {name : String} {own : Bytes} (hcalls : calls = before ++ later)
    (hreply : (matching suite keys seed).preregister suite t content name
      (after suite (matching suite keys) service before) = .ok (.ownership own))
    (seed' : Seed) (now : Timestamp) {j : UInt64} {r : Registration} {b : Logged suite keys}
    (hb : (registered suite keys calls)[j.toNat]? = some (r, b)) :
    ((matching suite keys seed').claim suite now (.ownership own) j
        (after suite (matching suite keys) service calls)).1 =
      .ok (.byPriority (content = r.content) (t.isBefore b.leaf.created = true)
        r.privateData) := by
  have hbefore := holds_before h hverifies hle hzero hcalls
  have hafter := holds_before h hverifies hle hzero (List.append_nil calls).symm
  obtain ⟨own', signature, hreply', hdecode, hverify⟩ :=
    preregister_of_le hbefore hverifies seed t content (le_of_preregister hreply)
  cases hreply'.symm.trans hreply
  have hentry := (entry_of_logged?_eq (logged?_of_mem_registered (List.mem_of_getElem? hb))).2
  have hsame : content.toBytes = b.entry.contentHash ↔ content = r.content := by
    rw [hentry, Octets.ext_iff]
    rfl
  exact claim_ownership hafter hverifies hdecrypts hle hzero hdecode hverify
    (entered_of_registered hb) hsame (by rw [hentry]; rfl) seed' now

/-- Whatever calls the clients of a service over an empty store make: a registration that the log
takes is kept with a proof of its own index and leaf, and a private one with a name that fits is
kept with a signed ownership. When the run is over, however long the log has become, a claim with
bytes that prove the claimant's own leaf is decided by the content and the index, and a claim with a
signed ownership by the content and the instants. Who is first is told the text that was
registered with the disputed leaf. -/
theorem disputes_decided_by_priority (hverifies : suite.VerifiesOwn)
    (hdecrypts : suite.DecryptsOwn) {s₀ : S} (hready : LawfulStore.Ready s₀)
    (hempty : LawfulStore.view s₀ = View.empty) (opened : Timestamp) (keys : KeyMaterial)
    {maxPage : UInt64} (hpage : maxPage ≠ 0) (calls : List Call)
    (hle : (entered suite keys calls).length ≤ 2 ^ 63)
    (hzero : ZeroFree (entered suite keys calls)) :
    ∃ service s', Service.start opened keys maxPage s₀ = (.ok service, s') ∧
      (after suite (clients suite service) service calls).size =
        UInt64.ofNat (entered suite keys calls).length ∧
      (∀ before later r index,
        calls = before ++ .register r :: later →
        ((after suite (clients suite service) service before).append suite r.now r.nonces
          (r.entry suite)).1 = .ok index →
        ∃ own l p, (r.perform suite (clients suite service)
            (after suite (clients suite service) service before)).1 = .ok (index, .proof own) ∧
          (registered suite keys calls)[index.toNat]? = some (r, l) ∧
          InclusionProof.decode own = .ok p ∧ p.index = index ∧ p.leaf = l.leaf ∧
          Service.leafOf suite keys r.now r.nonces (r.entry suite) = .ok p.leaf) ∧
      (∀ before later seed now content name,
        calls = before ++ .preregister seed now content name :: later →
        name.utf8ByteSize ≤ maxName →
        ∃ own signature, (clients suite service seed).preregister suite now content name
            (after suite (clients suite service) service before) = .ok (.ownership own) ∧
          SignedOwnership.decode own = .ok ⟨now, ⟨content, name⟩, signature⟩) ∧
      (∀ i own, Obtained suite (clients suite service) service calls i own →
        ∃ r a, (registered suite keys calls)[i.toNat]? = some (r, a) ∧
          ∀ now j r' b, (registered suite keys calls)[j.toNat]? = some (r', b) →
            ((clients suite service r.seed).claim suite now (.proof own) j
                (after suite (clients suite service) service calls)).1 =
              .ok (.byPriority (r.content = r'.content) (i < j) r'.publicData)) ∧
      ∀ before later seed t content name own,
        calls = before ++ .preregister seed t content name :: later →
        (clients suite service seed).preregister suite t content name
          (after suite (clients suite service) service before) = .ok (.ownership own) →
        ∀ seed' now j r' b, (registered suite keys calls)[j.toNat]? = some (r', b) →
          ((clients suite service seed').claim suite now (.ownership own) j
              (after suite (clients suite service) service calls)).1 =
            .ok (.byPriority (content = r'.content) (t.isBefore b.leaf.created = true)
              r'.privateData) := by
  obtain ⟨service, s', hstart, h⟩ :=
    Service.start_holds hready hempty suite opened keys hpage
  refine ⟨service, s', hstart, ?_⟩
  rw [clients_eq h]
  have hafter := holds_before h hverifies hle hzero (List.append_nil calls).symm
  refine ⟨hafter.tree.size_eq.trans (by rw [Service.length_writtenOf]), ?_, ?_, ?_, ?_⟩
  · intro before later r index hcalls happend
    have hbefore := holds_before h hverifies hle hzero hcalls
    cases hlogged : r.logged? suite keys with
    | some l =>
        obtain ⟨index', own, p, happend', hreply, hat, hdecode, hindex, hleaf, -⟩ :=
          register_kept h hverifies hle hzero hcalls hlogged
        cases happend'.symm.trans happend
        obtain ⟨hnow, hnonces, hentry⟩ := Service.entry_of_logged? hlogged
        have hmade := l.made
        rw [hnow, hnonces, hentry] at hmade
        exact ⟨own, l, p, hreply, hat, hdecode, hindex, hleaf, hleaf ▸ hmade⟩
    | none =>
        obtain ⟨e, hrefused⟩ := hbefore.append_of_none hlogged
        rw [hrefused] at happend
        cases happend
  · intro before later seed now content name hcalls hname
    have hbefore := holds_before h hverifies hle hzero hcalls
    obtain ⟨own, signature, hreply, hdecode, -⟩ :=
      preregister_of_le hbefore hverifies seed now content hname
    exact ⟨own, signature, hreply, hdecode⟩
  · intro i own hobtained
    exact claim_of_obtained h hverifies hdecrypts hle hzero hobtained
  · intro before later seed t content name own hcalls hreply seed' now j r' b hb
    exact claim_of_preregister h hverifies hdecrypts hle hzero hcalls hreply seed' now hb

/-! ### Two owners in memory -/

/-- A registration of the one content by the owner of some seed. -/
def sampleRegistration (owner : UInt8) (secs : Int64) (contact : String) : Registration :=
  ⟨Octets.replicate 32 owner, Service.moment secs, Service.moment secs,
    (Octets.zero 12, Octets.zero 12), Service.sampleContent, "ada", contact, contact⟩

/-- A private registration of the one content. -/
def samplePrivate : Call :=
  .preregister (Octets.replicate 32 4) (Service.moment 1) Service.sampleContent "ada"

def sampleFirst : Registration := sampleRegistration 5 2 "first"

def sampleSecond : Registration := sampleRegistration 6 3 "second"

/-- A private registration, and two public ones. -/
def sampleCalls : List Call := [samplePrivate, .register sampleFirst, .register sampleSecond]

theorem registered_sampleCalls :
    (registered Suite.plain Service.sampleKeys sampleCalls).map Prod.fst =
      [sampleFirst, sampleSecond] := by decide +kernel

theorem zeroFree_sampleCalls : ZeroFree (entered Suite.plain Service.sampleKeys sampleCalls) := by
  decide +kernel

/-- The calls in memory, under the suite in the open: the first owner is granted the contact of the
second, and who registered privately before both is granted the contact of the first. -/
theorem disputes_decided_by_priority_sample :
    Suite.plain.VerifiesOwn ∧ Suite.plain.DecryptsOwn ∧ LawfulStore.Ready Versioned.empty ∧
    LawfulStore.view Versioned.empty = View.empty ∧ (1 : UInt64) ≠ 0 ∧
    (entered Suite.plain Service.sampleKeys sampleCalls).length ≤ 2 ^ 63 ∧
    ZeroFree (entered Suite.plain Service.sampleKeys sampleCalls) ∧
    ∃ service s', Service.start (Service.moment 0) Service.sampleKeys 1 Versioned.empty =
        (.ok service, s') ∧
      (∃ own, (sampleFirst.perform Suite.plain (clients Suite.plain service)
            (after Suite.plain (clients Suite.plain service) service [samplePrivate])).1 =
          .ok (0, .proof own) ∧
        ((clients Suite.plain service sampleFirst.seed).claim Suite.plain (Service.moment 4)
            (.proof own) 1
            (after Suite.plain (clients Suite.plain service) service sampleCalls)).1 =
          .ok ⟨true, "second"⟩) ∧
      ∃ own, (clients Suite.plain service (Octets.replicate 32 4)).preregister Suite.plain
          (Service.moment 1) Service.sampleContent "ada" service = .ok (.ownership own) ∧
        ((clients Suite.plain service (Octets.replicate 32 4)).claim Suite.plain (Service.moment 4)
            (.ownership own) 0
            (after Suite.plain (clients Suite.plain service) service sampleCalls)).1 =
          .ok ⟨true, "first"⟩ := by
  have hready : LawfulStore.Ready Versioned.empty := Versioned.bounded_empty
  have hempty : LawfulStore.view Versioned.empty = View.empty := Versioned.current_empty
  have hpage : (1 : UInt64) ≠ 0 := by decide
  have hle : (entered Suite.plain Service.sampleKeys sampleCalls).length ≤ 2 ^ 63 := by
    decide +kernel
  obtain ⟨service, s', hstart, -, hregister, hpreregister, hproof, hownership⟩ :=
    disputes_decided_by_priority Suite.plain_verifiesOwn Suite.plain_decryptsOwn hready hempty
      (Service.moment 0) Service.sampleKeys hpage sampleCalls hle zeroFree_sampleCalls
  obtain ⟨service', s'', hstart', h⟩ :=
    Service.start_holds hready hempty Suite.plain (Service.moment 0) Service.sampleKeys hpage
  cases hstart.symm.trans hstart'
  obtain ⟨a, ha⟩ := exists_registered_of_fst (i := 0) registered_sampleCalls rfl
  obtain ⟨b, hb⟩ := exists_registered_of_fst (i := 1) registered_sampleCalls rfl
  have hlogged := logged?_of_mem_registered (List.mem_of_getElem? ha)
  refine ⟨Suite.plain_verifiesOwn, Suite.plain_decryptsOwn, hready, hempty, hpage, hle,
    zeroFree_sampleCalls, service, s', hstart, ?_, ?_⟩
  · have hcalls : sampleCalls =
        [samplePrivate] ++ [.register sampleFirst, .register sampleSecond] := rfl
    have hbefore := holds_before h Suite.plain_verifiesOwn hle zeroFree_sampleCalls hcalls
    obtain ⟨service₁, happend, -⟩ := hbefore.append (by decide +kernel) hlogged
    rw [← clients_eq h] at happend
    obtain ⟨own, l, p, hreply, -⟩ := hregister [samplePrivate] _ sampleFirst 0 rfl
      (congrArg Prod.fst happend)
    refine ⟨own, hreply, ?_⟩
    obtain ⟨r, a', ha', hclaim⟩ := hproof 0 own (.registered rfl hreply)
    cases ha.symm.trans ha'
    exact hclaim (Service.moment 4) 1 _ b hb
  · obtain ⟨own, signature, hown, -⟩ := hpreregister [] _ _ _ _ _ rfl (by decide)
    refine ⟨own, hown, ?_⟩
    have hclaim := hownership [] _ _ _ _ _ own rfl hown (Octets.replicate 32 4) (Service.moment 4) 0
      _ a ha
    rw [a.created_eq, (entry_of_logged?_eq hlogged).1] at hclaim
    exact hclaim

end Client

end OwnershipLog
