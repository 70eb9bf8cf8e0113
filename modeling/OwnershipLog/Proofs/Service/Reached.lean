import OwnershipLog.Proofs.Claim.Priority
import OwnershipLog.Proofs.Service.Served

/-!
# Every entry stays provable

`Service.Reached suite keys s₀ leaves service` says that a service over the store `s₀`
has come this far, and that `leaves` are those of the entries that it accepted. On the
way it may have refused entries, answered requests, or been started anew over its
store. Whatever the way, its tree holds those leaves (`Reached.exists_holds`), and so a
proof is served for each of them that decodes to the leaf, states the present head,
shows zero exactly where there is no leaf yet, and verifies.
-/

namespace OwnershipLog

open OwnershipLog.Span

section

variable {S R W : Type} [Store S R W] [LawfulStore S R W]

/-- An append that is refused leaves the log as it is. -/
theorem Tree.Holds.of_append_error {hash : HashFunction} {log : List Leaf.Written}
    {tree tree' : Tree} {s s' : S} (h : Tree.Holds hash log tree s) {now : Timestamp}
    {leaf : Leaf} {e : LogError}
    (happend : Tree.append hash now leaf tree s = (.error e, tree', s')) :
    Tree.Holds hash log tree' s' := by
  rw [Tree.append] at happend
  cases hencode : leaf.encode with
  | error cause =>
      simp only [hencode] at happend
      cases happend
      exact h
  | ok bytes =>
      obtain ⟨s₁, hupdate, hready, hview⟩ :=
        LawfulStore.update_eq now LogError.store (appendUpdate hash bytes) h.ready
      simp only [hencode, hupdate] at happend
      cases houtcome :
          (Transaction.outcome now (appendUpdate hash bytes) (LawfulStore.view s)).1 with
      | ok index =>
          simp only [houtcome] at happend
          cases happend
      | error e' =>
          simp only [houtcome] at happend
          cases happend
          refine ⟨hready, ?_, h.size_eq⟩
          rw [hview, Transaction.committed_of_error houtcome]
          exact h.represents

end

namespace Service

variable {S R W : Type} [Store S R W]

/-- A service that was opened over `s₀` and has accepted entries with these leaves since. -/
inductive Reached (suite : Suite) (keys : KeyMaterial) (s₀ : S) : List Leaf → Service S → Prop where
  /-- It is opened. -/
  | opened {now : Timestamp} {maxPage : UInt64} {service : Service S} {s : S} :
    start now keys maxPage s₀ = (.ok service, s) → Reached suite keys s₀ [] service
  /-- It is started anew over its store. -/
  | restarted {leaves : List Leaf} {service service' : Service S} {now : Timestamp}
    {maxPage : UInt64} {s : S} : Reached suite keys s₀ leaves service →
    start now keys maxPage service.store = (.ok service', s) → Reached suite keys s₀ leaves service'
  /-- An entry is accepted. -/
  | accepted {leaves : List Leaf} {service service' : Service S} {now : Timestamp}
    {nonces : Nonce × Nonce} {entry : Entry} {leaf : Leaf} {index : UInt64} :
    Reached suite keys s₀ leaves service → leafOf suite keys now nonces entry = .ok leaf →
    service.append suite now nonces entry = (.ok index, service') →
    Reached suite keys s₀ (leaves ++ [leaf]) service'
  /-- An entry is refused. -/
  | refused {leaves : List Leaf} {service service' : Service S} {now : Timestamp}
    {nonces : Nonce × Nonce} {entry : Entry} {e : LogError} : Reached suite keys s₀ leaves service →
    service.append suite now nonces entry = (.error e, service') →
    Reached suite keys s₀ leaves service'
  /-- The head is asked for. -/
  | headed {leaves : List Leaf} {service : Service S} (now : Timestamp) :
    Reached suite keys s₀ leaves service → Reached suite keys s₀ leaves (service.head suite now).2
  /-- A proof is asked for. -/
  | proved {leaves : List Leaf} {service : Service S} (now : Timestamp) (index : UInt64) :
    Reached suite keys s₀ leaves service →
    Reached suite keys s₀ leaves (service.proof suite now index).2
  /-- A page is asked for. -/
  | paged {leaves : List Leaf} {service : Service S} (now : Timestamp) (first stop : UInt64) :
    Reached suite keys s₀ leaves service →
    Reached suite keys s₀ leaves (service.entries now first stop).2

variable [LawfulStore S R W] {suite : Suite} {keys : KeyMaterial} {log : List (Logged suite keys)}
  {service service' : Service S} {leaves : List Leaf} {s₀ : S}

/-- A service that is started over a log holds it. -/
theorem Holds.of_start (h : Holds suite keys log service) {now : Timestamp} {maxPage : UInt64}
    {s : S} (hstart : start now keys maxPage service.store = (.ok service', s)) :
    Holds suite keys log service' := by
  obtain ⟨s', hattach, h'⟩ := Tree.attach_of_represents h.tree.ready h.tree.represents now
  rw [start] at hstart
  split at hstart
  · cases hstart
  · rw [hattach] at hstart
    cases hstart
    exact ⟨rfl, h'⟩

/-- An entry that is refused leaves the log as it is. -/
theorem Holds.of_append_error (h : Holds suite keys log service) {now : Timestamp}
    {nonces : Nonce × Nonce} {entry : Entry} {e : LogError}
    (happend : service.append suite now nonces entry = (.error e, service')) :
    Holds suite keys log service' := by
  rw [Service.append] at happend
  cases hleaf : leafOf suite service.keys now nonces entry with
  | error e' =>
      simp only [hleaf] at happend
      cases happend
      exact h
  | ok leaf =>
      rcases htree : Tree.append suite.hash now leaf service.tree service.store with
        ⟨result, tree, s⟩
      simp only [hleaf, htree] at happend
      cases happend
      exact ⟨h.keys_eq, h.tree.of_append_error htree⟩

/-- An entry that is accepted goes to the end of the log. -/
theorem Holds.of_append_ok (h : Holds suite keys log service) (hlt : log.length < 2 ^ 63)
    {now : Timestamp} {nonces : Nonce × Nonce} {entry : Entry} {leaf : Leaf} {index : UInt64}
    (hleaf : leafOf suite keys now nonces entry = .ok leaf)
    (happend : service.append suite now nonces entry = (.ok index, service')) :
    ∃ l : Logged suite keys, l.leaf = leaf ∧ Holds suite keys (log ++ [l]) service' := by
  cases hencode : leaf.encode with
  | error cause =>
      rw [Service.append, h.keys_eq, hleaf] at happend
      simp only [Tree.append, hencode] at happend
      cases happend
  | ok bytes =>
      obtain ⟨service₁, happend₁, h₁⟩ := h.append hlt (logged?_of_ok hleaf hencode)
      cases happend.symm.trans happend₁
      exact ⟨_, rfl, h₁⟩

/-- A page leaves the log as it is. -/
theorem Holds.after_entries (h : Holds suite keys log service) (hle : log.length ≤ 2 ^ 63)
    (now : Timestamp) (first stop : UInt64) :
    Holds suite keys log (service.entries now first stop).2 := by
  rw [entries, Service.leaves]
  cases rangeError? first stop service.maxPage service.size with
  | some e => exact h
  | none =>
      obtain ⟨s, hleaves, htree⟩ := h.tree.leaves (by rwa [length_writtenOf]) now first stop
      simp only [reading, hleaves]
      exact h.of_reading htree

/-- However a service has come this far, its tree holds the leaves of the entries it accepted. -/
theorem Reached.exists_holds (h : Reached suite keys s₀ leaves service)
    (hready : LawfulStore.Ready s₀) (hempty : LawfulStore.view s₀ = View.empty)
    (hle : leaves.length ≤ 2 ^ 63) :
    ∃ log : List (Logged suite keys), log.map Logged.leaf = leaves ∧
      Holds suite keys log service := by
  induction h with
  | @opened now maxPage service s hstart =>
      have hpage : maxPage ≠ 0 := by
        rintro rfl
        rw [start, if_pos rfl] at hstart
        cases hstart
      obtain ⟨service', s', hstart', h⟩ := start_holds hready hempty suite now keys hpage
      cases hstart.symm.trans hstart'
      exact ⟨[], rfl, h⟩
  | restarted _ hstart ih =>
      obtain ⟨log, hlog, h⟩ := ih hle
      exact ⟨log, hlog, h.of_start hstart⟩
  | accepted _ hleaf happend ih =>
      rw [List.length_append, List.length_singleton] at hle
      obtain ⟨log, rfl, h⟩ := ih (by omega)
      rw [List.length_map] at hle
      obtain ⟨l, rfl, h'⟩ := h.of_append_ok (by omega) hleaf happend
      exact ⟨log ++ [l], List.map_append, h'⟩
  | refused _ happend ih =>
      obtain ⟨log, hlog, h⟩ := ih hle
      exact ⟨log, hlog, h.of_append_error happend⟩
  | headed now _ ih =>
      obtain ⟨log, rfl, h⟩ := ih hle
      obtain ⟨service', hhead, h'⟩ := h.head (by rwa [List.length_map] at hle) now
      exact ⟨log, rfl, by rwa [hhead]⟩
  | proved now index _ ih =>
      obtain ⟨log, rfl, h⟩ := ih hle
      exact ⟨log, rfl, h.after_proof (by rwa [List.length_map] at hle) now index⟩
  | paged now first stop _ ih =>
      obtain ⟨log, rfl, h⟩ := ih hle
      exact ⟨log, rfl, h.after_entries (by rwa [List.length_map] at hle) now first stop⟩

/-- An entry whose leaf has a byte form is accepted as the next one. -/
theorem Reached.exists_append (h : Reached suite keys s₀ leaves service)
    (hready : LawfulStore.Ready s₀) (hempty : LawfulStore.view s₀ = View.empty)
    (hlt : leaves.length < 2 ^ 63) {now : Timestamp} {nonces : Nonce × Nonce} {entry : Entry}
    {leaf : Leaf} {bytes : Bytes} (hleaf : leafOf suite keys now nonces entry = .ok leaf)
    (hencode : leaf.encode = .ok bytes) :
    ∃ service', service.append suite now nonces entry =
        (.ok (UInt64.ofNat leaves.length), service') ∧
      Reached suite keys s₀ (leaves ++ [leaf]) service' := by
  obtain ⟨log, rfl, hholds⟩ := h.exists_holds hready hempty hlt.le
  rw [List.length_map] at hlt ⊢
  obtain ⟨service', happend, -⟩ := hholds.append hlt (logged?_of_ok hleaf hencode)
  exact ⟨service', happend, .accepted h hleaf happend⟩

/-- A service can be started anew over its store, with whatever limit. -/
theorem Reached.exists_restart (h : Reached suite keys s₀ leaves service)
    (hready : LawfulStore.Ready s₀) (hempty : LawfulStore.view s₀ = View.empty)
    (hle : leaves.length ≤ 2 ^ 63) (now : Timestamp) {maxPage : UInt64} (hpage : maxPage ≠ 0) :
    ∃ service', Reached suite keys s₀ leaves service' ∧ service'.maxPage = maxPage := by
  obtain ⟨log, -, hholds⟩ := h.exists_holds hready hempty hle
  obtain ⟨s, hattach, -⟩ := Tree.attach_of_represents hholds.tree.ready hholds.tree.represents now
  have hstart : start now keys maxPage service.store =
      (.ok ⟨keys, maxPage, ⟨UInt64.ofNat (writtenOf log).length⟩, s⟩, s) := by
    rw [start, if_neg hpage, hattach]
  exact ⟨_, .restarted h hstart, rfl⟩

theorem bytesOf_writtenOf (log : List (Logged suite keys)) :
    bytesOf (writtenOf log) = (log.map Logged.leaf).map Leaf.bytes := by
  have hleaves : (writtenOf log).map Leaf.Written.leaf = log.map Logged.leaf := by
    rw [writtenOf, List.map_map]
    rfl
  rw [bytesOf_eq_map_bytes, hleaves]

/-- A service that has accepted `leaves` serves a proof for each of them. It decodes to the leaf and
its index under the present head, it has as many hashes as the root is high, zero stands in it
exactly where the block beside the path starts at or past the end of the log, and it verifies under
the key of the service. Past the end of the log the answer is that the index is out of range. -/
theorem every_entry_stays_provable (hown : suite.VerifiesOwn) (hready : LawfulStore.Ready s₀)
    (hempty : LawfulStore.view s₀ = View.empty) (hreached : Reached suite keys s₀ leaves service)
    (hle : leaves.length ≤ 2 ^ 63) (hzero : suite.hash.NowhereZero (leaves.map Leaf.bytes))
    (now : Timestamp) (index : UInt64) :
    (∀ leaf, leaves[index.toNat]? = some leaf →
      ∃ bytes p, (service.proof suite now index).1 = .ok bytes ∧
        InclusionProof.decode bytes = .ok p ∧ p.index = index ∧ p.leaf = leaf ∧
        p.head.size.toNat = leaves.length ∧
        (∀ later, ∃ shown head, (service.head suite later).1 = .ok shown ∧
          TreeHead.decode shown = .ok head ∧ head.size = p.head.size ∧ head.root = p.head.root) ∧
        (rootFor p.head.size).right.toNat = 2 ^ p.hashes.length ∧
        List.Forall₂ (fun span digest => digest = Digest.zero ↔ p.head.size ≤ span.sibling.left)
          (path index p.head.size) p.hashes ∧
        suite.verifyProof (service.publicKey suite) p = true) ∧
    (leaves.length ≤ index.toNat → (service.proof suite now index).1 =
      .error (.indexOutOfRange index (UInt64.ofNat leaves.length))) := by
  obtain ⟨log, rfl, h⟩ := hreached.exists_holds hready hempty hle
  rw [List.length_map] at hle ⊢
  rw [← bytesOf_writtenOf] at hzero
  have hlength : (bytesOf (writtenOf log)).length = log.length := by
    rw [length_bytesOf, length_writtenOf]
  have hsize : (headOf log now).size.toNat = log.length := toNat_ofNat_of_le hle
  constructor
  · intro leaf hat
    rw [List.getElem?_map, Option.map_eq_some_iff] at hat
    obtain ⟨l, hat, rfl⟩ := hat
    obtain ⟨bytes, service', hproof, hdecode, -⟩ := h.proof hle now hat
    refine ⟨bytes, proofOf log now index l.leaf, by rw [hproof], hdecode, rfl, rfl, hsize, ?_, ?_,
      ?_, ?_⟩
    · intro later
      obtain ⟨service'', hhead, -⟩ := h.head hle later
      exact ⟨_, headOf log later, by rw [hhead], TreeHead.decode_encode _, rfl, rfl⟩
    · have hright : (rootFor (UInt64.ofNat (bytesOf (writtenOf log)).length)).right.toNat =
          2 ^ depth (bytesOf (writtenOf log)).length := toNat_right_rootFor (by rwa [hlength])
      rw [hlength] at hright
      show (rootFor (UInt64.ofNat log.length)).right.toNat = _
      rw [hright, proofOf, HashFunction.pathHashes, length_besides, hlength]
    · apply hzero.forall₂_path
      · rwa [hlength]
      · rw [hlength]
        exact hsize
      · rw [hlength]
        exact (List.getElem?_eq_some_iff.1 hat).1
    · rw [publicKey, h.keys_eq]
      exact verifyProof_proofOf hown hle hzero now hat
  · intro hpast
    obtain ⟨service', hproof, -⟩ := h.proof_of_le hle now hpast
    rw [hproof]

/-! ### Three entries in memory -/

/-- The leaf of the sample entry of some owner. -/
def sampleLeaf (owner : UInt8) : Leaf :=
  ⟨moment 2, ⟨sampleContent, "ada"⟩, List.replicate 32 owner,
    List.replicate 12 0 ++ ([0, 1] ++ utf8 "contact"),
    List.replicate 12 0 ++ ([0, 2] ++ utf8 "contact")⟩

theorem leafOf_sampleEntry (owner : UInt8) :
    leafOf Suite.plain sampleKeys (moment 2) (Octets.zero 12, Octets.zero 12)
      (sampleEntry owner "contact") = .ok (sampleLeaf owner) := rfl

theorem exists_encode_sampleLeaf (owner : UInt8) :
    ∃ bytes, (sampleLeaf owner).encode = .ok bytes := ⟨_, rfl⟩

def sampleLeaves : List Leaf := [sampleLeaf 5, sampleLeaf 6, sampleLeaf 7]

theorem exists_reached_sample :
    ∃ service, Reached Suite.plain sampleKeys Versioned.empty sampleLeaves service := by
  have hready : LawfulStore.Ready Versioned.empty := Versioned.bounded_empty
  have hempty : LawfulStore.view Versioned.empty = View.empty := Versioned.current_empty
  obtain ⟨service₀, s', hstart, -⟩ :=
    start_holds hready hempty Suite.plain (moment 0) sampleKeys (by decide : (1 : UInt64) ≠ 0)
  have hopened : Reached Suite.plain sampleKeys Versioned.empty [] service₀ := .opened hstart
  obtain ⟨bytes₅, hencode₅⟩ := exists_encode_sampleLeaf 5
  obtain ⟨bytes₆, hencode₆⟩ := exists_encode_sampleLeaf 6
  obtain ⟨bytes₇, hencode₇⟩ := exists_encode_sampleLeaf 7
  obtain ⟨service₁, -, hfirst⟩ :=
    hopened.exists_append hready hempty (by decide) (leafOf_sampleEntry 5) hencode₅
  obtain ⟨service₂, -, hsecond⟩ :=
    hfirst.exists_append hready hempty (by decide) (leafOf_sampleEntry 6) hencode₆
  obtain ⟨service, -, hthird⟩ :=
    hsecond.exists_append hready hempty (by decide) (leafOf_sampleEntry 7) hencode₇
  exact ⟨service, hthird⟩

/-- Three entries accepted in memory, under the suite in the open: the proof for the last one shows
zero beside it, where a fourth would stand. -/
theorem every_entry_stays_provable_sample :
    Suite.plain.VerifiesOwn ∧ LawfulStore.Ready Versioned.empty ∧
    LawfulStore.view Versioned.empty = View.empty ∧ sampleLeaves.length ≤ 2 ^ 63 ∧
    Suite.plain.hash.NowhereZero (sampleLeaves.map Leaf.bytes) ∧
    ∃ service, Reached Suite.plain sampleKeys Versioned.empty sampleLeaves service ∧
      (∃ bytes p, (service.proof Suite.plain (moment 3) 2).1 = .ok bytes ∧
        InclusionProof.decode bytes = .ok p ∧ p.leaf = sampleLeaf 7 ∧ p.head.size.toNat = 3 ∧
        p.hashes.length = 2 ∧ p.hashes[0]? = some Digest.zero ∧
        Suite.plain.verifyProof (service.publicKey Suite.plain) p = true) ∧
      (service.proof Suite.plain (moment 3) 3).1 = .error (.indexOutOfRange 3 3) := by
  have hready : LawfulStore.Ready Versioned.empty := Versioned.bounded_empty
  have hempty : LawfulStore.view Versioned.empty = View.empty := Versioned.current_empty
  have hle : sampleLeaves.length ≤ 2 ^ 63 := by decide
  have hzero : Suite.plain.hash.NowhereZero (sampleLeaves.map Leaf.bytes) := by decide +kernel
  obtain ⟨service, hthird⟩ := exists_reached_sample
  obtain ⟨hproof, -⟩ := every_entry_stays_provable Suite.plain_verifiesOwn hready hempty hthird hle
    hzero (moment 3) 2
  obtain ⟨-, hpast⟩ := every_entry_stays_provable Suite.plain_verifiesOwn hready hempty hthird hle
    hzero (moment 3) 3
  obtain ⟨bytes, p, hbytes, hdecode, -, hleaf, hsize, -, -, hpattern, hverify⟩ :=
    hproof (sampleLeaf 7) rfl
  have hthree : p.head.size = 3 := UInt64.toNat_inj.1 hsize
  have hpath : path 2 3 = [⟨2, 3⟩, ⟨2, 4⟩] := by decide
  rw [hthree, hpath] at hpattern
  have hlength : p.hashes.length = 2 := hpattern.length_eq.symm
  refine ⟨Suite.plain_verifiesOwn, hready, hempty, hle, hzero, service, hthird,
    ⟨bytes, p, hbytes, hdecode, hleaf, hsize, hlength, ?_, hverify⟩, hpast (by decide)⟩
  cases hhashes : p.hashes with
  | nil => simp [hhashes] at hlength
  | cons digest rest =>
      rw [hhashes] at hpattern
      cases hpattern with
      | cons hdigest _ => rw [hdigest.2 (by decide)]; rfl

end Service

end OwnershipLog
