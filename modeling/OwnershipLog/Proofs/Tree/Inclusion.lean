import OwnershipLog.Proofs.Merkle.Climb
import OwnershipLog.Proofs.Tree.Run

/-!
# Proofs against a log

A proof is judged by its hashes alone, so whoever made it, one that is accepted
against the root of a log carries what the log itself would have answered: the leaf
at its index and the path of the log. The other way out is a collision between a
string that is hashed to check the proof and a string that is hashed to build the
log; both lists are finite and given by what was appended and what was presented.
-/

namespace OwnershipLog

namespace Tree

section

variable {S R W : Type} [Store S R W] [LawfulStore S R W] {hash : HashFunction}
  {log : List Leaf.Written} {tree : Tree} {s : S}

/-- A proof that is accepted against the root of a log is the one that the log gives for the index,
or exhibits a collision. -/
theorem Holds.verifyHashes_sound (h : Holds hash log tree s) (hle : log.length ≤ 2 ^ 63)
    {p : InclusionProof} (hsize : p.head.size.toNat = log.length)
    (hroot : p.head.root = hash.rootHash (bytesOf log)) (hverify : p.verifyHashes hash = true) :
    (p.index.toNat < log.length ∧ log[p.index.toNat]?.map Leaf.Written.leaf = some p.leaf ∧
      ∀ now, ∃ q s', Tree.proof hash now p.index s = (.ok q, s') ∧ q.leaf = p.leaf ∧
        q.hashes = p.hashes) ∨
      hash.Collides (p.inputs hash) (Merkle.buildInputs hash (bytesOf log)) := by
  have hbytes : (bytesOf log).length ≤ 2 ^ 63 := by rwa [length_bytesOf]
  rcases OwnershipLog.verifyHashes_sound hbytes (by rwa [length_bytesOf]) hroot hverify with
    ⟨hindex, ⟨bytes, hencode, hat⟩, hhashes⟩ | hcollides
  · rw [length_bytesOf] at hindex
    rw [getElem?_bytesOf, Option.map_eq_some_iff] at hat
    obtain ⟨written, hwritten, rfl⟩ := hat
    have hleaf : written.leaf = p.leaf := Leaf.encode_inj written.encode_eq hencode
    refine Or.inl ⟨hindex, by rw [hwritten, Option.map_some, hleaf], ?_⟩
    intro now
    obtain ⟨s', hproof, -⟩ := h.proof hle now hwritten
    exact ⟨_, s', hproof, hleaf, hhashes.symm⟩
  · exact Or.inr hcollides

/-- Whatever was offered to a log that began in an empty store, and whatever proof is presented
against its size and root: if the proof is accepted, its index is that of a leaf, its leaf is the
one that was accepted there, and its hashes are those that the log answers for the index; or else
two different strings with one hash are found among those hashed to check the proof and those
hashed to build the log. -/
theorem run_verifyHashes_sound (hash : HashFunction) {s₀ : S} (hready : LawfulStore.Ready s₀)
    (hempty : LawfulStore.view s₀ = View.empty) (start : Timestamp) (events : List Event)
    (hle : (accepted events).length ≤ 2 ^ 63) :
    ∃ tree₀ s₁ results tree s,
      attach start s₀ = (.ok tree₀, s₁) ∧ run hash events tree₀ s₁ = (results, tree, s) ∧
      ∀ now, ∃ head s', Tree.head hash now s = (.ok head, s') ∧
        head.size.toNat = (accepted events).length ∧
        ∀ p : InclusionProof, p.head.size = head.size → p.head.root = head.root →
          p.verifyHashes hash = true →
          (p.index.toNat < (accepted events).length ∧
            (accepted events)[p.index.toNat]?.map Leaf.Written.leaf = some p.leaf ∧
            ∀ later, ∃ q s'', Tree.proof hash later p.index s = (.ok q, s'') ∧ q.leaf = p.leaf ∧
              q.hashes = p.hashes) ∨
          hash.Collides (p.inputs hash) (Merkle.buildInputs hash (bytesOf (accepted events))) := by
  obtain ⟨tree₀, s₁, tree, s, hattach, hrun, h⟩ := exists_run_holds hash hready hempty start hle
  refine ⟨tree₀, s₁, answers 0 events, tree, s, hattach, hrun, ?_⟩
  intro now
  obtain ⟨s', hhead, -⟩ := h.head hle now
  have hnat := toNat_ofNat_of_le hle
  refine ⟨_, s', hhead, hnat, ?_⟩
  intro p hsize hroot hverify
  exact h.verifyHashes_sound hle (by rw [hsize, hnat]) hroot hverify

end

/-! ### The last of three leaves -/

/-- The proof for the last of three leaves: zero stands beside the leaf, and the node over the other
two beside its parent. -/
def lastOfThree : InclusionProof where
  head := ⟨3, Timestamp.epoch,
    Suite.plain.hash.rootHash (bytesOf (accepted (offers [1, 2, 3]))), none⟩
  index := 2
  leaf := keyed [3]
  hashes := [Digest.zero, Suite.plain.hash.node
    (Suite.plain.hash (keyed [1]).bytes) (Suite.plain.hash (keyed [2]).bytes)]

theorem verifyHashes_lastOfThree : lastOfThree.verifyHashes Suite.plain.hash = true := by
  have hbytes := bytesOf_accepted_offers [1, 2, 3]
  have hlength : (bytesOf (accepted (offers [1, 2, 3]))).length = 3 := by
    rw [hbytes]
    rfl
  have hzero : Suite.plain.hash.NowhereZero (bytesOf (accepted (offers [1, 2, 3]))) := by
    rw [hbytes]
    decide +kernel
  have hhashes : lastOfThree.hashes =
      Suite.plain.hash.pathHashes (bytesOf (accepted (offers [1, 2, 3]))) 2 := by
    rw [hbytes]
    decide +kernel
  obtain ⟨bytes, hencode⟩ : ∃ bytes, (keyed [3]).encode = .ok bytes := ⟨_, rfl⟩
  have hat : (bytesOf (accepted (offers [1, 2, 3])))[2]? = some bytes := by
    rw [hbytes, ← show (keyed [3]).bytes = bytes by rw [Leaf.bytes, hencode]; rfl]
    rfl
  exact verifyHashes_complete (by rw [hlength]; decide) hlength.symm rfl hencode hat hhashes hzero

/-- Nothing that is hashed to check it collides with anything that is hashed to build the log. -/
theorem not_collides_lastOfThree : ¬ Suite.plain.hash.Collides (lastOfThree.inputs Suite.plain.hash)
    (Merkle.buildInputs Suite.plain.hash (bytesOf (accepted (offers [1, 2, 3])))) := by
  rw [bytesOf_accepted_offers]
  decide +kernel

/-- In memory and under the suite in the open it is accepted against the head of the log, and the
log has its leaf and gives its hashes. -/
theorem run_verifyHashes_sound_lastOfThree :
    LawfulStore.Ready Versioned.empty ∧ LawfulStore.view Versioned.empty = View.empty ∧
    (accepted (offers [1, 2, 3])).length ≤ 2 ^ 63 ∧
    ∃ tree₀ s₁ results tree s s',
      attach Timestamp.epoch Versioned.empty = (.ok tree₀, s₁) ∧
      run Suite.plain.hash (offers [1, 2, 3]) tree₀ s₁ = (results, tree, s) ∧
      Tree.head Suite.plain.hash Timestamp.epoch s = (.ok lastOfThree.head, s') ∧
      lastOfThree.verifyHashes Suite.plain.hash = true ∧
      (accepted (offers [1, 2, 3]))[2]?.map Leaf.Written.leaf = some (keyed [3]) ∧
      ∀ later, ∃ q s'', Tree.proof Suite.plain.hash later 2 s = (.ok q, s'') ∧
        q.leaf = keyed [3] ∧ q.hashes = [Digest.zero, Suite.plain.hash.node
          (Suite.plain.hash (keyed [1]).bytes) (Suite.plain.hash (keyed [2]).bytes)] := by
  have hready : LawfulStore.Ready Versioned.empty := Versioned.bounded_empty
  have hempty : LawfulStore.view Versioned.empty = View.empty := Versioned.current_empty
  have hlength := length_accepted_offers [1, 2, 3]
  have hle : (accepted (offers [1, 2, 3])).length ≤ 2 ^ 63 := by
    rw [hlength]
    decide
  obtain ⟨tree₀, s₁, results, tree, s, hattach, hrun, hsound⟩ :=
    run_verifyHashes_sound Suite.plain.hash hready hempty Timestamp.epoch _ hle
  obtain ⟨head, s', hhead, hsize, hproofs⟩ := hsound Timestamp.epoch
  obtain ⟨tree₀', s₁', tree', s₂, hattach', hrun', h⟩ :=
    exists_run_holds Suite.plain.hash hready hempty Timestamp.epoch hle
  cases hattach.symm.trans hattach'
  cases hrun.symm.trans hrun'
  obtain ⟨s₂', hhead', -⟩ := h.head hle Timestamp.epoch
  rw [hlength] at hhead'
  have heq : head = lastOfThree.head := by
    have hboth := hhead.symm.trans hhead'
    cases hboth
    rfl
  rw [heq] at hhead
  rcases hproofs lastOfThree (by rw [heq]) (by rw [heq]) verifyHashes_lastOfThree with
    ⟨-, hleaf, hserved⟩ | hcollides
  · exact ⟨hready, hempty, hle, tree₀, s₁, _, tree, s, s', hattach, hrun, hhead,
      verifyHashes_lastOfThree, hleaf, hserved⟩
  · exact absurd hcollides not_collides_lastOfThree

end Tree

end OwnershipLog
