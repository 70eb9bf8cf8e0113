import Mathlib.Data.List.Forall2
import OwnershipLog.Proofs.Merkle.Reference
import OwnershipLog.Proofs.Wire.RoundTrip

/-!
# What an accepted path says

A list of sibling hashes that leads from a leaf to the root of a log is compared
with the log from the root down: where the two hashes under a node are not those of
the log, the node's bytes and the bytes that the log hashed there are different
strings with one hash (`Collides`). So a path that is accepted is the path of the
log, and its leaf the leaf of the log (`verifyHashes_sound`).

The path of the log itself is accepted as long as none of its hashes happens to
be zero (`verifyHashes_complete`): zero stands for the blocks past the end.
-/

namespace OwnershipLog

open OwnershipLog.Span

/-- A string of one list and a different string of the other have one hash. -/
def HashFunction.Collides (hash : HashFunction) (xs ys : List Bytes) : Prop :=
  ∃ x ∈ xs, ∃ y ∈ ys, x ≠ y ∧ hash x = hash y

instance (hash : HashFunction) (xs ys : List Bytes) : Decidable (hash.Collides xs ys) :=
  inferInstanceAs (Decidable (∃ x ∈ xs, ∃ y ∈ ys, x ≠ y ∧ hash x = hash y))

theorem HashFunction.Collides.mono {hash : HashFunction} {xs xs' ys ys' : List Bytes}
    (h : hash.Collides xs ys) (hxs : ∀ x ∈ xs, x ∈ xs') (hys : ∀ y ∈ ys, y ∈ ys') :
    hash.Collides xs' ys' := by
  obtain ⟨x, hx, y, hy, hne, heq⟩ := h
  exact ⟨x, hxs x hx, y, hys y hy, hne, heq⟩

/-- Where nothing collides, strings with one hash are one. -/
theorem HashFunction.eq_of_not_collides {hash : HashFunction} {xs ys : List Bytes}
    (h : ¬ hash.Collides xs ys) {x y : Bytes} (hx : x ∈ xs) (hy : y ∈ ys)
    (heq : hash x = hash y) : x = y := by
  by_contra hne
  exact h ⟨x, hx, y, hy, hne, heq⟩

section

variable {hash : HashFunction} {leaves : List Bytes} {size : UInt64} {i h k : Nat}

theorem isRoot_of_size (hle : leaves.length ≤ 2 ^ 63) (hsize : size.toNat = leaves.length)
    (hi : i < leaves.length) (hh : h ≤ depth leaves.length) :
    (block h (i / 2 ^ h)).isRoot size = decide (h = depth leaves.length) := by
  rw [← hsize] at hle hi hh ⊢
  exact isRoot_iff hle hi hh

/-- A walk that reaches the root of the log from a block around leaf `i` began with the hash of the
block and used the hashes beside the path, or two different strings have one hash. -/
theorem climb_sound {own : Digest} {hashes : List Digest} (hle : leaves.length ≤ 2 ^ 63)
    (hsize : size.toNat = leaves.length) (hi : i < leaves.length)
    (hk : h + k = depth leaves.length)
    (hclimb : Merkle.climb hash size (block h (i / 2 ^ h)) own hashes =
      some (hash.rootHash leaves)) :
    (own = hash.blockHash leaves h (i / 2 ^ h) ∧ hashes = hash.besides leaves h k i) ∨
      hash.Collides (Merkle.climbInputs hash (block h (i / 2 ^ h)) own hashes)
        (Merkle.buildInputs hash leaves) := by
  induction k generalizing h own hashes with
  | zero =>
      obtain rfl : h = depth leaves.length := by omega
      have hzero : i / 2 ^ depth leaves.length = 0 :=
        Nat.div_eq_of_lt (lt_of_lt_of_le hi (le_two_pow_depth _))
      have hroot := isRoot_of_size hle hsize hi le_rfl
      cases hashes with
      | nil =>
          rw [Merkle.climb, hroot, if_pos (decide_eq_true rfl)] at hclimb
          refine Or.inl ⟨?_, rfl⟩
          rw [hzero]
          exact Option.some.inj hclimb
      | cons sibling rest =>
          rw [Merkle.climb, hroot, if_pos (decide_eq_true rfl)] at hclimb
          cases hclimb
  | succ k ih =>
      have hbelow : h < depth leaves.length := by omega
      have hroot := isRoot_of_size hle hsize hi hbelow.le
      rw [decide_eq_false hbelow.ne] at hroot
      cases hashes with
      | nil =>
          rw [Merkle.climb, hroot, if_neg Bool.false_ne_true] at hclimb
          cases hclimb
      | cons sibling rest =>
          rw [Merkle.climb, hroot, if_neg Bool.false_ne_true] at hclimb
          split at hclimb
          · cases hclimb
          · rw [parent_block_div hle hi hbelow] at hclimb
            rw [Merkle.climbInputs, parent_block_div hle hi hbelow]
            rcases ih (by omega) hclimb with ⟨hcombine, hrest⟩ | hcollides
            · -- compare the string that the walk hashes here with that of the log
              by_cases hsame : (block h (i / 2 ^ h)).joined own sibling =
                  (block h (i / 2 ^ h)).joined (hash.blockHash leaves h (i / 2 ^ h))
                    (hash.blockHash leaves h (beside (i / 2 ^ h)))
              · obtain ⟨hown, hsibling⟩ := Span.joined_inj _ hsame
                exact Or.inl ⟨hown, by rw [besides_succ, hsibling, hrest]⟩
              · refine Or.inr ⟨_, List.mem_cons_self, _, joined_mem_buildInputs hash hle hi hbelow,
                  hsame, ?_⟩
                rw [← Span.combine_eq_hash hash, ← Span.combine_eq_hash hash,
                  combine_path hash hle hi hbelow, hcombine]
            · exact Or.inr (hcollides.mono (fun _ => List.mem_cons_of_mem _) fun _ hy => hy)

/-- The hash of a block with a leaf in it is that of a string that is hashed to build the log. -/
theorem exists_blockHash_eq {b : Nat} (hle : leaves.length ≤ 2 ^ 63)
    (hlt : b * 2 ^ h < leaves.length) (hh : h ≤ depth leaves.length) :
    ∃ x ∈ Merkle.buildInputs hash leaves, hash.blockHash leaves h b = hash x := by
  cases h with
  | zero =>
      have hat : leaves[b]? = some leaves[b] := List.getElem?_eq_getElem (by simpa using hlt)
      exact ⟨_, mem_buildInputs_of_getElem? hash hat, blockHash_zero_of_getElem? hash hat⟩
  | succ h =>
      have hpos : 0 < 2 ^ (h + 1) := Nat.two_pow_pos _
      have hfirst : b * 2 ^ (h + 1) / 2 ^ (h + 1) = b := Nat.mul_div_cancel _ hpos
      have hcombine := combine_path hash hle hlt hh
      rw [hfirst, Span.combine_eq_hash] at hcombine
      exact ⟨_, joined_mem_buildInputs hash hle hlt hh, hcombine.symm⟩

/-- No leaf and no node of the tree over the leaves has the hash of a node without leaves. -/
def HashFunction.NowhereZero (hash : HashFunction) (leaves : List Bytes) : Prop :=
  ∀ h < depth leaves.length + 1, ∀ b < leaves.length, b * 2 ^ h < leaves.length →
    hash.blockHash leaves h b ≠ Digest.zero

instance (hash : HashFunction) (leaves : List Bytes) : Decidable (hash.NowhereZero leaves) :=
  inferInstanceAs (Decidable (∀ h < depth leaves.length + 1, ∀ b < leaves.length,
    b * 2 ^ h < leaves.length → hash.blockHash leaves h b ≠ Digest.zero))

/-- It is enough that no string which is hashed to build the log has that hash. -/
theorem nowhereZero_of_buildInputs (hle : leaves.length ≤ 2 ^ 63)
    (hzero : ∀ x ∈ Merkle.buildInputs hash leaves, hash x ≠ Digest.zero) :
    hash.NowhereZero leaves := by
  intro h hh b _ hlt heq
  obtain ⟨x, hx, hhash⟩ := exists_blockHash_eq hle hlt (Nat.lt_succ_iff.1 hh)
  exact hzero x hx (hhash.symm.trans heq)

/-- Then exactly the blocks that start at or past the end of the log hash to zero. -/
theorem HashFunction.NowhereZero.blockHash_eq_zero_iff {b : Nat} (hzero : hash.NowhereZero leaves)
    (hh : h ≤ depth leaves.length) :
    hash.blockHash leaves h b = Digest.zero ↔ leaves.length ≤ b * 2 ^ h := by
  constructor
  · intro heq
    by_contra hnot
    have hlt : b * 2 ^ h < leaves.length := Nat.not_le.1 hnot
    have hb : b < leaves.length :=
      lt_of_le_of_lt (Nat.le_mul_of_pos_right b (Nat.two_pow_pos h)) hlt
    exact hzero h (Nat.lt_succ_of_le hh) b hb hlt heq
  · exact blockHash_of_le hash

/-- Zero stands beside a path exactly where the block there starts at or past the end of the log. -/
theorem HashFunction.NowhereZero.beside_eq_zero_iff (hzero : hash.NowhereZero leaves)
    (hle : leaves.length ≤ 2 ^ 63) (hsize : size.toNat = leaves.length) (hi : i < leaves.length)
    (hh : h < depth leaves.length) :
    hash.blockHash leaves h (beside (i / 2 ^ h)) = Digest.zero ↔
      size ≤ (block h (i / 2 ^ h)).sibling.left := by
  have hrange := inRange_parent hle hi hh
  rw [hzero.blockHash_eq_zero_iff hh.le, sibling_block hrange, UInt64.le_iff_toNat_le,
    toNat_left_block hrange.beside, hsize]

/-- The path of the log leads to its root, unless a hash beside it is zero by chance. -/
theorem climb_complete (hle : leaves.length ≤ 2 ^ 63) (hsize : size.toNat = leaves.length)
    (hi : i < leaves.length) (hk : h + k = depth leaves.length)
    (hzero : hash.NowhereZero leaves) :
    Merkle.climb hash size (block h (i / 2 ^ h)) (hash.blockHash leaves h (i / 2 ^ h))
      (hash.besides leaves h k i) = some (hash.rootHash leaves) := by
  induction k generalizing h with
  | zero =>
      obtain rfl : h = depth leaves.length := by omega
      have hzero : i / 2 ^ depth leaves.length = 0 :=
        Nat.div_eq_of_lt (lt_of_lt_of_le hi (le_two_pow_depth _))
      rw [besides_zero, Merkle.climb, isRoot_of_size hle hsize hi le_rfl,
        if_pos (decide_eq_true rfl), hzero, HashFunction.rootHash]
  | succ k ih =>
      have hbelow : h < depth leaves.length := by omega
      have hpattern := hzero.beside_eq_zero_iff hle hsize hi hbelow
      rw [besides_succ, Merkle.climb, isRoot_of_size hle hsize hi hbelow.le,
        if_neg (by simpa using hbelow.ne), if_neg (by simp [hpattern]),
        combine_path hash hle hi hbelow, parent_block_div hle hi hbelow]
      exact ih (by omega)

end

/-! ## Proofs -/

section

variable {hash : HashFunction} {leaves : List Bytes} {p : InclusionProof}

/-- What it takes for the hashes of a proof to be accepted. -/
theorem verifyHashes_iff :
    p.verifyHashes hash = true ↔ p.head.size ≤ maxLeaves ∧ p.index < p.head.size ∧
      ∃ bytes, p.leaf.encode = .ok bytes ∧
        Merkle.climb hash p.head.size (Span.leaf p.index) (hash bytes) p.hashes =
          some p.head.root := by
  rw [InclusionProof.verifyHashes]
  split
  · rename_i hout
    simp only [Bool.false_eq_true, false_iff]
    rintro ⟨hsize, hindex, -⟩
    rcases hout with hout | hout
    · exact absurd hsize (UInt64.not_le.2 hout)
    · exact absurd hindex (UInt64.not_lt.2 hout)
  · rename_i hin
    rw [not_or, UInt64.not_lt, UInt64.not_le] at hin
    cases hencode : p.leaf.encode with
    | error cause =>
        simp [Leaf.hash?, hencode]
    | ok bytes =>
        simp [Leaf.hash?, hencode, hin.1, hin.2]

/-- A walk hashes `Merkle.climbInputs` and nothing else. -/
theorem climb_congr {hash' : HashFunction} {size : UInt64} {s : Span} {own : Digest}
    {hashes : List Digest} (h : ∀ x ∈ Merkle.climbInputs hash s own hashes, hash x = hash' x) :
    Merkle.climb hash size s own hashes = Merkle.climb hash' size s own hashes := by
  induction hashes generalizing s own with
  | nil => rfl
  | cons sibling rest ih =>
      rw [Merkle.climbInputs, List.forall_mem_cons] at h
      have hcombine : s.combine hash own sibling = s.combine hash' own sibling := by
        rw [Span.combine_eq_hash, Span.combine_eq_hash, h.1]
      rw [Merkle.climb, Merkle.climb, ← hcombine, ih h.2]

/-- To check a proof is to hash `p.inputs hash` and nothing else. -/
theorem verifyHashes_congr {hash' : HashFunction} (h : ∀ x ∈ p.inputs hash, hash x = hash' x) :
    p.verifyHashes hash = p.verifyHashes hash' := by
  rw [InclusionProof.verifyHashes, InclusionProof.verifyHashes]
  cases hencode : p.leaf.encode with
  | error cause => simp only [Leaf.hash?, hencode]
  | ok bytes =>
      rw [InclusionProof.inputs, hencode, List.forall_mem_cons] at h
      simp only [Leaf.hash?, hencode, ← h.1, climb_congr h.2]

/-- A proof against the root of a log that is accepted carries the leaf of the log and its path, or
two different strings, one hashed to check the proof and one to build the log, have one hash. -/
theorem verifyHashes_sound (hle : leaves.length ≤ 2 ^ 63)
    (hsize : p.head.size.toNat = leaves.length)
    (hroot : p.head.root = hash.rootHash leaves) (hverify : p.verifyHashes hash = true) :
    (p.index.toNat < leaves.length ∧
      (∃ bytes, p.leaf.encode = .ok bytes ∧ leaves[p.index.toNat]? = some bytes) ∧
        p.hashes = hash.pathHashes leaves p.index.toNat) ∨
      hash.Collides (p.inputs hash) (Merkle.buildInputs hash leaves) := by
  obtain ⟨-, hindex, bytes, hencode, hclimb⟩ := verifyHashes_iff.1 hverify
  have hi : p.index.toNat < leaves.length := by
    rw [← hsize]
    exact UInt64.lt_iff_toNat_lt.1 hindex
  have hat : leaves[p.index.toNat]? = some leaves[p.index.toNat] := List.getElem?_eq_getElem hi
  rw [leaf_eq_block, hroot] at hclimb
  have hinputs : p.inputs hash =
      bytes :: Merkle.climbInputs hash (block 0 p.index.toNat) (hash bytes) p.hashes := by
    rw [InclusionProof.inputs, hencode, leaf_eq_block]
  have hpath := climb_sound (h := 0) (k := depth leaves.length) (i := p.index.toNat) hle hsize hi
    (Nat.zero_add _) (by simpa using hclimb)
  rw [pow_zero, Nat.div_one, blockHash_zero_of_getElem? hash hat] at hpath
  rw [hinputs]
  rcases hpath with ⟨hown, hhashes⟩ | hcollides
  · by_cases hsame : bytes = leaves[p.index.toNat]
    · exact Or.inl ⟨hi, ⟨bytes, hencode, by rw [hat, hsame]⟩, hhashes⟩
    · exact Or.inr ⟨bytes, List.mem_cons_self, _, mem_buildInputs_of_getElem? hash hat, hsame, hown⟩
  · exact Or.inr (hcollides.mono (fun _ => List.mem_cons_of_mem _) fun _ hy => hy)

/-- The path from a leaf of a log and the hashes beside it, level by level. -/
theorem HashFunction.NowhereZero.forall₂_path (hzero : hash.NowhereZero leaves)
    (hle : leaves.length ≤ 2 ^ 63) {size index : UInt64} (hsize : size.toNat = leaves.length)
    (hi : index.toNat < leaves.length) :
    List.Forall₂ (fun span digest => digest = Digest.zero ↔ size ≤ span.sibling.left)
      (path index size) (hash.pathHashes leaves index.toNat) := by
  have hindex : index < size := by rwa [UInt64.lt_iff_toNat_lt, hsize]
  rw [path_eq (by omega) hindex, hsize, blocksAbove, HashFunction.pathHashes,
    HashFunction.besides, List.forall₂_map_left_iff, List.forall₂_map_right_iff, List.forall₂_same]
  intro h hh
  rw [List.mem_range'_1] at hh
  exact hzero.beside_eq_zero_iff hle hsize hi (by omega)

/-- The leaf of a log with its path is accepted against the root. -/
theorem verifyHashes_complete {bytes : Bytes} (hle : leaves.length ≤ 2 ^ 63)
    (hsize : p.head.size.toNat = leaves.length) (hroot : p.head.root = hash.rootHash leaves)
    (hencode : p.leaf.encode = .ok bytes) (hat : leaves[p.index.toNat]? = some bytes)
    (hhashes : p.hashes = hash.pathHashes leaves p.index.toNat)
    (hzero : hash.NowhereZero leaves) :
    p.verifyHashes hash = true := by
  have hi : p.index.toNat < leaves.length := (List.getElem?_eq_some_iff.1 hat).1
  have hclimb := climb_complete (h := 0) (k := depth leaves.length) hle hsize hi (Nat.zero_add _)
    hzero
  rw [pow_zero, Nat.div_one, blockHash_zero_of_getElem? hash hat, ← leaf_eq_block] at hclimb
  refine verifyHashes_iff.2 ⟨?_, ?_, bytes, hencode, ?_⟩
  · rw [UInt64.le_iff_toNat_le, hsize]
    exact hle
  · rw [UInt64.lt_iff_toNat_lt, hsize]
    exact hi
  · rw [hhashes, hroot]
    exact hclimb

end

end OwnershipLog
