import Mathlib.Order.Bounds.Basic
import OwnershipLog.Proofs.Merkle.Padding

/-!
# Verification by the bits of the index

A proof can be checked without spans. The number of hashes is the height of the root; the bit
of the index at a level says on which side the hash from below stands there, and the index
with that bit turned over says where the block beside it starts
(`Merkle.foldBits`, `Span.beside_eq_xor`). This is the check that the walk over the spans
makes, for every proof whatever it holds (`InclusionProof.verifyHashes_iff_bits`).
-/

namespace OwnershipLog

open OwnershipLog.Span

namespace Span

/-- The block beside is the one whose number differs in the last bit. -/
theorem beside_eq_xor (b : Nat) : beside b = b ^^^ 1 := by
  rcases Nat.even_or_odd b with heven | hodd
  · rw [beside, if_pos (Nat.even_iff.1 heven), Nat.xor_one_of_even heven]
  · have hne : b % 2 ≠ 0 := by
      rw [Nat.odd_iff.1 hodd]
      exact Nat.one_ne_zero
    rw [beside, if_neg hne, Nat.xor_one_of_odd hodd]

theorem isLeast_depth (n : Nat) : IsLeast {k | n ≤ 2 ^ k} (depth n) :=
  ⟨le_two_pow_depth n, fun _ hk => depth_le hk⟩

theorem isLeftChild_eq_not_testBit {i j : Nat} (hb : InRange j (i / 2 ^ j)) :
    (block j (i / 2 ^ j)).isLeftChild = !i.testBit j := by
  rw [isLeftChild_block hb, Nat.testBit_eq_decide_div_mod_eq]
  rcases Nat.mod_two_eq_zero_or_one (i / 2 ^ j) with hmod | hmod <;> simp [hmod]

/-- Where the block beside a leaf's block starts, from the bits of the leaf's number. -/
theorem toNat_left_sibling {i j : Nat} (hb : InRange (j + 1) (i / 2 ^ j / 2)) :
    (block j (i / 2 ^ j)).sibling.left.toNat = ((i >>> j) ^^^ 1) <<< j := by
  rw [sibling_block hb, toNat_left_block hb.beside, beside_eq_xor, Nat.shiftLeft_eq,
    Nat.shiftRight_eq_div_pow]

end Span

namespace Merkle

/-- The hash one level up, from the hash `own` and the one beside it: `own` stands to the left
where the bit of the index is zero at this level, and else to the right. -/
def joinAt (hash : HashFunction) (index : Nat) (own : Digest) : Digest × Nat → Digest
  | (sibling, level) =>
    if index.testBit level then hash.node sibling own else hash.node own sibling

/-- The hash that the bits of an index lead to from `own`, with these hashes beside the path. -/
def foldBits (hash : HashFunction) (index : Nat) (own : Digest) (hashes : List Digest) : Digest :=
  hashes.zipIdx.foldl (joinAt hash index) own

theorem combine_eq_joinAt {hash : HashFunction} {i j : Nat} (hb : InRange j (i / 2 ^ j))
    (own sibling : Digest) :
    (block j (i / 2 ^ j)).combine hash own sibling = joinAt hash i own (sibling, j) := by
  rw [combine, isLeftChild_eq_not_testBit hb, joinAt]
  cases i.testBit j <;> rfl

variable {hash : HashFunction} {size : UInt64} {i : Nat}

/-- The hashes fold along the blocks around a leaf as they do along the bits of its number. -/
theorem fold_blocksAbove (hsize : size.toNat ≤ 2 ^ 63) (hi : i < size.toNat) {h k : Nat}
    (hk : h + k = depth size.toNat) (own : Digest) {hashes : List Digest}
    (hlength : hashes.length = k) :
    fold hash (blocksAbove h k i) own hashes =
      (hashes.zipIdx h).foldl (joinAt hash i) own := by
  induction hashes generalizing h k own with
  | nil =>
      obtain rfl : k = 0 := hlength.symm
      rfl
  | cons sibling rest ih =>
      obtain rfl : k = rest.length + 1 := hlength.symm
      rw [blocksAbove_succ, fold_cons, List.zipIdx_cons, List.foldl_cons,
        combine_eq_joinAt (inRange_of_le_depth hsize hi (by omega)), ih (by omega) _ rfl]

/-- Whether zero belongs beside the path, level by level. -/
theorem padding_blocksAbove (hsize : size.toNat ≤ 2 ^ 63) (hi : i < size.toNat) :
    padding size (blocksAbove 0 (depth size.toNat) i) =
      (List.range (depth size.toNat)).map fun j =>
        decide (size.toNat ≤ ((i >>> j) ^^^ 1) <<< j) := by
  rw [padding, blocksAbove, List.map_map, ← List.range_eq_range']
  refine List.map_congr_left fun j hj => ?_
  have hrange := inRange_parent hsize hi (List.mem_range.1 hj)
  rw [Function.comp_apply, decide_eq_decide, UInt64.le_iff_toNat_le, toNat_left_sibling hrange]

/-- The zeros stand where the size wants them if there is one hash for each level below the root,
and it is zero just where the block beside starts at or past the end of the log. -/
theorem zeros_eq_padding_iff (hsize : size.toNat ≤ 2 ^ 63) (hi : i < size.toNat)
    {hashes : List Digest} :
    zeros hashes = padding size (blocksAbove 0 (depth size.toNat) i) ↔
      hashes.length = depth size.toNat ∧ ∀ j : Fin hashes.length,
        hashes[j] = Digest.zero ↔ size.toNat ≤ ((i >>> j.val) ^^^ 1) <<< j.val := by
  rw [padding_blocksAbove hsize hi, zeros, List.ext_getElem_iff]
  simp only [List.length_map, List.length_range, List.getElem_map, List.getElem_range,
    decide_eq_decide, Fin.forall_iff]
  refine and_congr_right fun hcount => forall₂_congr fun j hj => ?_
  exact forall_prop_of_true (hcount ▸ hj)

end Merkle

/-- The hashes of a proof are accepted exactly if its index is below its size, which is one that
spans can address, its leaf has a byte form, there are as many hashes as the least power of two
that covers the size has levels, the hash at a level is zero just where the block beside the
path starts at or past the end of the log, and the bits of the index fold them to the root. -/
theorem InclusionProof.verifyHashes_iff_bits (hash : HashFunction) (p : InclusionProof) :
    p.verifyHashes hash = true ↔
      p.index < p.head.size ∧ p.head.size.toNat ≤ 2 ^ 63 ∧
      ∃ bytes, p.leaf.encode = .ok bytes ∧
        IsLeast {k | p.head.size.toNat ≤ 2 ^ k} p.hashes.length ∧
        (∀ j : Fin p.hashes.length, p.hashes[j] = Digest.zero ↔
          p.head.size.toNat ≤ ((p.index.toNat >>> j.val) ^^^ 1) <<< j.val) ∧
        Merkle.foldBits hash p.index.toNat (hash bytes) p.hashes = p.head.root := by
  have hcount : p.hashes.length = depth p.head.size.toNat ↔
      IsLeast {k | p.head.size.toNat ≤ 2 ^ k} p.hashes.length :=
    ⟨fun heq => heq ▸ isLeast_depth _, fun hleast => hleast.unique (isLeast_depth _)⟩
  rw [verifyHashes_iff_padding, and_left_comm]
  refine and_congr_right fun hindex => and_congr_right fun hsize => ?_
  refine exists_congr fun bytes => and_congr_right fun _ => ?_
  have hi := UInt64.lt_iff_toNat_lt.1 hindex
  rw [path_eq hsize hindex, Merkle.zeros_eq_padding_iff hsize hi, hcount, and_assoc]
  refine and_congr_right fun hleast => and_congr_right fun _ => ?_
  rw [Merkle.fold_blocksAbove hsize hi (Nat.zero_add _) _ (hcount.2 hleast), Merkle.foldBits]

end OwnershipLog
