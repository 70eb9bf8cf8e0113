import OwnershipLog.Proofs.Merkle.Climb

/-!
# Where the zeros stand

A walk that reaches the root says two things that have nothing to do with each other: to what
the hashes beside the path fold (`Merkle.fold`), and which of them are zero
(`Merkle.zeros`). The size of the log decides how long the path is and where zero has to stand
beside it (`Merkle.padding`), and nothing else. So a proof that is accepted under one size is
accepted under another exactly when the two sizes have one root and no span beside the path
starts between them (`InclusionProof.verifyHashes_resize_iff`).
-/

namespace OwnershipLog

open OwnershipLog.Span

namespace Merkle

/-- Which of the spans beside a path start at or past the end of a log with `size` leaves. -/
def padding (size : UInt64) (path : List Span) : List Bool :=
  path.map fun span => decide (size ≤ span.sibling.left)

/-- Which of the hashes are zero. -/
def zeros (hashes : List Digest) : List Bool :=
  hashes.map fun digest => decide (digest = Digest.zero)

/-- The hash that a path leads to from `own`, with these hashes beside it. -/
def fold (hash : HashFunction) : List Span → (own : Digest) → (hashes : List Digest) → Digest
  | span :: path, own, sibling :: rest => fold hash path (span.combine hash own sibling) rest
  | _, own, _ => own

@[simp] theorem padding_nil (size : UInt64) : padding size [] = [] := rfl

theorem padding_cons (size : UInt64) (span : Span) (path : List Span) :
    padding size (span :: path) = decide (size ≤ span.sibling.left) :: padding size path := rfl

@[simp] theorem zeros_nil : zeros [] = [] := rfl

theorem zeros_cons (digest : Digest) (rest : List Digest) :
    zeros (digest :: rest) = decide (digest = Digest.zero) :: zeros rest := rfl

@[simp] theorem length_padding (size : UInt64) (path : List Span) :
    (padding size path).length = path.length := List.length_map _

@[simp] theorem fold_nil (hash : HashFunction) (own : Digest) (hashes : List Digest) :
    fold hash [] own hashes = own := by cases hashes <;> rfl

theorem fold_cons (hash : HashFunction) (span : Span) (path : List Span) (own sibling : Digest)
    (rest : List Digest) :
    fold hash (span :: path) own (sibling :: rest) =
      fold hash path (span.combine hash own sibling) rest := rfl

/-- Two sizes want zeros at the same places unless a span beside the path starts between them. -/
theorem padding_eq_iff {m n : UInt64} {path : List Span} :
    padding m path = padding n path ↔ ∀ span ∈ path,
      ¬ (min m.toNat n.toNat ≤ span.sibling.left.toNat ∧
        span.sibling.left.toNat < max m.toNat n.toNat) := by
  rw [padding, padding, List.map_inj_left]
  refine forall₂_congr fun span _ => ?_
  rw [decide_eq_decide, UInt64.le_iff_toNat_le, UInt64.le_iff_toNat_le]
  omega

/-- A walk reaches the root with the hash of the path, if the zeros beside it stand where the size
wants them. -/
theorem climb_eq_some_iff {hash : HashFunction} {size : UInt64} {i h k : Nat} {own root : Digest}
    {hashes : List Digest} (hsize : size.toNat ≤ 2 ^ 63) (hi : i < size.toNat)
    (hk : h + k = depth size.toNat) :
    climb hash size (block h (i / 2 ^ h)) own hashes = some root ↔
      zeros hashes = padding size (blocksAbove h k i) ∧
        fold hash (blocksAbove h k i) own hashes = root := by
  induction k generalizing h own hashes with
  | zero =>
      rw [Nat.add_zero] at hk
      have hroot := isRoot_of_depth hsize hi hk
      cases hashes with
      | nil => simp [climb, hroot]
      | cons sibling rest => simp [climb, hroot, zeros_cons]
  | succ k ih =>
      have hbelow : h < depth size.toNat := by omega
      have hroot := isRoot_of_lt hsize hi hbelow
      have hparent := parent_block_div hsize hi hbelow
      rw [blocksAbove_succ, padding_cons]
      cases hashes with
      | nil => simp [climb, hroot]
      | cons sibling rest =>
          rw [climb, hroot, if_neg Bool.false_ne_true, zeros_cons, fold_cons, List.cons.injEq]
          split
          · rename_i hwrong
            simp [hwrong]
          · rename_i hright
            rw [hparent, ih (by omega), and_iff_right (not_not.1 hright)]

end Merkle

namespace Span

/-- The path from a leaf depends on the height of the root only. -/
theorem path_congr {index m n : UInt64} (hm : m.toNat ≤ 2 ^ 63) (hn : n.toNat ≤ 2 ^ 63)
    (him : index < m) (hin : index < n) (hroot : rootFor m = rootFor n) :
    path index m = path index n := by
  rw [path_eq hm him, path_eq hn hin, (rootFor_eq_iff hm hn).1 hroot]

theorem length_path {index size : UInt64} (hsize : size.toNat ≤ 2 ^ 63) (hindex : index < size) :
    (path index size).length = depth size.toNat := by
  rw [path_eq hsize hindex, blocksAbove, List.length_map, List.length_range']

end Span

namespace InclusionProof

variable {hash : HashFunction} {p : InclusionProof}

/-- What it takes for the hashes of a proof to be accepted, the two parts of the walk apart. -/
theorem verifyHashes_iff_padding :
    p.verifyHashes hash = true ↔ p.head.size.toNat ≤ 2 ^ 63 ∧ p.index < p.head.size ∧
      ∃ bytes, p.leaf.encode = .ok bytes ∧
        Merkle.zeros p.hashes = Merkle.padding p.head.size (path p.index p.head.size) ∧
        Merkle.fold hash (path p.index p.head.size) (hash bytes) p.hashes = p.head.root := by
  have hmax : p.head.size ≤ maxLeaves ↔ p.head.size.toNat ≤ 2 ^ 63 := UInt64.le_iff_toNat_le
  rw [verifyHashes_iff, hmax]
  refine and_congr_right fun hsize => and_congr_right fun hindex => ?_
  refine exists_congr fun bytes => and_congr_right fun _ => ?_
  have hlt := UInt64.lt_iff_toNat_lt.1 hindex
  rw [leaf_eq_block_div, path_eq hsize hindex]
  exact Merkle.climb_eq_some_iff hsize hlt (Nat.zero_add _)

/-- The sizes that a proof which is accepted can be moved to: those with the same root span that
leave the leaf in the log and have no span beside its path start between the old size and the new.
Under any other size it is refused, whoever signed the head. -/
theorem verifyHashes_resize_iff (h : p.verifyHashes hash = true) (m : UInt64) :
    ({ p with head := { p.head with size := m } } : InclusionProof).verifyHashes hash = true ↔
      m.toNat ≤ 2 ^ 63 ∧ p.index < m ∧ rootFor m = rootFor p.head.size ∧
        ∀ span ∈ path p.index p.head.size,
          ¬ (min m.toNat p.head.size.toNat ≤ span.sibling.left.toNat ∧
            span.sibling.left.toNat < max m.toNat p.head.size.toNat) := by
  obtain ⟨hsize, hindex, bytes, hencode, hzeros, hfold⟩ := verifyHashes_iff_padding.1 h
  rw [verifyHashes_iff_padding, ← Merkle.padding_eq_iff]
  refine and_congr_right fun hm => and_congr_right fun him => ?_
  constructor
  · rintro ⟨-, -, hzeros', -⟩
    -- The path of either size is as long as the list of hashes.
    have hlength := congrArg List.length (hzeros'.symm.trans hzeros)
    rw [Merkle.length_padding, Merkle.length_padding, length_path hm him,
      length_path hsize hindex] at hlength
    have hroot := (rootFor_eq_iff hm hsize).2 hlength
    rw [path_congr hm hsize him hindex hroot] at hzeros'
    exact ⟨hroot, hzeros'.symm.trans hzeros⟩
  · rintro ⟨hroot, hpadding⟩
    rw [path_congr hm hsize him hindex hroot]
    exact ⟨bytes, hencode, hzeros.trans hpadding.symm, hfold⟩

/-- A proof for the first of three leaves, for a hash that is the same for every string. -/
def firstOfThree : InclusionProof :=
  let leaf : Leaf := ⟨Timestamp.epoch, ⟨Digest.zero, "ada"⟩, [], [], []⟩
  ⟨⟨3, Timestamp.epoch, Octets.replicate 32 1, none⟩, 0, leaf,
    [Octets.replicate 32 2, Octets.replicate 32 3]⟩

/-- The proof is as good for four leaves as for three. For two the path is shorter, and for five
longer. -/
theorem verifyHashes_resize_firstOfThree :
    firstOfThree.verifyHashes (fun _ => Octets.replicate 32 1) = true ∧
    ({ firstOfThree with head := { firstOfThree.head with size := 4 } } :
      InclusionProof).verifyHashes (fun _ => Octets.replicate 32 1) = true ∧
    ¬ ({ firstOfThree with head := { firstOfThree.head with size := 2 } } :
      InclusionProof).verifyHashes (fun _ => Octets.replicate 32 1) = true ∧
    ¬ ({ firstOfThree with head := { firstOfThree.head with size := 5 } } :
      InclusionProof).verifyHashes (fun _ => Octets.replicate 32 1) = true := by
  have h : firstOfThree.verifyHashes (fun _ => Octets.replicate 32 1) = true := by decide +kernel
  refine ⟨h, (verifyHashes_resize_iff h 4).2 (by decide), ?_, ?_⟩
  · rw [verifyHashes_resize_iff h 2]
    decide
  · rw [verifyHashes_resize_iff h 5]
    decide

end InclusionProof

end OwnershipLog
