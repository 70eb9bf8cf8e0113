import Mathlib.Logic.Function.Iterate
import Mathlib.Order.Interval.Finset.Nat
import OwnershipLog.Proofs.Merkle.Bits
import OwnershipLog.Proofs.Merkle.Checked

/-!
# The geometry of the walk to the root

Going from parent to parent, a leaf of the log reaches the root after as many steps as the least
power of two that covers the log has levels. After `j` steps the walk is at the block of `2 ^ j`
leaves around the leaf (`iterate_parent_leaf`), and its sibling is the other half of the block
around both (`isOtherHalf_block`). So each step up puts the two halves in place of one block, and
the leaf together with the siblings of its path divides up the root
(`tiles_blocksAbove`).
-/

namespace OwnershipLog

namespace Span

/-- The leaves that the span has room for. -/
def leaves (s : Span) : Finset Nat := Finset.Ico s.left.toNat s.right.toNat

/-- No two of the spans have a leaf in common, and the leaves of the whole are those of the parts. -/
structure Tiles (parts : List Span) (whole : Span) : Prop where
  disjoint : parts.Pairwise fun s t => Disjoint s.leaves t.leaves
  cover : ∀ i, i ∈ whole.leaves ↔ ∃ s ∈ parts, i ∈ s.leaves

/-- The span is the node around leaf `i` that is `2 ^ h` leaves wide. -/
structure IsAround (h i : Nat) (s : Span) : Prop where
  node : s.IsNode
  width_eq : s.width.toNat = 2 ^ h
  mem : i ∈ s.leaves
  left_eq : s.left.toNat = (i >>> h) <<< h
  right_eq : s.right.toNat = ((i >>> h) + 1) <<< h

/-- The span `t` is the half of a node of which `s` is the other half. -/
structure IsOtherHalf (s t : Span) : Prop where
  node : t.IsNode
  adjacent : t.right = s.left ∨ t.left = s.right
  width_eq : t.width = s.width
  parent_eq : t.parent = s.parent
  isLeftChild_eq : t.isLeftChild = !s.isLeftChild
  sibling_eq : t.sibling = s

/-! ## Blocks and their leaves -/

section

variable {h b i : Nat}

/-- A block holds the leaves whose number, cut short, is that of the block. -/
theorem mem_leaves_block (hb : InRange h b) : i ∈ (block h b).leaves ↔ i / 2 ^ h = b := by
  rw [leaves, toNat_left_block hb, toNat_right_block hb, Finset.mem_Ico,
    Nat.div_eq_iff (Nat.two_pow_pos h)]
  have hpos : 0 < 2 ^ h := Nat.two_pow_pos h
  rw [Nat.add_mul, Nat.one_mul]
  omega

theorem isAround_block (hrange : InRange h (i / 2 ^ h)) : IsAround h i (block h (i / 2 ^ h)) where
  node := isNode_block hrange
  width_eq := toNat_width_block hrange
  mem := (mem_leaves_block hrange).2 rfl
  left_eq := by rw [toNat_left_block hrange, Nat.shiftLeft_eq, Nat.shiftRight_eq_div_pow]
  right_eq := by rw [toNat_right_block hrange, Nat.shiftLeft_eq, Nat.shiftRight_eq_div_pow]

/-- The block beside a block below the root stands to it as the other half of their parent. -/
theorem isOtherHalf_block (hb : InRange (h + 1) (b / 2)) :
    IsOtherHalf (block h b) (block h (beside b)) where
  node := isNode_block hb.beside
  adjacent := by
    unfold beside
    split
    · exact Or.inr rfl
    · left
      rw [block, block, Nat.sub_add_cancel (by omega)]
  width_eq := by rw [width_block hb.beside, width_block hb.of_parent]
  parent_eq := by
    have hbeside : InRange (h + 1) (beside b / 2) := by rwa [beside_div_two]
    rw [parent_block hbeside, parent_block hb, beside_div_two]
  isLeftChild_eq := isLeftChild_beside hb
  sibling_eq := by
    have hbeside : InRange (h + 1) (beside b / 2) := by rwa [beside_div_two]
    rw [sibling_block hbeside, beside_beside]

theorem mem_leaves_parent_iff (hb : InRange (h + 1) (b / 2)) :
    i ∈ (block (h + 1) (b / 2)).leaves ↔
      i ∈ (block h b).leaves ∨ i ∈ (block h (beside b)).leaves := by
  rw [mem_leaves_block hb, mem_leaves_block hb.of_parent, mem_leaves_block hb.beside,
    div_two_pow_succ]
  constructor
  · exact eq_or_eq_beside
  · rintro (hown | hbeside)
    · rw [hown]
    · rw [hbeside, beside_div_two]

theorem disjoint_leaves_beside (hb : InRange (h + 1) (b / 2)) :
    Disjoint (block h b).leaves (block h (beside b)).leaves := by
  rw [Finset.disjoint_left]
  intro i hown hbeside
  rw [mem_leaves_block hb.of_parent] at hown
  rw [mem_leaves_block hb.beside] at hbeside
  exact beside_ne b (hbeside.symm.trans hown)

end

/-! ## Tilings -/

theorem tiles_self (s : Span) : Tiles [s] s where
  disjoint := List.pairwise_singleton _ _
  cover := by simp

/-- Two halves can take the place of one of the parts. -/
theorem Tiles.halve {p s t whole : Span} {rest : List Span} (htiles : Tiles (p :: rest) whole)
    (hdisjoint : Disjoint s.leaves t.leaves)
    (hhalves : ∀ i, i ∈ p.leaves ↔ i ∈ s.leaves ∨ i ∈ t.leaves) :
    Tiles (s :: t :: rest) whole := by
  obtain ⟨hrest, hpairwise⟩ := List.pairwise_cons.1 htiles.disjoint
  have hs : s.leaves ⊆ p.leaves := fun i hi => (hhalves i).2 (Or.inl hi)
  have ht : t.leaves ⊆ p.leaves := fun i hi => (hhalves i).2 (Or.inr hi)
  constructor
  · refine List.pairwise_cons.2 ⟨?_, List.pairwise_cons.2 ⟨?_, hpairwise⟩⟩
    · rw [List.forall_mem_cons]
      exact ⟨hdisjoint, fun q hq => (hrest q hq).mono_left hs⟩
    · exact fun q hq => (hrest q hq).mono_left ht
  · intro i
    rw [htiles.cover i, List.exists_mem_cons_iff, List.exists_mem_cons_iff,
      List.exists_mem_cons_iff, hhalves i, or_assoc]

/-- A block around a leaf together with the siblings of the `k` blocks from it on divides up the
block `k` levels up. -/
theorem tiles_blocksAbove {n i h k : Nat} (hn : n ≤ 2 ^ 63) (hi : i < n) (hk : h + k ≤ depth n) :
    Tiles (block h (i / 2 ^ h) :: (blocksAbove h k i).map sibling)
      (block (h + k) (i / 2 ^ (h + k))) := by
  induction k generalizing h with
  | zero => exact tiles_self _
  | succ k ih =>
      -- Start one level up, and cut the block there into its halves.
      have hrange := inRange_parent hn hi (j := h) (by omega)
      have htiles := ih (h := h + 1) (by omega)
      rw [div_two_pow_succ, Nat.add_right_comm] at htiles
      rw [blocksAbove_succ, List.map_cons, sibling_block hrange]
      exact htiles.halve (disjoint_leaves_beside hrange) fun _ => mem_leaves_parent_iff hrange

/-! ## The walk -/

section

variable {index size : UInt64}

/-- The walk from a leaf of the log up to the root is at the blocks around it. -/
theorem iterate_parent_leaf (hsize : size.toNat ≤ 2 ^ 63) (hindex : index < size) {j : Nat}
    (hj : j ≤ depth size.toNat) :
    parent^[j] (leaf index) = block j (index.toNat / 2 ^ j) := by
  have hi := UInt64.lt_iff_toNat_lt.1 hindex
  induction j with
  | zero => exact leaf_eq_block_div index
  | succ j ih =>
      rw [Function.iterate_succ_apply', ih (by omega), parent_block_div hsize hi hj]

theorem isLeast_isRoot (hsize : size.toNat ≤ 2 ^ 63) (hindex : index < size) :
    IsLeast {j | (parent^[j] (leaf index)).isRoot size = true} (depth size.toNat) := by
  have hi := UInt64.lt_iff_toNat_lt.1 hindex
  constructor
  · change (parent^[_] (leaf index)).isRoot size = true
    rw [iterate_parent_leaf hsize hindex le_rfl]
    exact isRoot_of_depth hsize hi rfl
  · rintro j (hroot : (parent^[j] (leaf index)).isRoot size = true)
    by_contra hnot
    have hlt := Nat.not_le.1 hnot
    rw [iterate_parent_leaf hsize hindex hlt.le, isRoot_of_lt hsize hi hlt] at hroot
    cases hroot

/-- From any leaf of a log the walk from parent to parent stops after `k` steps, where `2 ^ k` is
the least power of two that covers the log, and stops at the root. After `j` steps it is at the node
of `2 ^ j` leaves around the leaf. The sibling of every node before the root is the other half of
the node above, and the leaf together with all these siblings divides up the root. -/
theorem walk_divides_root (hsize : size.toNat ≤ 2 ^ 63) (hindex : index < size) :
    ∃ k, IsLeast {k | size.toNat ≤ 2 ^ k} k ∧
      IsLeast {j | (parent^[j] (leaf index)).isRoot size = true} k ∧
      parent^[k] (leaf index) = rootFor size ∧ pathEnd index size = rootFor size ∧
      path index size = (List.range k).map (fun j => parent^[j] (leaf index)) ∧
      (∀ j ≤ k, IsAround j index.toNat (parent^[j] (leaf index))) ∧
      (∀ j < k, IsOtherHalf (parent^[j] (leaf index)) (parent^[j] (leaf index)).sibling) ∧
      Tiles (leaf index :: (path index size).map sibling) (rootFor size) := by
  have hi := UInt64.lt_iff_toNat_lt.1 hindex
  have hroot : index.toNat / 2 ^ depth size.toNat = 0 :=
    Nat.div_eq_of_lt (hi.trans_le (le_two_pow_depth _))
  refine ⟨depth size.toNat, isLeast_depth _, isLeast_isRoot hsize hindex, ?_,
    pathEnd_eq hsize hindex, ?_, fun j hj => ?_, fun j hj => ?_, ?_⟩
  · rw [iterate_parent_leaf hsize hindex le_rfl, hroot, rootFor_eq_block hsize]
  · rw [path_eq hsize hindex, blocksAbove, ← List.range_eq_range']
    refine List.map_congr_left fun j hj => ?_
    rw [iterate_parent_leaf hsize hindex (List.mem_range.1 hj).le]
  · rw [iterate_parent_leaf hsize hindex hj]
    exact isAround_block (inRange_of_le_depth hsize hi hj)
  · have hrange := inRange_parent hsize hi hj
    rw [iterate_parent_leaf hsize hindex hj.le, sibling_block hrange]
    exact isOtherHalf_block hrange
  · have htiles := tiles_blocksAbove (h := 0) (k := depth size.toNat) hsize hi (Nat.zero_add _).le
    rw [Nat.zero_add, hroot, ← rootFor_eq_block hsize, ← leaf_eq_block_div] at htiles
    rwa [path_eq hsize hindex]

/-- The last of five leaves, in a root with room for eight. -/
theorem walk_divides_root_lastOfFive :
    (5 : UInt64).toNat ≤ 2 ^ 63 ∧ (4 : UInt64) < 5 ∧
    IsLeast {j | (parent^[j] (leaf 4)).isRoot 5 = true} 3 ∧
    Tiles [⟨4, 5⟩, ⟨5, 6⟩, ⟨6, 8⟩, ⟨0, 4⟩] ⟨0, 8⟩ := by
  have hsize : (5 : UInt64).toNat ≤ 2 ^ 63 := by decide
  have hindex : (4 : UInt64) < 5 := by decide
  obtain ⟨k, hk, hstop, -, -, -, -, -, htiles⟩ := walk_divides_root hsize hindex
  have hthree : IsLeast {k | (5 : UInt64).toNat ≤ 2 ^ k} 3 := isLeast_depth _
  obtain rfl : k = 3 := hk.unique hthree
  exact ⟨hsize, hindex, hstop, htiles⟩

end

end Span

end OwnershipLog
