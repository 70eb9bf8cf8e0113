import Mathlib.Data.Nat.Bitwise
import Mathlib.Data.Nat.Log
import Mathlib.Tactic.Ring
import OwnershipLog.Bytes
import OwnershipLog.Merkle.Span

/-!
# Blocks

`Span.block h b` is the span of the `b`-th block of `2 ^ h` leaves. Every span a
path meets is such a block, and in this form the walk is arithmetic on numbers:
the parent of block `b` is block `b / 2` one level up, its sibling is the other
block with that parent, and the root of a log with `n` leaves is block zero at
the height `Span.depth n`, the least height with room for them. The path from a
leaf is written out in `path_eq`.

A block is in range when its right end is at most `2 ^ 63`; the words of a span
then hold its ends exactly.
-/

namespace OwnershipLog

theorem toNat_ofNat_of_le {n : Nat} (h : n ≤ 2 ^ 63) : (UInt64.ofNat n).toNat = n := by
  rw [UInt64.toNat_ofNat']
  exact Nat.mod_eq_of_lt (by omega)

namespace Span

/-- The span of the `b`-th block of `2 ^ h` leaves. -/
def block (h b : Nat) : Span := ⟨UInt64.ofNat (b * 2 ^ h), UInt64.ofNat ((b + 1) * 2 ^ h)⟩

/-- The block lies within the leaves that spans can address. -/
def InRange (h b : Nat) : Prop := (b + 1) * 2 ^ h ≤ 2 ^ 63

/-- The block beside block `b`: the other one with the same parent. -/
def beside (b : Nat) : Nat := if b % 2 = 0 then b + 1 else b - 1

/-- The least height of a block from zero with room for `n` leaves. -/
def depth (n : Nat) : Nat := Nat.clog 2 n

/-- The blocks around leaf `i` from height `h` on, `k` of them. -/
def blocksAbove (h k i : Nat) : List Span := (List.range' h k).map fun j => block j (i / 2 ^ j)

theorem beside_div_two (b : Nat) : beside b / 2 = b / 2 := by
  unfold beside
  split <;> omega

theorem beside_beside (b : Nat) : beside (beside b) = b := by
  unfold beside
  split <;> split <;> omega

theorem beside_ne (b : Nat) : beside b ≠ b := by
  unfold beside
  split <;> omega

/-- Halving the block number is the step to the parent: both halves are in range with it. -/
theorem InRange.of_parent {h b : Nat} (hb : InRange (h + 1) (b / 2)) : InRange h b := by
  unfold InRange at *
  have hle : (b + 1) * 2 ^ h ≤ (b / 2 + 1) * 2 * 2 ^ h :=
    Nat.mul_le_mul_right _ (by omega)
  calc (b + 1) * 2 ^ h ≤ (b / 2 + 1) * 2 * 2 ^ h := hle
    _ = (b / 2 + 1) * 2 ^ (h + 1) := by rw [pow_succ, mul_assoc, mul_comm 2]
    _ ≤ 2 ^ 63 := hb

theorem InRange.beside {h b : Nat} (hb : InRange (h + 1) (b / 2)) : InRange h (beside b) :=
  InRange.of_parent (by rwa [beside_div_two])

theorem InRange.left_lt {h b : Nat} (hb : InRange h b) : b * 2 ^ h < 2 ^ 63 := by
  unfold InRange at hb
  have hpos : 0 < 2 ^ h := Nat.two_pow_pos _
  rw [Nat.add_mul, Nat.one_mul] at hb
  omega

theorem InRange.pow_le {h b : Nat} (hb : InRange h b) : 2 ^ h ≤ 2 ^ 63 :=
  le_trans (Nat.le_mul_of_pos_left _ (Nat.succ_pos b)) hb

theorem toNat_left_block {h b : Nat} (hb : InRange h b) :
    (block h b).left.toNat = b * 2 ^ h := by
  have hlt := hb.left_lt
  simp only [block, UInt64.toNat_ofNat']
  exact Nat.mod_eq_of_lt (by omega)

theorem toNat_right_block {h b : Nat} (hb : InRange h b) :
    (block h b).right.toNat = (b + 1) * 2 ^ h := by
  unfold InRange at hb
  simp only [block, UInt64.toNat_ofNat']
  exact Nat.mod_eq_of_lt (by omega)

theorem toNat_width_block {h b : Nat} (hb : InRange h b) :
    (block h b).width.toNat = 2 ^ h := by
  have hle : (block h b).left ≤ (block h b).right := by
    rw [UInt64.le_iff_toNat_le, toNat_left_block hb, toNat_right_block hb, Nat.add_mul]
    exact Nat.le_add_right _ _
  rw [width, UInt64.toNat_sub_of_le _ _ hle, toNat_left_block hb, toNat_right_block hb,
    Nat.add_mul, Nat.one_mul, Nat.add_sub_cancel_left]

theorem width_block {h b : Nat} (hb : InRange h b) :
    (block h b).width = UInt64.ofNat (2 ^ h) := by
  apply UInt64.toNat_inj.1
  have hle := hb.pow_le
  rw [toNat_width_block hb, UInt64.toNat_ofNat']
  exact (Nat.mod_eq_of_lt (by omega)).symm

/-- Blocks in range are told apart by their ends. -/
theorem block_inj {h b h' b' : Nat} (hb : InRange h b) (hb' : InRange h' b') :
    block h b = block h' b' ↔ h = h' ∧ b = b' := by
  constructor
  · intro heq
    have hwidth : 2 ^ h = 2 ^ h' := by
      rw [← toNat_width_block hb, heq, toNat_width_block hb']
    obtain rfl : h = h' := Nat.pow_right_injective le_rfl hwidth
    have hleft : b * 2 ^ h = b' * 2 ^ h := by
      rw [← toNat_left_block hb, heq, toNat_left_block hb']
    exact ⟨rfl, Nat.eq_of_mul_eq_mul_right (Nat.two_pow_pos _) hleft⟩
  · rintro ⟨rfl, rfl⟩
    rfl

theorem leaf_eq_block (index : UInt64) : leaf index = block 0 index.toNat := by
  simp [leaf, block]

/-- The span of a leaf as the lowest of the blocks around it. -/
theorem leaf_eq_block_div (index : UInt64) : leaf index = block 0 (index.toNat / 2 ^ 0) := by
  rw [leaf_eq_block, pow_zero, Nat.div_one]

theorem isLeaf_block {h b : Nat} (hb : InRange h b) : (block h b).isLeaf = decide (h = 0) := by
  have hone : (block h b).width = 1 ↔ h = 0 := by
    rw [← UInt64.toNat_inj, toNat_width_block hb]
    simp
  rw [isLeaf, Bool.eq_iff_iff]
  simpa using hone

/-- The bit under the width tells left from right: it is the parity of the block number. -/
theorem isLeftChild_block {h b : Nat} (hb : InRange h b) :
    (block h b).isLeftChild = decide (b % 2 = 0) := by
  have hbit : (b * 2 ^ h).testBit h = decide (b % 2 = 1) := by
    rw [Nat.testBit_eq_decide_div_mod_eq, Nat.mul_div_cancel _ (Nat.two_pow_pos _)]
  have hzero : (block h b).left &&& (block h b).width = 0 ↔ b % 2 = 0 := by
    rw [← UInt64.toNat_inj, UInt64.toNat_and, toNat_left_block hb, toNat_width_block hb,
      Nat.and_two_pow, hbit]
    rcases Nat.mod_two_eq_zero_or_one b with hmod | hmod
    · simp [hmod]
    · simp [hmod]
  rw [isLeftChild, Bool.eq_iff_iff]
  simpa using hzero

theorem parent_block {h b : Nat} (hb : InRange (h + 1) (b / 2)) :
    (block h b).parent = block (h + 1) (b / 2) := by
  rw [parent, isLeftChild_block hb.of_parent, width_block hb.of_parent]
  have hpow : 2 ^ (h + 1) = 2 * 2 ^ h := by rw [pow_succ, mul_comm]
  rcases Nat.even_or_odd' b with ⟨c, rfl | rfl⟩
  · have hdiv : 2 * c / 2 = c := by omega
    rw [if_pos (by simp)]
    simp only [block, hdiv, hpow, ← UInt64.ofNat_add]
    congr 2 <;> ring
  · have hdiv : (2 * c + 1) / 2 = c := by omega
    have hleft : UInt64.ofNat ((2 * c + 1) * 2 ^ h) - UInt64.ofNat (2 ^ h) =
        UInt64.ofNat (c * 2 ^ (h + 1)) := by
      rw [UInt64.sub_eq_iff_eq_add, ← UInt64.ofNat_add, hpow]
      congr 1
      ring
    rw [if_neg (by simp)]
    simp only [block, hdiv, hleft]
    congr 2
    rw [hpow]
    ring

theorem sibling_block {h b : Nat} (hb : InRange (h + 1) (b / 2)) :
    (block h b).sibling = block h (beside b) := by
  rw [sibling, isLeftChild_block hb.of_parent, width_block hb.of_parent]
  rcases Nat.even_or_odd' b with ⟨c, rfl | rfl⟩
  · have hbeside : beside (2 * c) = 2 * c + 1 := by simp [beside]
    rw [if_pos (by simp), hbeside]
    simp only [block, ← UInt64.ofNat_add]
    congr 2
    ring
  · have hbeside : beside (2 * c + 1) = 2 * c := by simp [beside]
    have hleft : UInt64.ofNat ((2 * c + 1) * 2 ^ h) - UInt64.ofNat (2 ^ h) =
        UInt64.ofNat (2 * c * 2 ^ h) := by
      rw [UInt64.sub_eq_iff_eq_add, ← UInt64.ofNat_add]
      congr 1
      ring
    rw [if_neg (by simp), hbeside]
    simp only [block, hleft]

/-- Of two halves one is the left. -/
theorem isLeftChild_beside {h b : Nat} (hb : InRange (h + 1) (b / 2)) :
    (block h (beside b)).isLeftChild = !(block h b).isLeftChild := by
  rw [isLeftChild_block hb.beside, isLeftChild_block hb.of_parent]
  rcases Nat.mod_two_eq_zero_or_one b with hmod | hmod
  · have hodd : beside b % 2 = 1 := by unfold beside; split <;> omega
    rw [hmod, hodd]
    rfl
  · have heven : beside b % 2 = 0 := by unfold beside; split <;> omega
    rw [hmod, heven]
    rfl

theorem isRoot_block {h b : Nat} (hb : InRange h b) (size : UInt64) :
    (block h b).isRoot size = decide (b = 0 ∧ size.toNat ≤ 2 ^ h) := by
  have hleft : (block h b).left = 0 ↔ b = 0 := by
    rw [← UInt64.toNat_inj, toNat_left_block hb]
    simp
  have hright : size ≤ (block h b).right ↔ size.toNat ≤ (b + 1) * 2 ^ h := by
    rw [UInt64.le_iff_toNat_le, toNat_right_block hb]
  rw [isRoot, Bool.eq_iff_iff]
  simp only [Bool.and_eq_true, beq_iff_eq, decide_eq_true_eq, hleft, hright]
  constructor
  · rintro ⟨rfl, hle⟩
    exact ⟨rfl, by simpa using hle⟩
  · rintro ⟨rfl, hle⟩
    exact ⟨rfl, by simpa using hle⟩

/-! ## The height of the root -/

theorem depth_le {n k : Nat} (h : n ≤ 2 ^ k) : depth n ≤ k := Nat.clog_le_of_le_pow h

theorem depth_le_iff {n k : Nat} : depth n ≤ k ↔ n ≤ 2 ^ k := Nat.clog_le_iff_le_pow Nat.one_lt_two

theorem le_two_pow_depth (n : Nat) : n ≤ 2 ^ depth n := Nat.le_pow_clog Nat.one_lt_two n

theorem depth_mono {n m : Nat} (h : n ≤ m) : depth n ≤ depth m := Nat.clog_mono_right 2 h

theorem two_pow_depth_le {n : Nat} (h : n ≤ 2 ^ 63) : 2 ^ depth n ≤ 2 ^ 63 :=
  Nat.pow_le_pow_right Nat.two_pos (depth_le h)

/-- Up to the root the block around a leaf lies within it. -/
theorem block_within {n i j : Nat} (hi : i < n) (hj : j ≤ depth n) :
    (i / 2 ^ j + 1) * 2 ^ j ≤ 2 ^ depth n := by
  have hsplit : 2 ^ depth n = 2 ^ (depth n - j) * 2 ^ j := by
    rw [← pow_add, Nat.sub_add_cancel hj]
  rw [hsplit]
  apply Nat.mul_le_mul_right
  rw [Nat.succ_le_iff, Nat.div_lt_iff_lt_mul (Nat.two_pow_pos _), ← hsplit]
  exact lt_of_lt_of_le hi (le_two_pow_depth n)

/-- A block that lies within the root is no higher. -/
theorem le_depth_of_within {n h b : Nat} (hwithin : (b + 1) * 2 ^ h ≤ 2 ^ depth n) :
    h ≤ depth n := by
  have hpow : 2 ^ h ≤ 2 ^ depth n :=
    le_trans (Nat.le_mul_of_pos_left _ (Nat.succ_pos b)) hwithin
  exact (Nat.pow_le_pow_iff_right Nat.one_lt_two).1 hpow

theorem inRange_of_le_depth {n i j : Nat} (hn : n ≤ 2 ^ 63) (hi : i < n) (hj : j ≤ depth n) :
    InRange j (i / 2 ^ j) := le_trans (block_within hi hj) (two_pow_depth_le hn)

/-- The step up from height `j` in terms of the leaf below. -/
theorem div_two_pow_succ (i j : Nat) : i / 2 ^ (j + 1) = i / 2 ^ j / 2 := by
  rw [pow_succ, Nat.div_div_eq_div_mul]

theorem inRange_parent {n i j : Nat} (hn : n ≤ 2 ^ 63) (hi : i < n) (hj : j < depth n) :
    InRange (j + 1) (i / 2 ^ j / 2) := by
  rw [← div_two_pow_succ]
  exact inRange_of_le_depth hn hi hj

/-- Below the root the parent of the block around a leaf is the block around it one level up. -/
theorem parent_block_div {n i j : Nat} (hn : n ≤ 2 ^ 63) (hi : i < n) (hj : j < depth n) :
    (block j (i / 2 ^ j)).parent = block (j + 1) (i / 2 ^ (j + 1)) := by
  rw [parent_block (inRange_parent hn hi hj), ← div_two_pow_succ]

theorem doubleUpTo_eq {h k size : Nat} (hsize : size ≤ 2 ^ 63) (hh : h ≤ depth size)
    (hk : depth size ≤ h + k) :
    doubleUpTo k (UInt64.ofNat (2 ^ h)) (UInt64.ofNat size) = UInt64.ofNat (2 ^ depth size) := by
  have hpow := two_pow_depth_le hsize
  induction k generalizing h with
  | zero =>
      obtain rfl : h = depth size := by omega
      rfl
  | succ k ih =>
      have hle : 2 ^ h ≤ 2 ^ depth size := Nat.pow_le_pow_right Nat.two_pos hh
      have hlt : UInt64.ofNat (2 ^ h) < UInt64.ofNat size ↔ 2 ^ h < size := by
        rw [UInt64.lt_iff_toNat_lt, UInt64.toNat_ofNat', UInt64.toNat_ofNat',
          Nat.mod_eq_of_lt (by omega), Nat.mod_eq_of_lt (by omega)]
      have hdouble : UInt64.ofNat (2 ^ h) * 2 = UInt64.ofNat (2 ^ (h + 1)) := by
        rw [pow_succ, UInt64.ofNat_mul]
        rfl
      simp only [doubleUpTo, hlt]
      split
      · rename_i hmore
        have hdepth : h + 1 ≤ depth size := Nat.not_le.1 fun hge =>
          absurd (depth_le_iff.1 hge) (Nat.not_le.2 hmore)
        rw [hdouble]
        exact ih hdepth (by omega)
      · rename_i hdone
        have hdepth : depth size ≤ h := depth_le (Nat.not_lt.1 hdone)
        rw [show h = depth size by omega]

/-- The root is block zero at the least height with room for the log. -/
theorem rootFor_eq_block {size : UInt64} (hsize : size.toNat ≤ 2 ^ 63) :
    rootFor size = block (depth size.toNat) 0 := by
  have h := doubleUpTo_eq (h := 0) (k := 63) hsize (Nat.zero_le _) (by
    rw [Nat.zero_add]
    exact depth_le hsize)
  rw [UInt64.ofNat_toNat] at h
  have hone : UInt64.ofNat (2 ^ 0) = 1 := rfl
  rw [hone] at h
  simp [rootFor, block, h]

/-- Two logs have one root span exactly when their roots are of one height. -/
theorem rootFor_eq_iff {m n : UInt64} (hm : m.toNat ≤ 2 ^ 63) (hn : n.toNat ≤ 2 ^ 63) :
    rootFor m = rootFor n ↔ depth m.toNat = depth n.toNat := by
  have hrange : ∀ {k : Nat}, k ≤ 2 ^ 63 → InRange (depth k) 0 := by
    intro k hk
    rw [InRange, Nat.zero_add, Nat.one_mul]
    exact two_pow_depth_le hk
  rw [rootFor_eq_block hm, rootFor_eq_block hn, block_inj (hrange hm) (hrange hn)]
  simp

/-! ## The path from a leaf -/

theorem toNat_add_one {index : UInt64} (h : index.toNat < 2 ^ 63) :
    (index + 1).toNat = index.toNat + 1 := by
  rw [UInt64.toNat_add]
  exact Nat.mod_eq_of_lt (Nat.succ_lt_succ (h.trans (by decide)))

theorem lt_add_one {index : UInt64} (h : index.toNat < 2 ^ 63) : index < index + 1 := by
  rw [UInt64.lt_iff_toNat_lt, toNat_add_one h]
  exact Nat.lt_succ_self _

@[simp] theorem blocksAbove_zero (h i : Nat) : blocksAbove h 0 i = [] := rfl

theorem blocksAbove_succ (h k i : Nat) :
    blocksAbove h (k + 1) i = block h (i / 2 ^ h) :: blocksAbove (h + 1) k i := by
  simp [blocksAbove, List.range'_succ]

/-- The root is the only block around a leaf of the log that covers all of it. -/
theorem isRoot_iff {size : UInt64} {i j : Nat} (hsize : size.toNat ≤ 2 ^ 63)
    (hi : i < size.toNat) (hj : j ≤ depth size.toNat) :
    (block j (i / 2 ^ j)).isRoot size = decide (j = depth size.toNat) := by
  rw [isRoot_block (inRange_of_le_depth hsize hi hj)]
  congr 1
  apply propext
  constructor
  · rintro ⟨-, hle⟩
    exact le_antisymm hj (depth_le hle)
  · rintro rfl
    exact ⟨Nat.div_eq_of_lt (lt_of_lt_of_le hi (le_two_pow_depth _)), le_two_pow_depth _⟩

theorem isRoot_of_depth {size : UInt64} {i j : Nat} (hsize : size.toNat ≤ 2 ^ 63)
    (hi : i < size.toNat) (hj : j = depth size.toNat) :
    (block j (i / 2 ^ j)).isRoot size = true := by
  rw [isRoot_iff hsize hi hj.le, decide_eq_true hj]

theorem isRoot_of_lt {size : UInt64} {i j : Nat} (hsize : size.toNat ≤ 2 ^ 63)
    (hi : i < size.toNat) (hj : j < depth size.toNat) :
    (block j (i / 2 ^ j)).isRoot size = false := by
  rw [isRoot_iff hsize hi hj.le, decide_eq_false hj.ne]

theorem pathWithin_eq {size : UInt64} {i h k n : Nat} (hsize : size.toNat ≤ 2 ^ 63)
    (hi : i < size.toNat) (hk : h + k = depth size.toNat) (hn : k ≤ n) :
    pathWithin n (block h (i / 2 ^ h)) size = blocksAbove h k i := by
  induction k generalizing h n with
  | zero =>
      rw [Nat.add_zero] at hk
      cases n with
      | zero => rfl
      | succ n => rw [pathWithin, isRoot_of_depth hsize hi hk, if_pos rfl, blocksAbove_zero]
  | succ k ih =>
      obtain ⟨n, rfl⟩ : ∃ m, n = m + 1 := ⟨n - 1, by omega⟩
      rw [pathWithin, isRoot_of_lt hsize hi (by omega), if_neg Bool.false_ne_true,
        parent_block_div hsize hi (by omega),
        ih (by omega) (by omega), blocksAbove_succ]

/-- The path from a leaf of the log: the blocks around it, one at each height below the root. -/
theorem path_eq {index size : UInt64} (hsize : size.toNat ≤ 2 ^ 63) (hindex : index < size) :
    path index size = blocksAbove 0 (depth size.toNat) index.toNat := by
  have hdepth : depth size.toNat ≤ 63 := depth_le hsize
  have hpath := pathWithin_eq (i := index.toNat) (h := 0) (n := maxHeight) hsize
    (UInt64.lt_iff_toNat_lt.1 hindex) (Nat.zero_add _) (by unfold maxHeight; omega)
  rw [path, leaf_eq_block]
  simpa using hpath

theorem map_parent_blocksAbove {n i h k : Nat} (hn : n ≤ 2 ^ 63) (hi : i < n)
    (hk : h + k ≤ depth n) : (blocksAbove h k i).map parent = blocksAbove (h + 1) k i := by
  induction k generalizing h with
  | zero => rfl
  | succ k ih =>
      rw [blocksAbove_succ, blocksAbove_succ, List.map_cons, ih (by omega),
        parent_block_div hn hi (by omega)]

/-- The path from a leaf of the log ends at its root. -/
theorem pathEnd_eq {index size : UInt64} (hsize : size.toNat ≤ 2 ^ 63) (hindex : index < size) :
    pathEnd index size = rootFor size := by
  have hlt := UInt64.lt_iff_toNat_lt.1 hindex
  have hzero : index.toNat / 2 ^ depth size.toNat = 0 :=
    Nat.div_eq_of_lt (hlt.trans_le (le_two_pow_depth _))
  rw [pathEnd, path_eq hsize hindex, map_parent_blocksAbove hsize hlt (Nat.zero_add _).le,
    rootFor_eq_block hsize]
  cases hdepth : depth size.toNat with
  | zero =>
      rw [hdepth, pow_zero, Nat.div_one] at hzero
      rw [blocksAbove_zero, leaf_eq_block, hzero]
      rfl
  | succ k =>
      rw [hdepth] at hzero
      rw [blocksAbove, List.range'_concat, List.map_append, List.map_singleton,
        List.getLastD_concat, Nat.zero_add, Nat.one_mul, Nat.add_comm, hzero]

end Span

end OwnershipLog
