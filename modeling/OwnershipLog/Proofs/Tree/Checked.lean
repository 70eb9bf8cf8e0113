import OwnershipLog.Proofs.Merkle.Checked
import OwnershipLog.Tree

/-!
# Appends and proofs that stay in the words

Appending a leaf and building a proof walk from a leaf to the root as checking a proof does, with
look-ups and writes on the way. `Checked.appendWalk` and `Checked.proofWalk` are these walks
with every sum, difference and span checked; they also end without a result if the root is not
reached in `Span.maxHeight` steps. As programs over the store they are the walks of the tree
(`Checked.walks_stay_in_words`): nothing the store answers can make them overflow.
-/

namespace OwnershipLog

open OwnershipLog.Span

instance {Write ε : Type} : LawfulMonad (Transaction Write ε) :=
  LawfulMonad.mk' _ Transaction.bind_done (fun _ _ => rfl) Transaction.bind_assoc

namespace Checked

variable {m : Type → Type} [Monad m]

/-- What a look beside the path computes: the width of a span that holds leaves, which tells a leaf
from an inner node. -/
def look (size : UInt64) (beside : Span) : OptionT m Unit :=
  if size ≤ beside.left then pure () else discard (width beside)

/-- The walk that files the hash of every span above `s`, from its hash `own`. At the root its
width is reported. -/
def appendWalk (hash : HashFunction) (size : UInt64) :
    (n : Nat) → Span → (own : Digest) → OptionT (Update LogError) Unit
  | 0, _, _ => failure
  | n + 1, s, own =>
    if s.isRoot size then discard (width s)
    else do
      let beside ← sibling s
      look size beside
      let digest ← OptionT.lift (Tree.siblingHash hash size beside).toUpdate
      let own ← combine hash s own digest
      let above ← parent s
      OptionT.lift (Layout.putNode above own)
      appendWalk hash size n above own

/-- The walk of an append at an index, when the leaf with the hash `own` has been filed. -/
def append (hash : HashFunction) (index : UInt64) (own : Digest) :
    OptionT (Update LogError) Unit := do
  let size ← add index 1
  let start ← leaf index
  appendWalk hash size maxHeight start own

/-- The walk that collects the hashes beside the path from `s` up. -/
def proofWalk (hash : HashFunction) (size : UInt64) :
    (n : Nat) → Span → OptionT (Query LogError) (List Digest)
  | 0, _ => failure
  | n + 1, s =>
    if s.isRoot size then pure []
    else do
      let beside ← sibling s
      look size beside
      let digest ← OptionT.lift (Tree.siblingHash hash size beside)
      let above ← parent s
      let rest ← proofWalk hash size n above
      return digest :: rest

/-- The walk of a proof for the leaf at an index. -/
def proof (hash : HashFunction) (index size : UInt64) : OptionT (Query LogError) (List Digest) := do
  let start ← leaf index
  proofWalk hash size maxHeight start

theorem discard_width_eq [LawfulMonad m] {h b : Nat} (hb : InRange h b) :
    discard (width (block h b)) = (pure () : OptionT m Unit) := by
  show (fun _ => ()) <$> (width (block h b) : OptionT m UInt64) = _
  rw [width_eq hb, map_pure]

theorem look_eq [LawfulMonad m] {size : UInt64} {h b : Nat} (hb : InRange h b) :
    look size (block h b) = (pure () : OptionT m Unit) := by
  rw [look]
  split
  · rfl
  · exact discard_width_eq hb

variable {hash : HashFunction} {size : UInt64} {i h k n : Nat}

theorem appendWalk_eq (hsize : size.toNat ≤ 2 ^ 63) (hi : i < size.toNat)
    (hk : h + k = depth size.toNat) (hn : k < n) (own : Digest) :
    appendWalk hash size n (block h (i / 2 ^ h)) own =
      OptionT.lift (Tree.raise hash size (blocksAbove h k i) own) := by
  induction k generalizing h n own with
  | zero =>
      obtain ⟨n, rfl⟩ : ∃ j, n = j + 1 := ⟨n - 1, by omega⟩
      rw [Nat.add_zero] at hk
      rw [appendWalk, isRoot_of_depth hsize hi hk, if_pos rfl,
        discard_width_eq (inRange_of_le_depth hsize hi hk.le)]
      rfl
  | succ k ih =>
      obtain ⟨n, rfl⟩ : ∃ j, n = j + 1 := ⟨n - 1, by omega⟩
      have hbelow : h < depth size.toNat := by omega
      have hrange := inRange_parent hsize hi hbelow
      rw [appendWalk, isRoot_of_lt hsize hi hbelow, if_neg Bool.false_ne_true, sibling_eq hrange,
        pure_bind, sibling_block hrange, look_eq hrange.beside, pure_bind, blocksAbove_succ,
        Tree.raise, OptionT.lift_bind, sibling_block hrange]
      refine bind_congr fun digest => ?_
      rw [combine_eq hash hrange.of_parent, pure_bind, parent_eq hrange, pure_bind,
        OptionT.lift_bind, parent_block hrange, ← div_two_pow_succ]
      exact bind_congr fun _ => ih (by omega) (by omega) _

theorem proofWalk_eq (hsize : size.toNat ≤ 2 ^ 63) (hi : i < size.toNat)
    (hk : h + k = depth size.toNat) (hn : k < n) :
    proofWalk hash size n (block h (i / 2 ^ h)) =
      OptionT.lift (Tree.siblingHashes hash size (blocksAbove h k i)) := by
  induction k generalizing h n with
  | zero =>
      obtain ⟨n, rfl⟩ : ∃ j, n = j + 1 := ⟨n - 1, by omega⟩
      rw [Nat.add_zero] at hk
      rw [proofWalk, isRoot_of_depth hsize hi hk, if_pos rfl]
      rfl
  | succ k ih =>
      obtain ⟨n, rfl⟩ : ∃ j, n = j + 1 := ⟨n - 1, by omega⟩
      have hbelow : h < depth size.toNat := by omega
      have hrange := inRange_parent hsize hi hbelow
      rw [proofWalk, isRoot_of_lt hsize hi hbelow, if_neg Bool.false_ne_true, sibling_eq hrange,
        pure_bind, sibling_block hrange, look_eq hrange.beside, pure_bind, blocksAbove_succ,
        Tree.siblingHashes, OptionT.lift_bind, sibling_block hrange]
      refine bind_congr fun digest => ?_
      rw [parent_eq hrange, pure_bind, parent_block hrange, ← div_two_pow_succ,
        ih (by omega) (by omega), OptionT.lift_bind]
      rfl

theorem append_eq (hash : HashFunction) {index : UInt64} (h : index.toNat < 2 ^ 63)
    (own : Digest) : append hash index own =
      OptionT.lift (Tree.raise hash (index + 1) (path index (index + 1)) own) := by
  have hsum : index.toNat + (1 : UInt64).toNat < 2 ^ 64 := Nat.succ_lt_succ (h.trans (by decide))
  have hsize : (index + 1).toNat ≤ 2 ^ 63 := by
    rw [toNat_add_one h]
    exact h
  have hindex := lt_add_one h
  rw [append, add_eq hsum, pure_bind, leaf_eq h, pure_bind, leaf_eq_block_div,
    path_eq hsize hindex]
  exact appendWalk_eq hsize (UInt64.lt_iff_toNat_lt.1 hindex) (Nat.zero_add _)
    (Nat.lt_succ_of_le (depth_le hsize)) own

theorem proof_eq (hash : HashFunction) {index size : UInt64} (hindex : index < size)
    (hsize : size.toNat ≤ 2 ^ 63) : proof hash index size =
      OptionT.lift (Tree.siblingHashes hash size (path index size)) := by
  have hi := UInt64.lt_iff_toNat_lt.1 hindex
  rw [proof, leaf_eq (Nat.lt_of_lt_of_le hi hsize), pure_bind, leaf_eq_block_div,
    path_eq hsize hindex]
  exact proofWalk_eq hsize hi (Nat.zero_add _) (Nat.lt_succ_of_le (depth_le hsize))

/-- Every sum and every difference that checking a proof, appending a leaf or building a proof
computes on its walk is a word, and every span it forms is a node: with each of them checked, the
walks have the results they have without, for any proof whatever, and, whatever the store
answers, for any leaf of a log with up to `2 ^ 63` leaves. -/
theorem walks_stay_in_words (hash : HashFunction) :
    (∀ p : InclusionProof,
      (verifyHashes hash p : OptionT Id Bool).run = some (p.verifyHashes hash)) ∧
    (∀ (index : UInt64) (own : Digest), index.toNat < 2 ^ 63 →
      (append hash index own).run =
        some <$> Tree.raise hash (index + 1) (path index (index + 1)) own) ∧
    ∀ index size : UInt64, index < size → size.toNat ≤ 2 ^ 63 →
      (proof hash index size).run =
        some <$> Tree.siblingHashes hash size (path index size) := by
  refine ⟨fun p => ?_, fun index own h => ?_, fun index size hindex hsize => ?_⟩
  · rw [verifyHashes_eq]
    rfl
  · rw [append_eq hash h, OptionT.run_lift]
    rfl
  · rw [proof_eq hash hindex hsize, OptionT.run_lift]
    rfl

/-- The last leaf of the largest log. -/
theorem walks_stay_in_words_largest :
    (9223372036854775807 : UInt64).toNat < 2 ^ 63 ∧ 9223372036854775807 < maxLeaves ∧
    maxLeaves.toNat ≤ 2 ^ 63 ∧
    (append (fun _ => Digest.zero) 9223372036854775807 Digest.zero).run =
      some <$> Tree.raise (fun _ => Digest.zero) (9223372036854775807 + 1)
        (path 9223372036854775807 (9223372036854775807 + 1)) Digest.zero ∧
    (proof (fun _ => Digest.zero) 9223372036854775807 maxLeaves).run =
      some <$> Tree.siblingHashes (fun _ => Digest.zero) maxLeaves
        (path 9223372036854775807 maxLeaves) := by
  have hindex : (9223372036854775807 : UInt64).toNat < 2 ^ 63 := by decide
  have hlast : 9223372036854775807 < maxLeaves := by decide
  have hsize : maxLeaves.toNat ≤ 2 ^ 63 := by decide
  obtain ⟨-, happend, hproof⟩ := walks_stay_in_words fun _ => Digest.zero
  exact ⟨hindex, hlast, hsize, happend _ _ hindex, hproof _ _ hlast hsize⟩

end Checked

end OwnershipLog
