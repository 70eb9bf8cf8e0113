import OwnershipLog.Merkle.Inclusion
import OwnershipLog.Proofs.Merkle.Block

/-!
# Walks that stay in the words

The ends of a span are words, whose sums and differences wrap around. Here each of them is
checked as it is computed: a sum or difference that is no word ends the computation without a
result, and so does a span that is no node (`Span.IsNode`). The check of a proof is computed
once more in this way, step by step as the walk over its hashes makes them, and never ends
without a result, whatever the proof holds (`Checked.verifyHashes_eq`).

A block that is not the root has room for its parent (`Span.inRange_parent`), which is why a
walk that stops at the root computes with nothing larger than `2 ^ 63`.
-/

namespace OwnershipLog

open OwnershipLog.Span

namespace Span

/-- The span is a node of some tree: its width is a power of two, its left end a multiple of the
width, and its right end at most `2 ^ 63`. -/
def IsNode (s : Span) : Prop :=
  s.right.toNat ≤ 2 ^ 63 ∧
    ∃ h < 64, s.right.toNat = s.left.toNat + 2 ^ h ∧ 2 ^ h ∣ s.left.toNat

instance (s : Span) : Decidable s.IsNode :=
  inferInstanceAs (Decidable (_ ∧ ∃ h < 64, _))

theorem isNode_block {h b : Nat} (hb : InRange h b) : (block h b).IsNode := by
  have hheight : h < 64 := Nat.lt_succ_of_le
    ((Nat.pow_le_pow_iff_right Nat.one_lt_two).1 hb.pow_le)
  rw [IsNode, toNat_left_block hb, toNat_right_block hb]
  refine ⟨hb, h, hheight, ?_, Nat.dvd_mul_left _ _⟩
  rw [Nat.add_mul, Nat.one_mul]

end Span

namespace Checked

variable {m : Type → Type} [Monad m]

/-- A sum of words that is a word. -/
def add (a b : UInt64) : OptionT m UInt64 := do
  guard (a.toNat + b.toNat < 2 ^ 64)
  return a + b

/-- A difference of words that is a word. -/
def sub (a b : UInt64) : OptionT m UInt64 := do
  guard (b.toNat ≤ a.toNat)
  return a - b

/-- A span that is a node. -/
def span (left right : UInt64) : OptionT m Span := do
  guard (Span.IsNode ⟨left, right⟩)
  return ⟨left, right⟩

/-- The span of one leaf. -/
def leaf (index : UInt64) : OptionT m Span := do
  let right ← add index 1
  span index right

/-- How many leaves the span has room for. -/
def width (s : Span) : OptionT m UInt64 := sub s.right s.left

/-- Whether the left end is a multiple of twice the width. -/
def isLeftChild (s : Span) : OptionT m Bool := do
  let width ← width s
  return s.left &&& width == 0

/-- The span of twice the width around this one. -/
def parent (s : Span) : OptionT m Span := do
  let width ← width s
  let left ← isLeftChild s
  if left then do
    let right ← add s.right width
    span s.left right
  else do
    let left ← sub s.left width
    span left s.right

/-- The other half of the parent. -/
def sibling (s : Span) : OptionT m Span := do
  let width ← width s
  let left ← isLeftChild s
  if left then do
    let right ← add s.right width
    span s.right right
  else do
    let left ← sub s.left width
    span left s.left

/-- The hash of the parent of `s`, from its own hash and its sibling's. -/
def combine (hash : HashFunction) (s : Span) (own sibling : Digest) : OptionT m Digest := do
  let left ← isLeftChild s
  return if left then hash.node own sibling else hash.node sibling own

/-- The root hash that a node and its sibling hashes lead to in a tree with `size` leaves. -/
def climb (hash : HashFunction) (size : UInt64) :
    Span → Digest → List Digest → OptionT m (Option Digest)
  | s, own, [] => pure (if s.isRoot size then some own else none)
  | s, own, digest :: rest =>
    if s.isRoot size then pure none
    else do
      let beside ← sibling s
      if decide (digest = Digest.zero) ≠ decide (size ≤ beside.left) then pure none
      else do
        let own ← combine hash s own digest
        let above ← parent s
        climb hash size above own rest

/-- Whether the hashes of a proof tie its leaf to the root of its head. -/
def verifyHashes (hash : HashFunction) (p : InclusionProof) : OptionT m Bool :=
  if maxLeaves < p.head.size ∨ p.head.size ≤ p.index then pure false
  else match p.leaf.hash? hash with
    | none => pure false
    | some own => do
      let start ← leaf p.index
      let root ← climb hash p.head.size start own p.hashes
      return decide (root = some p.head.root)

/-! ## What passes the checks -/

variable [LawfulMonad m]

theorem guard_bind {α : Type} {p : Prop} [Decidable p] (hp : p) (next : Unit → OptionT m α) :
    guard p >>= next = next () := by
  rw [guard, if_pos hp, pure_bind]

theorem add_eq {a b : UInt64} (h : a.toNat + b.toNat < 2 ^ 64) :
    add a b = (pure (a + b) : OptionT m UInt64) := guard_bind h _

theorem sub_eq {a b : UInt64} (h : b.toNat ≤ a.toNat) :
    sub a b = (pure (a - b) : OptionT m UInt64) := guard_bind h _

theorem span_eq {s : Span} (h : s.IsNode) : span s.left s.right = (pure s : OptionT m Span) :=
  guard_bind h _

theorem leaf_eq {index : UInt64} (h : index.toNat < 2 ^ 63) :
    leaf index = (pure (Span.leaf index) : OptionT m Span) := by
  have hrange : InRange 0 index.toNat := by
    rw [InRange, pow_zero, Nat.mul_one]
    exact h
  have hsum : index.toNat + (1 : UInt64).toNat < 2 ^ 64 := by
    rw [show (1 : UInt64).toNat = 1 from rfl]
    omega
  have hnode : (Span.leaf index).IsNode := by
    rw [leaf_eq_block]
    exact isNode_block hrange
  rw [leaf, add_eq hsum, pure_bind]
  exact span_eq hnode

section

variable {h b : Nat}

theorem width_eq (hb : InRange h b) :
    width (block h b) = (pure (block h b).width : OptionT m UInt64) := by
  refine sub_eq ?_
  rw [toNat_left_block hb, toNat_right_block hb]
  exact Nat.mul_le_mul_right _ (Nat.le_succ b)

theorem isLeftChild_eq (hb : InRange h b) :
    isLeftChild (block h b) = (pure (block h b).isLeftChild : OptionT m Bool) := by
  rw [isLeftChild, width_eq hb, pure_bind]
  rfl

theorem combine_eq (hash : HashFunction) (hb : InRange h b) (own sibling : Digest) :
    combine hash (block h b) own sibling =
      (pure ((block h b).combine hash own sibling) : OptionT m Digest) := by
  rw [combine, isLeftChild_eq hb, pure_bind]
  rfl

variable (hb : InRange (h + 1) (b / 2))
include hb

/-- Below the root there is room for a span of the same width on the right. -/
theorem toNat_right_add_width_lt :
    (block h b).right.toNat + (block h b).width.toNat < 2 ^ 64 := by
  have hright : (b + 1) * 2 ^ h ≤ 2 ^ 63 := hb.of_parent
  have hwidth : 2 ^ (h + 1) ≤ 2 ^ 63 := hb.pow_le
  rw [toNat_right_block hb.of_parent, toNat_width_block hb.of_parent]
  omega

/-- There is one on the left of every right child. -/
theorem toNat_width_le_left (hright : (block h b).isLeftChild = false) :
    (block h b).width.toNat ≤ (block h b).left.toNat := by
  rw [isLeftChild_block hb.of_parent, decide_eq_false_iff_not] at hright
  rw [toNat_width_block hb.of_parent, toNat_left_block hb.of_parent]
  exact Nat.le_mul_of_pos_left _ (by omega)

/-- On either side the new end is a word; so a node that is formed with it passes. -/
theorem side_eq (onLeft onRight : UInt64 → Span)
    (hnode : (if (block h b).isLeftChild then onLeft ((block h b).right + (block h b).width)
      else onRight ((block h b).left - (block h b).width)).IsNode) :
    (do
      let width ← width (block h b)
      let left ← isLeftChild (block h b)
      if left then do
        let right ← add (block h b).right width
        span (onLeft right).left (onLeft right).right
      else do
        let left ← sub (block h b).left width
        span (onRight left).left (onRight left).right) =
    (pure (if (block h b).isLeftChild then onLeft ((block h b).right + (block h b).width)
      else onRight ((block h b).left - (block h b).width)) : OptionT m Span) := by
  rw [width_eq hb.of_parent, pure_bind, isLeftChild_eq hb.of_parent, pure_bind]
  cases hside : (block h b).isLeftChild with
  | true =>
      rw [hside, if_pos rfl] at hnode
      rw [if_pos rfl, if_pos rfl, add_eq (toNat_right_add_width_lt hb), pure_bind]
      exact span_eq hnode
  | false =>
      rw [hside, if_neg Bool.false_ne_true] at hnode
      rw [if_neg Bool.false_ne_true, if_neg Bool.false_ne_true,
        sub_eq (toNat_width_le_left hb hside), pure_bind]
      exact span_eq hnode

theorem parent_eq : parent (block h b) = (pure (block h b).parent : OptionT m Span) := by
  refine side_eq hb (fun right => ⟨(block h b).left, right⟩)
    (fun left => ⟨left, (block h b).right⟩) ?_
  show (block h b).parent.IsNode
  rw [parent_block hb]
  exact isNode_block hb

theorem sibling_eq : sibling (block h b) = (pure (block h b).sibling : OptionT m Span) := by
  refine side_eq hb (fun right => ⟨(block h b).right, right⟩)
    (fun left => ⟨left, (block h b).left⟩) ?_
  show (block h b).sibling.IsNode
  rw [sibling_block hb]
  exact isNode_block hb.beside

end

/-! ## The check of a proof -/

variable {hash : HashFunction}

/-- The walk over any list of hashes passes every check: it goes on only below the root. -/
theorem climb_eq {size : UInt64} {i h : Nat} (hsize : size.toNat ≤ 2 ^ 63) (hi : i < size.toNat)
    (hh : h ≤ depth size.toNat) (own : Digest) (hashes : List Digest) :
    climb hash size (block h (i / 2 ^ h)) own hashes =
      (pure (Merkle.climb hash size (block h (i / 2 ^ h)) own hashes) :
        OptionT m (Option Digest)) := by
  induction hashes generalizing h own with
  | nil => rfl
  | cons digest rest ih =>
      rw [climb, Merkle.climb]
      by_cases htop : h = depth size.toNat
      · rw [isRoot_of_depth hsize hi htop, if_pos rfl, if_pos rfl]
      · have hbelow : h < depth size.toNat := Nat.lt_of_le_of_ne hh htop
        have hrange := inRange_parent hsize hi hbelow
        rw [isRoot_of_lt hsize hi hbelow, if_neg Bool.false_ne_true, if_neg Bool.false_ne_true,
          sibling_eq hrange, pure_bind]
        split
        · rfl
        · rw [combine_eq hash hrange.of_parent, pure_bind, parent_eq hrange, pure_bind,
            parent_block hrange, ← div_two_pow_succ]
          exact ih hbelow _

/-- To check a proof takes no sum and no difference that is not a word, and forms no span that is
not a node, for any index, any size and any number of hashes. -/
theorem verifyHashes_eq (p : InclusionProof) :
    verifyHashes hash p = (pure (p.verifyHashes hash) : OptionT m Bool) := by
  rw [verifyHashes, InclusionProof.verifyHashes]
  split
  · rfl
  · rename_i hin
    rw [not_or, UInt64.not_lt, UInt64.not_le] at hin
    have hsize : p.head.size.toNat ≤ 2 ^ 63 := UInt64.le_iff_toNat_le.1 hin.1
    have hi : p.index.toNat < p.head.size.toNat := UInt64.lt_iff_toNat_lt.1 hin.2
    cases p.leaf.hash? hash with
    | none => rfl
    | some own =>
        simp only [leaf_eq (Nat.lt_of_lt_of_le hi hsize), pure_bind, leaf_eq_block_div,
          climb_eq hsize hi (Nat.zero_le _)]

end Checked

end OwnershipLog
