import Mathlib.Data.List.Basic
import OwnershipLog.Merkle.Inclusion
import OwnershipLog.Proofs.Merkle.Block

/-!
# The hashes of a log from scratch

`hash.blockHash leaves h b` is the hash of the block `b` of height `h` over the byte
forms `leaves`, computed from nothing but the leaves: zero for a block with no
leaf in it, the hash of the bytes for a single leaf, and the hash of both halves
otherwise. It depends on the leaves inside the block only (`blockHash_congr`), and
one step of a path leads from a block and its sibling to their parent
(`combine_blockHash`).

Beside the hashes stand the byte strings that are hashed: those of a walk from a
leaf (`climbInputs`), of checking a proof (`InclusionProof.inputs`), and of
building a log leaf by leaf (`buildInputs`). A collision is only worth something
between strings that were really hashed, so theorems speak of these lists.
-/

namespace OwnershipLog

open OwnershipLog.Span

/-- The hash of a block over the byte forms of a log. -/
def HashFunction.blockHash (hash : HashFunction) (leaves : List Bytes) : (h b : Nat) → Digest
  | 0, b => match leaves[b]? with
    | some bytes => hash bytes
    | none => Digest.zero
  | h + 1, b =>
    if leaves.length ≤ b * 2 ^ (h + 1) then Digest.zero
    else hash.node (hash.blockHash leaves h (2 * b)) (hash.blockHash leaves h (2 * b + 1))

/-- The root hash of a log: that of the least block from zero with room for it. -/
def HashFunction.rootHash (hash : HashFunction) (leaves : List Bytes) : Digest :=
  hash.blockHash leaves (depth leaves.length) 0

@[simp] theorem HashFunction.rootHash_nil (hash : HashFunction) :
    hash.rootHash [] = Digest.zero := rfl

/-- The hashes beside the path from leaf `i`, from height `h` on, `k` of them. -/
def HashFunction.besides (hash : HashFunction) (leaves : List Bytes) (h k i : Nat) : List Digest :=
  (List.range' h k).map fun j => hash.blockHash leaves j (beside (i / 2 ^ j))

/-- The hashes beside the path from leaf `i` up to the root. -/
def HashFunction.pathHashes (hash : HashFunction) (leaves : List Bytes) (i : Nat) : List Digest :=
  hash.besides leaves 0 (depth leaves.length) i

section

variable (hash : HashFunction)

theorem blockHash_zero_of_getElem? {leaves : List Bytes} {b : Nat} {bytes : Bytes}
    (h : leaves[b]? = some bytes) : hash.blockHash leaves 0 b = hash bytes := by
  simp [HashFunction.blockHash, h]

/-- A block that starts at or past the end of the log hashes to zero. -/
theorem blockHash_of_le {leaves : List Bytes} {h b : Nat} (hle : leaves.length ≤ b * 2 ^ h) :
    hash.blockHash leaves h b = Digest.zero := by
  cases h with
  | zero =>
      have hnone : leaves[b]? = none := List.getElem?_eq_none (by simpa using hle)
      simp [HashFunction.blockHash, hnone]
  | succ h => rw [HashFunction.blockHash, if_pos hle]

theorem blockHash_succ_of_lt {leaves : List Bytes} {h b : Nat}
    (hlt : b * 2 ^ (h + 1) < leaves.length) :
    hash.blockHash leaves (h + 1) b =
      hash.node (hash.blockHash leaves h (2 * b)) (hash.blockHash leaves h (2 * b + 1)) := by
  rw [HashFunction.blockHash, if_neg (Nat.not_le.2 hlt)]

/-- The hash of a block depends on the leaves inside it only. -/
theorem blockHash_congr {xs ys : List Bytes} {h b : Nat}
    (hsame : ∀ i, b * 2 ^ h ≤ i → i < (b + 1) * 2 ^ h → xs[i]? = ys[i]?) :
    hash.blockHash xs h b = hash.blockHash ys h b := by
  induction h generalizing b with
  | zero =>
      have hb : xs[b]? = ys[b]? := hsame b (by simp) (by simp)
      simp only [HashFunction.blockHash, hb]
  | succ h ih =>
      have hpow : 2 ^ (h + 1) = 2 * 2 ^ h := by rw [pow_succ, mul_comm]
      have hpos : 0 < 2 ^ h := Nat.two_pow_pos h
      have hleft : 2 * b * 2 ^ h = b * 2 ^ (h + 1) := by rw [hpow]; ring
      have hmid : (2 * b + 1) * 2 ^ h = b * 2 ^ (h + 1) + 2 ^ h := by rw [hpow]; ring
      have hright : (2 * b + 1 + 1) * 2 ^ h = (b + 1) * 2 ^ (h + 1) := by rw [hpow]; ring
      have hwidth : (b + 1) * 2 ^ (h + 1) = b * 2 ^ (h + 1) + 2 ^ h + 2 ^ h := by rw [hpow]; ring
      have hstart : xs[b * 2 ^ (h + 1)]? = ys[b * 2 ^ (h + 1)]? :=
        hsame _ le_rfl (by omega)
      have hempty : xs.length ≤ b * 2 ^ (h + 1) ↔ ys.length ≤ b * 2 ^ (h + 1) := by
        rw [← List.getElem?_eq_none_iff, hstart, List.getElem?_eq_none_iff]
      have hfirst := ih (b := 2 * b) fun i hi hi' => hsame i (by omega) (by omega)
      have hsecond := ih (b := 2 * b + 1) fun i hi hi' => hsame i (by omega) (by omega)
      simp only [HashFunction.blockHash, hempty, hfirst, hsecond]

/-- What is appended later does not change the hash of a block that is full. -/
theorem blockHash_append {xs : List Bytes} (ys : List Bytes) {h b : Nat}
    (hfull : (b + 1) * 2 ^ h ≤ xs.length) :
    hash.blockHash (xs ++ ys) h b = hash.blockHash xs h b := by
  apply blockHash_congr
  intro i _ hi
  exact List.getElem?_append_left (lt_of_lt_of_le hi hfull)

theorem Span.combine_block {h b : Nat} (hb : InRange h b) (own sibling : Digest) :
    (block h b).combine hash own sibling =
      if b % 2 = 0 then hash.node own sibling else hash.node sibling own := by
  rw [Span.combine, isLeftChild_block hb]
  simp only [decide_eq_true_eq]

/-- A block of the log and its sibling combine to their parent. -/
theorem combine_blockHash {leaves : List Bytes} {h b : Nat} (hb : InRange (h + 1) (b / 2))
    (hlt : b / 2 * 2 ^ (h + 1) < leaves.length) :
    (block h b).combine hash (hash.blockHash leaves h b) (hash.blockHash leaves h (beside b)) =
      hash.blockHash leaves (h + 1) (b / 2) := by
  rw [Span.combine_block hash hb.of_parent, blockHash_succ_of_lt hash hlt]
  rcases Nat.even_or_odd' b with ⟨c, rfl | rfl⟩
  · have hdiv : 2 * c / 2 = c := by omega
    have hbeside : beside (2 * c) = 2 * c + 1 := by simp [beside]
    rw [if_pos (by simp), hdiv, hbeside]
  · have hdiv : (2 * c + 1) / 2 = c := by omega
    have hbeside : beside (2 * c + 1) = 2 * c := by simp [beside]
    rw [if_neg (by simp), hdiv, hbeside]

/-- The same along the path from a leaf of the log. -/
theorem combine_path {leaves : List Bytes} {i j : Nat} (hle : leaves.length ≤ 2 ^ 63)
    (hi : i < leaves.length) (hj : j < depth leaves.length) :
    (block j (i / 2 ^ j)).combine hash (hash.blockHash leaves j (i / 2 ^ j))
        (hash.blockHash leaves j (beside (i / 2 ^ j))) =
      hash.blockHash leaves (j + 1) (i / 2 ^ (j + 1)) := by
  rw [div_two_pow_succ]
  apply combine_blockHash hash (inRange_parent hle hi hj)
  rw [← div_two_pow_succ]
  exact lt_of_le_of_lt (Nat.div_mul_le_self i _) hi

/-! ## Along a path -/

@[simp] theorem besides_zero (leaves : List Bytes) (h i : Nat) :
    hash.besides leaves h 0 i = [] := rfl

theorem besides_succ (leaves : List Bytes) (h k i : Nat) :
    hash.besides leaves h (k + 1) i =
      hash.blockHash leaves h (beside (i / 2 ^ h)) :: hash.besides leaves (h + 1) k i := by
  simp [HashFunction.besides, List.range'_succ]

@[simp] theorem length_besides (leaves : List Bytes) (h k i : Nat) :
    (hash.besides leaves h k i).length = k := by
  simp [HashFunction.besides]

end

/-! ## What is hashed -/

/-- The bytes of a node above a span: its own hash and its sibling's, in the order of the leaves. -/
def Span.joined (s : Span) (own sibling : Digest) : Bytes :=
  if s.isLeftChild then own.toBytes ++ sibling.toBytes else sibling.toBytes ++ own.toBytes

/-- The strings that are hashed on the way up from a span with the hash `own`. -/
def Merkle.climbInputs (hash : HashFunction) : Span → Digest → List Digest → List Bytes
  | _, _, [] => []
  | s, own, sibling :: rest =>
    s.joined own sibling :: Merkle.climbInputs hash s.parent (s.combine hash own sibling) rest

/-- The strings that are hashed to accept a proof: the leaf's bytes and the nodes above it. -/
def InclusionProof.inputs (hash : HashFunction) (p : InclusionProof) : List Bytes :=
  match p.leaf.encode with
  | .ok bytes => bytes :: Merkle.climbInputs hash (Span.leaf p.index) (hash bytes) p.hashes
  | .error _ => []

/-- The strings that are hashed to append `bytes` after the leaves `before`. -/
def Merkle.appendInputs (hash : HashFunction) (before : List Bytes) (bytes : Bytes) : List Bytes :=
  bytes :: Merkle.climbInputs hash (block 0 before.length) (hash bytes)
    (hash.pathHashes (before ++ [bytes]) before.length)

/-- The strings that are hashed to build a log, one append after another. -/
def Merkle.buildInputs (hash : HashFunction) (leaves : List Bytes) : List Bytes :=
  (List.range leaves.length).flatMap fun k =>
    Merkle.appendInputs hash (leaves.take k) (leaves.getD k [])

section

variable (hash : HashFunction)

theorem Span.combine_eq_hash (s : Span) (own sibling : Digest) :
    s.combine hash own sibling = hash (s.joined own sibling) := by
  unfold Span.combine Span.joined HashFunction.node
  split <;> rfl

/-- A joined pair determines both hashes. -/
theorem Span.joined_inj (s : Span) {own sibling own' sibling' : Digest}
    (h : s.joined own sibling = s.joined own' sibling') : own = own' ∧ sibling = sibling' := by
  unfold Span.joined at h
  split at h
  · obtain ⟨hown, hsibling⟩ := List.append_inj h (by simp [Octets.length_toBytes])
    exact ⟨Octets.ext hown, Octets.ext hsibling⟩
  · obtain ⟨hsibling, hown⟩ := List.append_inj h (by simp [Octets.length_toBytes])
    exact ⟨Octets.ext hown, Octets.ext hsibling⟩

/-- The walk from a leaf of the log hashes the two halves of every block around it. -/
theorem climbInputs_path {leaves : List Bytes} {i h k : Nat} (hle : leaves.length ≤ 2 ^ 63)
    (hi : i < leaves.length) (hk : h + k = depth leaves.length) :
    Merkle.climbInputs hash (block h (i / 2 ^ h)) (hash.blockHash leaves h (i / 2 ^ h))
        (hash.besides leaves h k i) =
      (List.range' h k).map fun j => (block j (i / 2 ^ j)).joined
        (hash.blockHash leaves j (i / 2 ^ j)) (hash.blockHash leaves j (beside (i / 2 ^ j))) := by
  induction k generalizing h with
  | zero => rfl
  | succ k ih =>
      rw [besides_succ, Merkle.climbInputs, combine_path hash hle hi (by omega),
        parent_block_div hle hi (by omega), ih (by omega),
        List.range'_succ, List.map_cons]

theorem getElem?_take_append {leaves : List Bytes} {k : Nat} (hk : k < leaves.length) :
    leaves.take k ++ [leaves.getD k []] = leaves.take (k + 1) := by
  rw [List.take_add_one, List.getD_eq_getElem?_getD, List.getElem?_eq_getElem hk]
  rfl

theorem appendInputs_eq {leaves : List Bytes} {k : Nat} (hle : leaves.length ≤ 2 ^ 63)
    (hk : k < leaves.length) :
    Merkle.appendInputs hash (leaves.take k) (leaves.getD k []) =
      leaves.getD k [] :: (List.range (depth (k + 1))).map fun j =>
        (block j (k / 2 ^ j)).joined (hash.blockHash (leaves.take (k + 1)) j (k / 2 ^ j))
          (hash.blockHash (leaves.take (k + 1)) j (beside (k / 2 ^ j))) := by
  have hlen : (leaves.take k).length = k := List.length_take_of_le hk.le
  have hlen' : (leaves.take (k + 1)).length = k + 1 := List.length_take_of_le hk
  have hown : hash (leaves.getD k []) = hash.blockHash (leaves.take (k + 1)) 0 (k / 2 ^ 0) := by
    symm
    apply blockHash_zero_of_getElem?
    rw [List.getElem?_take_of_lt (by simp), List.getD_eq_getElem?_getD]
    simp [List.getElem?_eq_getElem hk]
  have hdepth : 0 + depth (k + 1) = depth (leaves.take (k + 1)).length := by
    rw [hlen', Nat.zero_add]
  have hwalk := climbInputs_path hash (i := k) (by omega) (by omega) hdepth
  rw [Merkle.appendInputs, hlen, getElem?_take_append hk, HashFunction.pathHashes, hlen', hown]
  rw [List.range_eq_range', ← hwalk]
  simp

/-- The bytes of every leaf are hashed while the log is built. -/
theorem mem_buildInputs_of_getElem? {leaves : List Bytes} {i : Nat} {bytes : Bytes}
    (h : leaves[i]? = some bytes) : bytes ∈ Merkle.buildInputs hash leaves := by
  obtain ⟨hi, rfl⟩ := List.getElem?_eq_some_iff.1 h
  rw [Merkle.buildInputs, List.mem_flatMap]
  refine ⟨i, List.mem_range.2 hi, ?_⟩
  rw [Merkle.appendInputs, List.getD_eq_getElem?_getD, List.getElem?_eq_getElem hi]
  exact List.mem_cons_self

/-- A block and its sibling join to the same string, whichever of the two is looked at. -/
theorem Span.joined_beside {h b : Nat} (hb : InRange (h + 1) (b / 2)) (own sibling : Digest) :
    (block h (beside b)).joined sibling own = (block h b).joined own sibling := by
  unfold Span.joined
  rw [isLeftChild_beside hb]
  cases (block h b).isLeftChild with
  | true => rfl
  | false => rfl

/-- Two blocks with one parent are the same or siblings. -/
theorem eq_or_eq_beside {a b : Nat} (h : a / 2 = b / 2) : a = b ∨ a = beside b := by
  unfold beside
  split <;> omega

/-- A log cut after the last leaf of a block has the same hashes inside the block. -/
theorem blockHash_take {leaves : List Bytes} {h b k : Nat}
    (hk : k = min ((b / 2 + 1) * 2 ^ (h + 1)) leaves.length) :
    hash.blockHash (leaves.take k) h b = hash.blockHash leaves h b := by
  apply blockHash_congr
  intro i _ hi
  have hin : (b + 1) * 2 ^ h ≤ (b / 2 + 1) * 2 ^ (h + 1) := by
    rw [pow_succ, mul_comm _ 2, ← mul_assoc]
    exact Nat.mul_le_mul_right _ (by omega)
  rcases Nat.lt_or_ge i k with hlt | hge
  · exact List.getElem?_take_of_lt hlt
  · rw [List.getElem?_eq_none (by rw [List.length_take]; omega),
      List.getElem?_eq_none (by omega)]

/-- The last leaf of a log in the block around leaf `i`: when it is appended, the block is below the
root already. -/
theorem exists_last_in_block {n i j : Nat} (hi : i < n) (hj : j < depth n) :
    ∃ k, k + 1 = min ((i / 2 ^ (j + 1) + 1) * 2 ^ (j + 1)) n ∧
      k / 2 ^ (j + 1) = i / 2 ^ (j + 1) ∧ j < depth (k + 1) := by
  have hpos : 0 < 2 ^ (j + 1) := Nat.two_pow_pos _
  have hpow : 2 ^ (j + 1) = 2 * 2 ^ j := by rw [pow_succ, mul_comm]
  have hmore : 2 ^ j < n := Nat.not_le.1 fun hge => absurd (depth_le hge) (by omega)
  have hown : i / 2 ^ (j + 1) * 2 ^ (j + 1) ≤ i := Nat.div_mul_le_self i _
  have hend : i < (i / 2 ^ (j + 1) + 1) * 2 ^ (j + 1) :=
    (Nat.div_lt_iff_lt_mul hpos).1 (Nat.lt_succ_self _)
  obtain ⟨k, hk⟩ : ∃ k, k + 1 = min ((i / 2 ^ (j + 1) + 1) * 2 ^ (j + 1)) n :=
    ⟨min ((i / 2 ^ (j + 1) + 1) * 2 ^ (j + 1)) n - 1, by omega⟩
  refine ⟨k, hk, ?_, ?_⟩
  · apply Nat.div_eq_of_lt_le
    · omega
    · omega
  · apply Nat.not_le.1
    intro hge
    have hsmall := depth_le_iff.1 hge
    rcases Nat.eq_zero_or_pos (i / 2 ^ (j + 1)) with hzero | hbig
    · rw [hzero] at hk
      omega
    · have hlarge : 2 ^ (j + 1) ≤ i / 2 ^ (j + 1) * 2 ^ (j + 1) := Nat.le_mul_of_pos_left _ hbig
      omega

/-- The halves of every block around a leaf of the log are hashed together while the log is built:
by the append of the last leaf inside the block. -/
theorem joined_mem_buildInputs {leaves : List Bytes} {i j : Nat} (hle : leaves.length ≤ 2 ^ 63)
    (hi : i < leaves.length) (hj : j < depth leaves.length) :
    (block j (i / 2 ^ j)).joined (hash.blockHash leaves j (i / 2 ^ j))
      (hash.blockHash leaves j (beside (i / 2 ^ j))) ∈ Merkle.buildInputs hash leaves := by
  obtain ⟨k, hk, hsame, hdepth⟩ := exists_last_in_block hi hj
  have hrange : InRange (j + 1) (i / 2 ^ j / 2) := inRange_parent hle hi hj
  -- the block was complete with leaf `k`, so its halves hash as they do in the whole log
  have htake : ∀ b, b / 2 = i / 2 ^ j / 2 →
      hash.blockHash (leaves.take (k + 1)) j b = hash.blockHash leaves j b := by
    intro b hb
    apply blockHash_take
    rw [hb, ← div_two_pow_succ, hk]
  have hparent : k / 2 ^ j / 2 = i / 2 ^ j / 2 := by
    rw [← div_two_pow_succ, ← div_two_pow_succ, hsame]
  have hjoined : (block j (k / 2 ^ j)).joined
      (hash.blockHash (leaves.take (k + 1)) j (k / 2 ^ j))
      (hash.blockHash (leaves.take (k + 1)) j (beside (k / 2 ^ j))) =
      (block j (i / 2 ^ j)).joined (hash.blockHash leaves j (i / 2 ^ j))
        (hash.blockHash leaves j (beside (i / 2 ^ j))) := by
    rw [htake _ hparent, htake _ (by rw [beside_div_two, hparent])]
    rcases eq_or_eq_beside hparent with heq | heq
    · rw [heq]
    · rw [heq, beside_beside, Span.joined_beside hrange]
  rw [Merkle.buildInputs, List.mem_flatMap]
  refine ⟨k, List.mem_range.2 (by omega), ?_⟩
  rw [appendInputs_eq hash hle (by omega), ← hjoined]
  exact List.mem_cons_of_mem _ (List.mem_map.2 ⟨j, List.mem_range.2 hdepth, rfl⟩)

/-- Every append hashes its own strings and leaves those of the appends before it as they were. -/
theorem buildInputs_concat (leaves : List Bytes) (bytes : Bytes) :
    Merkle.buildInputs hash (leaves ++ [bytes]) =
      Merkle.buildInputs hash leaves ++ Merkle.appendInputs hash leaves bytes := by
  have hlast : Merkle.appendInputs hash ((leaves ++ [bytes]).take leaves.length)
      ((leaves ++ [bytes]).getD leaves.length []) = Merkle.appendInputs hash leaves bytes := by
    simp
  have hbefore : ∀ k ∈ List.range leaves.length,
      Merkle.appendInputs hash ((leaves ++ [bytes]).take k) ((leaves ++ [bytes]).getD k []) =
        Merkle.appendInputs hash (leaves.take k) (leaves.getD k []) := by
    intro k hk
    have hlt := List.mem_range.1 hk
    rw [List.take_append_of_le_length hlt.le, List.getD_append _ _ _ _ hlt]
  rw [Merkle.buildInputs, List.length_append, List.length_singleton, List.range_succ,
    List.flatMap_append, List.flatMap_congr hbefore, List.flatMap_singleton, hlast,
    Merkle.buildInputs]

/-- The strings hashed for a part of a log are among those hashed for the log. -/
theorem mem_buildInputs_of_take {leaves : List Bytes} {n : Nat} {x : Bytes}
    (h : x ∈ Merkle.buildInputs hash (leaves.take n)) : x ∈ Merkle.buildInputs hash leaves := by
  obtain ⟨k, hk, hx⟩ := List.mem_flatMap.1 h
  rw [List.mem_range, List.length_take] at hk
  rw [List.take_take, Nat.min_eq_left (by omega), List.getD_eq_getElem?_getD,
    List.getElem?_take_of_lt (by omega), ← List.getD_eq_getElem?_getD] at hx
  exact List.mem_flatMap.2 ⟨k, List.mem_range.2 (by omega), hx⟩

/-- A function that hashes those strings alike gives every block the same hash. -/
theorem blockHash_congr_hash {hash' : HashFunction} {leaves : List Bytes} {h b : Nat}
    (hle : leaves.length ≤ 2 ^ 63) (hh : h ≤ depth leaves.length)
    (hsame : ∀ x ∈ Merkle.buildInputs hash leaves, hash x = hash' x) :
    hash.blockHash leaves h b = hash'.blockHash leaves h b := by
  induction h generalizing b with
  | zero =>
      cases hat : leaves[b]? with
      | none => simp only [HashFunction.blockHash, hat]
      | some bytes =>
          rw [blockHash_zero_of_getElem? hash hat, blockHash_zero_of_getElem? hash' hat,
            hsame bytes (mem_buildInputs_of_getElem? hash hat)]
  | succ h ih =>
      rcases Nat.lt_or_ge (b * 2 ^ (h + 1)) leaves.length with hlt | hpast
      · have hfirst : b * 2 ^ (h + 1) / 2 ^ (h + 1) = b :=
          Nat.mul_div_cancel _ (Nat.two_pow_pos _)
        have hcombine := combine_path hash hle hlt hh
        have hcombine' := combine_path hash' hle hlt hh
        rw [hfirst, Span.combine_eq_hash] at hcombine hcombine'
        rw [← hcombine, ← hcombine', ← ih (by omega), ← ih (by omega),
          hsame _ (joined_mem_buildInputs hash hle hlt hh)]
      · rw [blockHash_of_le hash hpast, blockHash_of_le hash' hpast]

end

end OwnershipLog
