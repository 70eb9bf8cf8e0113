import OwnershipLog.Proofs.Merkle.Reference
import OwnershipLog.Proofs.Store.View
import OwnershipLog.Proofs.Wire.RoundTrip
import OwnershipLog.Tree

/-!
# What a tree keeps in its store

`Filed hash leaves key value` says that a tree over the byte forms `leaves` files
`value` under `key`: every leaf, the hash of every block that is wider than a leaf,
starts below the size and lies within the root, and the size unless the log is
empty. A view represents the log when these are its values and it has no others.

From a view that represents the log every program that reads the tree has a known
answer: the hash of a node is the hash of its block from scratch, a leaf decodes to
the leaf that was appended, and the hashes of a proof are those beside the path.
The answer zero is only ever given for a block without a leaf.
-/

namespace OwnershipLog

open OwnershipLog.Span Transaction

/-- A leaf with its byte form. -/
structure Leaf.Written where
  leaf : Leaf
  bytes : Bytes
  encode_eq : leaf.encode = .ok bytes

/-- The byte forms of a log. -/
def bytesOf (log : List Leaf.Written) : List Bytes := log.map Leaf.Written.bytes

@[simp] theorem length_bytesOf (log : List Leaf.Written) : (bytesOf log).length = log.length :=
  List.length_map _

theorem getElem?_bytesOf (log : List Leaf.Written) (i : Nat) :
    (bytesOf log)[i]? = log[i]?.map Leaf.Written.bytes := List.getElem?_map

namespace StoreKey

theorem bytes_leaf_inj {i j : UInt64} (h : (leaf i).bytes = (leaf j).bytes) : i = j :=
  word64_inj.1 h

theorem bytes_node_inj {s t : Span} (h : (node s).bytes = (node t).bytes) : s = t := by
  obtain ⟨hleft, hright⟩ := List.append_inj h (by simp)
  cases s
  cases t
  cases word64_inj.1 hleft
  cases word64_inj.1 hright
  rfl

theorem length_bytes_size : size.bytes.length = 4 := rfl

/-- No two things are filed under the same bytes. -/
theorem bytes_inj {k k' : StoreKey} (h : k.bytes = k'.bytes) : k = k' := by
  have hlength := congrArg List.length h
  cases k with
  | leaf i =>
      cases k' with
      | leaf j => rw [bytes_leaf_inj h]
      | node t => simp [bytes] at hlength
      | size =>
          rw [length_bytes_size] at hlength
          simp [bytes] at hlength
  | node s =>
      cases k' with
      | leaf j => simp [bytes] at hlength
      | node t => rw [bytes_node_inj h]
      | size =>
          rw [length_bytes_size] at hlength
          simp [bytes] at hlength
  | size =>
      cases k' with
      | leaf j =>
          rw [length_bytes_size] at hlength
          simp [bytes] at hlength
      | node t =>
          rw [length_bytes_size] at hlength
          simp [bytes] at hlength
      | size => rfl

theorem bytes_ne {k k' : StoreKey} (h : k ≠ k') : k.bytes ≠ k'.bytes := fun heq => h (bytes_inj heq)

end StoreKey

/-- What a tree over the byte forms `leaves` keeps under a key. -/
inductive Filed (hash : HashFunction) (leaves : List Bytes) : StoreKey → Bytes → Prop where
  /-- A leaf: its bytes. -/
  | leaf {i : Nat} {bytes : Bytes} (at_i : leaves[i]? = some bytes) :
    Filed hash leaves (.leaf (UInt64.ofNat i)) bytes
  /-- A block wider than a leaf that starts below the size, within the root: its hash. -/
  | node {h b : Nat} (below : b * 2 ^ (h + 1) < leaves.length)
    (within : (b + 1) * 2 ^ (h + 1) ≤ (rootFor (UInt64.ofNat leaves.length)).right.toNat) :
    Filed hash leaves (.node (block (h + 1) b)) (hash.blockHash leaves (h + 1) b).toBytes
  /-- The number of leaves, unless there is none. -/
  | size (nonempty : 0 < leaves.length) :
    Filed hash leaves .size (word64 (UInt64.ofNat leaves.length))

/-- The view holds what a tree over `leaves` files, and nothing else. -/
def Represents (hash : HashFunction) (leaves : List Bytes) (v : View) : Prop :=
  ∀ key value, v key = some value ↔ ∃ k : StoreKey, k.bytes = key ∧ Filed hash leaves k value

section

variable {hash : HashFunction} {leaves : List Bytes} {v : View}

theorem ofNat_add_one (n : Nat) : UInt64.ofNat n + 1 = UInt64.ofNat (n + 1) :=
  (UInt64.ofNat_add n 1).symm

/-- The path from the last leaf of a log. -/
theorem path_last {n : Nat} (hlt : n < 2 ^ 63) :
    path (UInt64.ofNat n) (UInt64.ofNat (n + 1)) = blocksAbove 0 (depth (n + 1)) n := by
  have hnat : (UInt64.ofNat n).toNat = n := toNat_ofNat_of_le hlt.le
  have hnat' : (UInt64.ofNat (n + 1)).toNat = n + 1 := toNat_ofNat_of_le hlt
  have hindex : UInt64.ofNat n < UInt64.ofNat (n + 1) := by
    rw [UInt64.lt_iff_toNat_lt, hnat, hnat']
    exact Nat.lt_succ_self n
  rw [path_eq (by rwa [hnat']) hindex, hnat, hnat']

theorem toNat_right_rootFor (hle : leaves.length ≤ 2 ^ 63) :
    (rootFor (UInt64.ofNat leaves.length)).right.toNat = 2 ^ depth leaves.length := by
  have hnat := toNat_ofNat_of_le hle
  have hpow := two_pow_depth_le hle
  rw [rootFor_eq_block (by omega), hnat, toNat_right_block (by simpa [InRange] using hpow)]
  simp

theorem represents_empty : Represents hash [] View.empty := by
  intro key value
  constructor
  · intro h
    cases h
  · rintro ⟨k, -, hfiled⟩
    cases hfiled with
    | leaf h => simp at h
    | node hbelow _ => simp at hbelow
    | size h => simp at h

theorem Represents.get_iff (h : Represents hash leaves v) (k : StoreKey) (value : Bytes) :
    v k.bytes = some value ↔ Filed hash leaves k value := by
  rw [h]
  constructor
  · rintro ⟨k', hk', hfiled⟩
    rwa [← StoreKey.bytes_inj hk']
  · intro hfiled
    exact ⟨k, rfl, hfiled⟩

theorem Represents.get_of_filed (h : Represents hash leaves v) {k : StoreKey} {value : Bytes}
    (hfiled : Filed hash leaves k value) : v k.bytes = some value := (h.get_iff k value).2 hfiled

/-! ## What is found under each key -/

theorem filed_leaf_iff (hle : leaves.length ≤ 2 ^ 63) {index : UInt64} {value : Bytes} :
    Filed hash leaves (.leaf index) value ↔ leaves[index.toNat]? = some value := by
  constructor
  · intro h
    cases h with
    | leaf hi =>
        have hlt := (List.getElem?_eq_some_iff.1 hi).1
        rwa [toNat_ofNat_of_le (by omega)]
  · intro h
    have hfiled : Filed hash leaves (.leaf (UInt64.ofNat index.toNat)) value := Filed.leaf h
    rwa [UInt64.ofNat_toNat] at hfiled

theorem Represents.get_leaf (h : Represents hash leaves v) (hle : leaves.length ≤ 2 ^ 63)
    (index : UInt64) : v (StoreKey.leaf index).bytes = leaves[index.toNat]? := by
  apply Option.ext
  intro value
  rw [Represents.get_iff h, filed_leaf_iff hle]

theorem Represents.get_size (h : Represents hash leaves v) :
    v StoreKey.size.bytes =
      if leaves.length = 0 then none else some (word64 (UInt64.ofNat leaves.length)) := by
  split
  · rename_i hempty
    rw [Option.eq_none_iff_forall_ne_some]
    intro value hvalue
    rw [h.get_iff] at hvalue
    cases hvalue with
    | size hpos => omega
  · rename_i hmore
    exact h.get_of_filed (.size (Nat.pos_of_ne_zero hmore))

theorem Represents.get_node (h : Represents hash leaves v) (hle : leaves.length ≤ 2 ^ 63)
    {j b : Nat} (hbelow : b * 2 ^ (j + 1) < leaves.length)
    (hwithin : (b + 1) * 2 ^ (j + 1) ≤ 2 ^ depth leaves.length) :
    v (StoreKey.node (block (j + 1) b)).bytes =
      some (hash.blockHash leaves (j + 1) b).toBytes :=
  h.get_of_filed (.node hbelow (by rwa [toNat_right_rootFor hle]))

/-! ## The answers of the tree -/

variable {now : Timestamp}

theorem answer_reading {α : Type} {query : Query StoreError α} {a : α}
    (h : answer now query v = .ok a) : answer now (Tree.reading query) v = .ok a := by
  rw [Tree.reading, answer_mapError, h]
  rfl

theorem Represents.answer_size (h : Represents hash leaves v) :
    answer now (Tree.reading Layout.size) v = .ok (UInt64.ofNat leaves.length) := by
  apply answer_reading
  rw [Layout.size, answer, h.get_size]
  rcases Nat.eq_zero_or_pos leaves.length with hempty | hmore
  · rw [if_pos hempty, hempty]
    rfl
  · have hword : Octets.ofBytes? 8 (word64 (UInt64.ofNat leaves.length)) =
        some ⟨word64 (UInt64.ofNat leaves.length), length_word64 _⟩ :=
      Octets.ofBytes?_eq_some_iff.2 rfl
    rw [if_neg (Nat.pos_iff_ne_zero.1 hmore)]
    simp only [hword, answer_done]
    rw [ofBigEndian_word64, Nat.toUInt64_eq, UInt64.ofNat_toNat]

theorem Represents.answer_leafBytes (h : Represents hash leaves v) (hle : leaves.length ≤ 2 ^ 63)
    (index : UInt64) :
    answer now (Tree.reading (Layout.leafBytes index)) v = .ok leaves[index.toNat]? := by
  apply answer_reading
  rw [Layout.leafBytes, answer, h.get_leaf hle]
  rfl

/-- The hash of a node is that of its block from scratch. -/
theorem Represents.answer_nodeHash (h : Represents hash leaves v) (hle : leaves.length ≤ 2 ^ 63)
    {j b : Nat} (hbelow : j ≠ 0 → b * 2 ^ j < leaves.length)
    (hwithin : (b + 1) * 2 ^ j ≤ 2 ^ depth leaves.length) :
    answer now (Tree.nodeHash hash (block j b)) v = .ok (hash.blockHash leaves j b) := by
  have hrange : InRange j b := le_trans hwithin (two_pow_depth_le hle)
  rw [Tree.nodeHash, isLeaf_block hrange]
  cases j with
  | zero =>
      have hleft : (block 0 b).left.toNat = b := by
        rw [toNat_left_block hrange]
        simp
      rw [if_pos (by simp), answer_bind_of_ok (h.answer_leafBytes hle _), hleft,
        HashFunction.blockHash]
      cases leaves[b]? with
      | none => rfl
      | some bytes => rfl
  | succ j =>
      have hnode : answer now (Tree.reading (Layout.node (block (j + 1) b))) v =
          .ok (some (hash.blockHash leaves (j + 1) b)) := by
        apply answer_reading
        rw [Layout.node, answer, h.get_node hle (hbelow (Nat.succ_ne_zero j)) hwithin]
        simp only [Octets.ofBytes?_toBytes, answer_done]
      rw [if_neg (by simp), answer_bind_of_ok hnode]
      rfl

/-- The root of the log, whatever its size. -/
theorem Represents.answer_root (h : Represents hash leaves v) (hle : leaves.length ≤ 2 ^ 63) :
    answer now (Tree.nodeHash hash (rootFor (UInt64.ofNat leaves.length))) v =
      .ok (hash.rootHash leaves) := by
  have hnat := toNat_ofNat_of_le hle
  rw [rootFor_eq_block (by omega), hnat]
  apply h.answer_nodeHash hle
  · intro hdepth
    rw [Nat.zero_mul]
    by_contra hempty
    have hzero : leaves.length = 0 := by omega
    rw [hzero] at hdepth
    exact hdepth rfl
  · simp

/-- The block beside a block around a leaf of the log lies within the root. -/
theorem beside_within {n i j : Nat} (hi : i < n) (hj : j < depth n) :
    (beside (i / 2 ^ j) + 1) * 2 ^ j ≤ 2 ^ depth n := by
  have hbeside : beside (i / 2 ^ j) + 1 ≤ (i / 2 ^ (j + 1) + 1) * 2 := by
    have hdiv := beside_div_two (i / 2 ^ j)
    rw [div_two_pow_succ]
    omega
  calc (beside (i / 2 ^ j) + 1) * 2 ^ j ≤ (i / 2 ^ (j + 1) + 1) * 2 * 2 ^ j :=
        Nat.mul_le_mul_right _ hbeside
    _ = (i / 2 ^ (j + 1) + 1) * 2 ^ (j + 1) := by rw [pow_succ, mul_assoc, mul_comm 2]
    _ ≤ 2 ^ depth n := block_within hi hj

theorem Represents.answer_siblingHash (h : Represents hash leaves v) (hle : leaves.length ≤ 2 ^ 63)
    {size : UInt64} (hsize : size.toNat = leaves.length) {i j : Nat} (hi : i < leaves.length)
    (hj : j < depth leaves.length) :
    answer now (Tree.siblingHash hash size (block j (beside (i / 2 ^ j)))) v =
      .ok (hash.blockHash leaves j (beside (i / 2 ^ j))) := by
  have hwithin := beside_within hi hj
  have hrange : InRange j (beside (i / 2 ^ j)) := le_trans hwithin (two_pow_depth_le hle)
  have hleft : size ≤ (block j (beside (i / 2 ^ j))).left ↔
      leaves.length ≤ beside (i / 2 ^ j) * 2 ^ j := by
    rw [UInt64.le_iff_toNat_le, toNat_left_block hrange, hsize]
  rw [Tree.siblingHash]
  split
  · rename_i hpast
    rw [blockHash_of_le hash (hleft.1 hpast), answer_done]
  · rename_i hbelow
    apply h.answer_nodeHash hle
    · intro _
      exact Nat.not_le.1 fun hge => hbelow (hleft.2 hge)
    · exact hwithin

/-- The hashes beside a path, read from the store. -/
theorem Represents.answer_siblingHashes (h : Represents hash leaves v)
    (hle : leaves.length ≤ 2 ^ 63) {size : UInt64} (hsize : size.toNat = leaves.length) {i : Nat}
    (hi : i < leaves.length) {j k : Nat} (hk : j + k = depth leaves.length) :
    answer now (Tree.siblingHashes hash size (blocksAbove j k i)) v =
      .ok (hash.besides leaves j k i) := by
  induction k generalizing j with
  | zero => rfl
  | succ k ih =>
      rw [blocksAbove_succ, Tree.siblingHashes,
        sibling_block (inRange_parent hle hi (by omega)),
        answer_bind_of_ok (h.answer_siblingHash hle hsize hi (by omega)),
        answer_bind_of_ok (ih (by omega)), besides_succ]
      rfl

end

/-! ## Reading leaves and proofs -/

section

variable {hash : HashFunction} {log : List Leaf.Written} {v : View} {now : Timestamp}

theorem Represents.answer_logSize (h : Represents hash (bytesOf log) v) :
    answer now (Tree.reading Layout.size) v = .ok (UInt64.ofNat log.length) := by
  rw [h.answer_size, length_bytesOf]

theorem Represents.answer_headAt (h : Represents hash (bytesOf log) v)
    (hle : log.length ≤ 2 ^ 63) :
    answer now (Tree.headAt hash (UInt64.ofNat log.length)) v =
      .ok ⟨UInt64.ofNat log.length, now, hash.rootHash (bytesOf log), none⟩ := by
  have hroot : answer now (Tree.nodeHash hash (rootFor (UInt64.ofNat (bytesOf log).length))) v =
      .ok (hash.rootHash (bytesOf log)) := h.answer_root (by rwa [length_bytesOf])
  rw [length_bytesOf] at hroot
  rw [Tree.headAt, answer, answer_bind_of_ok hroot]
  rfl

/-- The head states the size and the root hash of the log. -/
theorem Represents.answer_head (h : Represents hash (bytesOf log) v) (hle : log.length ≤ 2 ^ 63) :
    answer now (Tree.headQuery hash) v =
      .ok ⟨UInt64.ofNat log.length, now, hash.rootHash (bytesOf log), none⟩ := by
  rw [Tree.headQuery, answer_bind_of_ok h.answer_logSize, h.answer_headAt hle]

theorem Represents.answer_leafAt (h : Represents hash (bytesOf log) v) (hle : log.length ≤ 2 ^ 63)
    (index : UInt64) :
    answer now (Tree.reading (Layout.leaf index)) v =
      .ok (log[index.toNat]?.map Leaf.Written.leaf) := by
  have hbytes : answer now (Layout.leafBytes index) v = .ok (bytesOf log)[index.toNat]? := by
    rw [Layout.leafBytes, answer, h.get_leaf (by rwa [length_bytesOf])]
    rfl
  apply answer_reading
  rw [Layout.leaf, answer_bind_of_ok hbytes, getElem?_bytesOf]
  cases log[index.toNat]? with
  | none => rfl
  | some written =>
      have hdecode := Leaf.decode_encode written.encode_eq
      show answer now (Layout.leafOf index written.bytes >>= _) v = _
      rw [Layout.leafOf, hdecode]
      rfl

/-- A leaf of the log reads back as it was appended; past the end there is none. -/
theorem Represents.answer_leaf (h : Represents hash (bytesOf log) v) (hle : log.length ≤ 2 ^ 63)
    (index : UInt64) :
    answer now (Tree.leafQuery index) v = .ok (log[index.toNat]?.map Leaf.Written.leaf) := by
  rw [Tree.leafQuery, answer_bind_of_ok h.answer_logSize]
  split
  · rename_i hpast
    rw [UInt64.le_iff_toNat_le, toNat_ofNat_of_le hle] at hpast
    rw [List.getElem?_eq_none hpast]
    rfl
  · exact h.answer_leafAt hle index

theorem Represents.answer_presentLeaf (h : Represents hash (bytesOf log) v)
    (hle : log.length ≤ 2 ^ 63) {index : UInt64} {written : Leaf.Written}
    (hat : log[index.toNat]? = some written) :
    answer now (Tree.presentLeaf index) v = .ok written.leaf := by
  rw [Tree.presentLeaf, answer_bind_of_ok (h.answer_leafAt hle index), hat]
  rfl

theorem Represents.answer_leavesFrom (h : Represents hash (bytesOf log) v)
    (hle : log.length ≤ 2 ^ 63) {n : Nat} {start : UInt64}
    (hn : start.toNat + n ≤ log.length) :
    answer now (Tree.leavesFrom n start) v =
      .ok (((log.drop start.toNat).take n).map Leaf.Written.leaf) := by
  induction n generalizing start with
  | zero => rfl
  | succ n ih =>
      have hlt : start.toNat < log.length := by omega
      have hnext : (start + 1).toNat = start.toNat + 1 := by
        rw [UInt64.toNat_add]
        exact Nat.mod_eq_of_lt (by simp; omega)
      have hhead : log[start.toNat]? = some log[start.toNat] := List.getElem?_eq_getElem hlt
      rw [Tree.leavesFrom, answer_bind_of_ok (h.answer_presentLeaf hle hhead),
        answer_bind_of_ok (ih (by omega)), hnext, List.drop_eq_getElem_cons hlt]
      rfl

/-- A range of the log, cut at its end. -/
theorem Represents.answer_leaves (h : Represents hash (bytesOf log) v) (hle : log.length ≤ 2 ^ 63)
    (start stop : UInt64) :
    answer now (Tree.leavesQuery start stop) v =
      .ok (((log.take stop.toNat).drop start.toNat).map Leaf.Written.leaf) := by
  have hnat := toNat_ofNat_of_le hle
  have hmin : (min stop (UInt64.ofNat log.length)).toNat = min stop.toNat log.length := by
    have hle_iff : stop ≤ UInt64.ofNat log.length ↔ stop.toNat ≤ log.length := by
      rw [UInt64.le_iff_toNat_le, hnat]
    show (if stop ≤ UInt64.ofNat log.length then stop else UInt64.ofNat log.length).toNat = _
    split
    · rename_i hstop
      exact (Nat.min_eq_left (hle_iff.1 hstop)).symm
    · rename_i hstop
      rw [hnat, Nat.min_eq_right (Nat.le_of_not_le fun h => hstop (hle_iff.2 h))]
  have hrange : (log.take stop.toNat).drop start.toNat =
      (log.drop start.toNat).take (min stop.toNat log.length - start.toNat) := by
    rw [List.drop_take, List.take_eq_take_iff, List.length_drop]
    omega
  rw [Tree.leavesQuery, answer_bind_of_ok h.answer_logSize, hmin, hrange]
  rcases Nat.lt_or_ge start.toNat (min stop.toNat log.length) with hlt | hge
  · exact h.answer_leavesFrom hle (by omega)
  · rw [Nat.sub_eq_zero_of_le hge, List.take_zero]
    rfl

/-- The proof for a leaf of the log carries the hashes beside its path. -/
theorem Represents.answer_proof (h : Represents hash (bytesOf log) v) (hle : log.length ≤ 2 ^ 63)
    {index : UInt64} {written : Leaf.Written} (hat : log[index.toNat]? = some written) :
    answer now (Tree.proofQuery hash index) v =
      .ok ⟨⟨UInt64.ofNat log.length, now, hash.rootHash (bytesOf log), none⟩, index, written.leaf,
        hash.pathHashes (bytesOf log) index.toNat⟩ := by
  have hnat := toNat_ofNat_of_le hle
  have hlt : index.toNat < log.length := (List.getElem?_eq_some_iff.1 hat).1
  have hindex : index < UInt64.ofNat log.length := by rwa [UInt64.lt_iff_toNat_lt, hnat]
  have hpath := path_eq (by rwa [hnat]) hindex
  rw [hnat] at hpath
  have hdepth : 0 + depth log.length = depth (bytesOf log).length := by
    rw [length_bytesOf, Nat.zero_add]
  have hhashes : answer now (Tree.siblingHashes hash (UInt64.ofNat log.length)
      (blocksAbove 0 (depth log.length) index.toNat)) v =
        .ok (hash.besides (bytesOf log) 0 (depth log.length) index.toNat) :=
    h.answer_siblingHashes (by rwa [length_bytesOf]) (by rw [hnat, length_bytesOf])
      (by rwa [length_bytesOf]) hdepth
  rw [Tree.proofQuery, answer_bind_of_ok h.answer_logSize, if_neg (UInt64.not_le.2 hindex),
    answer_bind_of_ok (h.answer_presentLeaf hle hat), answer_bind_of_ok (h.answer_headAt hle),
    hpath, answer_bind_of_ok hhashes, HashFunction.pathHashes, length_bytesOf]
  rfl

theorem Represents.answer_proof_of_le (h : Represents hash (bytesOf log) v)
    (hle : log.length ≤ 2 ^ 63) {index : UInt64} (hpast : log.length ≤ index.toNat) :
    answer now (Tree.proofQuery hash index) v =
      .error (.indexOutOfRange index (UInt64.ofNat log.length)) := by
  have hindex : UInt64.ofNat log.length ≤ index := by
    rwa [UInt64.le_iff_toNat_le, toNat_ofNat_of_le hle]
  rw [Tree.proofQuery, answer_bind_of_ok h.answer_logSize, if_pos hindex]
  rfl

end

end OwnershipLog
