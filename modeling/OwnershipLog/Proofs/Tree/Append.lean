import OwnershipLog.Proofs.Tree.Filed

/-!
# Appending a leaf

An append to a log of `n` leaves files the new leaf, the hash of every block around
it up to the new root, and the new size. The blocks beside its path are full or
empty: they are read from the store as the log left them, and no write of the
append touches them. A block of the new log is either around the new leaf, and
written, or ends at or before it, and then as it was. So the view after the append
represents the longer log (`Represents.append`).
-/

namespace OwnershipLog

open OwnershipLog.Span Transaction

section

variable {hash : HashFunction} {now : Timestamp} {v : View}

/-- The hash of a node depends on what is filed under its own key only. -/
theorem answer_nodeHash_congr {v' : View} {span : Span}
    (hleaf : v (StoreKey.leaf span.left).bytes = v' (StoreKey.leaf span.left).bytes)
    (hnode : v (StoreKey.node span).bytes = v' (StoreKey.node span).bytes) :
    answer now (Tree.nodeHash hash span) v = answer now (Tree.nodeHash hash span) v' := by
  rw [Tree.nodeHash]
  split
  · rw [answer_bind, answer_bind, Tree.reading, answer_mapError, answer_mapError,
      Layout.leafBytes]
    simp only [answer, hleaf]
    cases v' (StoreKey.leaf span.left).bytes with
    | none => rfl
    | some bytes => rfl
  · rw [answer_bind, answer_bind, Tree.reading, answer_mapError, answer_mapError, Layout.node]
    simp only [answer, hnode]
    cases v' (StoreKey.node span).bytes with
    | none => rfl
    | some bytes =>
        cases hwidth : Octets.ofBytes? 32 bytes with
        | none => simp only [hwidth]; rfl
        | some digest => simp only [hwidth]; rfl

/-- Filing another node does not change the hash that is read beside a path. -/
theorem answer_siblingHash_put {span other : Span} (hne : span ≠ other) (size : UInt64)
    (value : Bytes) :
    answer now (Tree.siblingHash hash size span) (v.put (StoreKey.node other).bytes value) =
      answer now (Tree.siblingHash hash size span) v := by
  rw [Tree.siblingHash]
  split
  · rfl
  · apply answer_nodeHash_congr
    · exact View.put_of_ne _ _ (StoreKey.bytes_ne (by simp))
    · exact View.put_of_ne _ _ (StoreKey.bytes_ne (by simpa using hne))

/-- The view with the hashes of `k` blocks above leaf `i` filed, those above height `h`. -/
def raised (hash : HashFunction) (leaves : List Bytes) (i : Nat) : (h k : Nat) → View → View
  | _, 0, v => v
  | h, k + 1, v => raised hash leaves i (h + 1) k
    (v.put (StoreKey.node (block (h + 1) (i / 2 ^ (h + 1)))).bytes
      (hash.blockHash leaves (h + 1) (i / 2 ^ (h + 1))).toBytes)

theorem raised_of_ne {leaves : List Bytes} {i h k : Nat} {key : Bytes}
    (hne : ∀ j, h ≤ j → j < h + k → key ≠ (StoreKey.node (block (j + 1) (i / 2 ^ (j + 1)))).bytes) :
    raised hash leaves i h k v key = v key := by
  induction k generalizing h v with
  | zero => rfl
  | succ k ih =>
      rw [raised, ih (fun j hj hj' => hne j (by omega) (by omega)),
        View.put_of_ne _ _ (hne h le_rfl (by omega))]

/-- The blocks around a leaf of the log are apart. -/
theorem block_ne_of_lt {n i j j' : Nat} (hle : n ≤ 2 ^ 63) (hi : i < n) (hj : j ≤ depth n)
    (hj' : j' ≤ depth n) (hne : j ≠ j') : block j (i / 2 ^ j) ≠ block j' (i / 2 ^ j') := by
  intro heq
  have hinj := (block_inj (inRange_of_le_depth hle hi hj) (inRange_of_le_depth hle hi hj')).1 heq
  exact hne hinj.1

theorem raised_of_mem {leaves : List Bytes} {i h k j : Nat} (hle : leaves.length ≤ 2 ^ 63)
    (hi : i < leaves.length) (hk : h + k ≤ depth leaves.length) (hj : h ≤ j) (hj' : j < h + k) :
    raised hash leaves i h k v (StoreKey.node (block (j + 1) (i / 2 ^ (j + 1)))).bytes =
      some (hash.blockHash leaves (j + 1) (i / 2 ^ (j + 1))).toBytes := by
  induction k generalizing h v with
  | zero => omega
  | succ k ih =>
      rw [raised]
      rcases Nat.eq_or_lt_of_le hj with rfl | hlt
      · rw [raised_of_ne, View.put_self]
        intro j' hj₁ hj₂
        apply StoreKey.bytes_ne
        rw [ne_eq, StoreKey.node.injEq]
        exact block_ne_of_lt hle hi (by omega) (by omega) (by omega)
      · exact ih (by omega) hlt (by omega)

/-- The walk up from a leaf files the hash of every block around it, as long as the hashes beside
the path can be read. -/
theorem outcome_raise {leaves : List Bytes} {i h k : Nat} {size : UInt64}
    (hle : leaves.length ≤ 2 ^ 63) (hi : i < leaves.length) (hk : h + k = depth leaves.length)
    (hbeside : ∀ j, h ≤ j → j < depth leaves.length →
      answer now (Tree.siblingHash hash size (block j (beside (i / 2 ^ j)))) v =
        .ok (hash.blockHash leaves j (beside (i / 2 ^ j)))) :
    outcome now (Tree.raise hash size (blocksAbove h k i) (hash.blockHash leaves h (i / 2 ^ h))) v =
      (.ok (), raised hash leaves i h k v) := by
  induction k generalizing h v with
  | zero => rfl
  | succ k ih =>
      have hread : outcome now (Query.toUpdate
          (Tree.siblingHash hash size (block h (beside (i / 2 ^ h))))) v =
          (.ok (hash.blockHash leaves h (beside (i / 2 ^ h))), v) := by
        rw [outcome_toUpdate, hbeside h le_rfl (by omega)]
      have hparent := parent_block_div hle hi (j := h) (by omega)
      rw [blocksAbove_succ, Tree.raise, sibling_block (inRange_parent hle hi (by omega)),
        outcome_bind_of_ok hread, combine_path hash hle hi (by omega), hparent, raised]
      show outcome now (Tree.raise hash size _ _) _ = _
      apply ih (by omega)
      intro j hj hj'
      rw [answer_siblingHash_put _ size, hbeside j (by omega) hj']
      intro heq
      have hrange : InRange j (beside (i / 2 ^ j)) := (inRange_parent hle hi hj').beside
      obtain ⟨rfl, hsame⟩ :=
        (block_inj hrange (inRange_of_le_depth hle hi (j := h + 1) (by omega))).1 heq
      exact beside_ne _ hsame

end

/-! ## The longer log -/

section

variable {hash : HashFunction} {leaves : List Bytes} {v : View} {now : Timestamp}

/-- A block that starts at or before leaf `n` but is not around it ends at or before it. -/
theorem end_le_of_ne {n j b : Nat} (hstart : b * 2 ^ j ≤ n) (hne : b ≠ n / 2 ^ j) :
    (b + 1) * 2 ^ j ≤ n := by
  have hpos : 0 < 2 ^ j := Nat.two_pow_pos j
  have hle : b ≤ n / 2 ^ j := (Nat.le_div_iff_mul_le hpos).2 hstart
  calc (b + 1) * 2 ^ j ≤ n / 2 ^ j * 2 ^ j := Nat.mul_le_mul_right _ (by omega)
    _ ≤ n := Nat.div_mul_le_self n _

/-- A block beside the path of the new leaf is read as the longer log has it: it is empty, or full
and not touched by the new leaf. -/
theorem Represents.answer_siblingHash_concat (h : Represents hash leaves v) {bytes : Bytes}
    (hlt : leaves.length < 2 ^ 63) {j : Nat} (hj : j < depth (leaves.length + 1)) :
    answer now (Tree.siblingHash hash (UInt64.ofNat (leaves.length + 1))
        (block j (beside (leaves.length / 2 ^ j))))
        (v.put (StoreKey.leaf (UInt64.ofNat leaves.length)).bytes bytes) =
      .ok (hash.blockHash (leaves ++ [bytes]) j (beside (leaves.length / 2 ^ j))) := by
  have hrange : InRange j (beside (leaves.length / 2 ^ j)) :=
    (inRange_parent (n := leaves.length + 1) (by omega) (by omega) hj).beside
  have hleft := toNat_left_block hrange
  have hpast : UInt64.ofNat (leaves.length + 1) ≤ (block j (beside (leaves.length / 2 ^ j))).left ↔
      leaves.length + 1 ≤ beside (leaves.length / 2 ^ j) * 2 ^ j := by
    rw [UInt64.le_iff_toNat_le, hleft, toNat_ofNat_of_le (by omega)]
  rw [Tree.siblingHash]
  split
  · rename_i hge
    rw [blockHash_of_le hash (by simpa using hpast.1 hge), answer_done]
  · rename_i hnot
    have hstart : beside (leaves.length / 2 ^ j) * 2 ^ j ≤ leaves.length := by
      by_contra hgt
      exact hnot (hpast.2 (by omega))
    have hend := end_le_of_ne hstart (beside_ne _)
    have hpos : 0 < 2 ^ j := Nat.two_pow_pos j
    have hbelow : beside (leaves.length / 2 ^ j) * 2 ^ j < leaves.length := by
      rw [Nat.add_mul, Nat.one_mul] at hend
      omega
    have hother : (block j (beside (leaves.length / 2 ^ j))).left ≠ UInt64.ofNat leaves.length := by
      rw [ne_eq, ← UInt64.toNat_inj, hleft, toNat_ofNat_of_le hlt.le]
      omega
    rw [blockHash_append hash [bytes] hend, @answer_nodeHash_congr hash now _ v]
    · exact h.answer_nodeHash hlt.le (fun _ => hbelow) (hend.trans (le_two_pow_depth _))
    · exact View.put_of_ne _ _ (StoreKey.bytes_ne (by simpa using hother))
    · exact View.put_of_ne _ _ (StoreKey.bytes_ne (by simp))

/-- The nodes of the longer log: the blocks around the new leaf, and the old ones that are not. -/
theorem filed_node_concat_iff (hlt : leaves.length < 2 ^ 63) {bytes value : Bytes} {s : Span} :
    Filed hash (leaves ++ [bytes]) (.node s) value ↔
      (∃ j, j < depth (leaves.length + 1) ∧ s = block (j + 1) (leaves.length / 2 ^ (j + 1)) ∧
        value = (hash.blockHash (leaves ++ [bytes]) (j + 1)
          (leaves.length / 2 ^ (j + 1))).toBytes) ∨
      (∀ j, j < depth (leaves.length + 1) → s ≠ block (j + 1) (leaves.length / 2 ^ (j + 1))) ∧
        Filed hash leaves (.node s) value := by
  have hlength : (leaves ++ [bytes]).length = leaves.length + 1 := by simp
  have hright : (rootFor (UInt64.ofNat (leaves ++ [bytes]).length)).right.toNat =
      2 ^ depth (leaves.length + 1) := by
    rw [toNat_right_rootFor (by omega), hlength]
  have hright' := toNat_right_rootFor hlt.le
  constructor
  · intro hfiled
    cases hfiled with
    | @node j b hbelow hwithin =>
        rw [hright] at hwithin
        rw [hlength] at hbelow
        by_cases haround : b = leaves.length / 2 ^ (j + 1)
        · subst haround
          exact Or.inl ⟨j, le_depth_of_within hwithin, rfl, rfl⟩
        · have hend := end_le_of_ne (Nat.lt_succ_iff.1 hbelow) haround
          have hpos : 0 < 2 ^ (j + 1) := Nat.two_pow_pos _
          refine Or.inr ⟨?_, ?_⟩
          · intro j' hj' heq
            have hrange : InRange (j + 1) b := le_trans hend (by omega)
            have hrange' := inRange_of_le_depth (n := leaves.length + 1) (i := leaves.length)
              (j := j' + 1) (by omega) (by omega) (by omega)
            obtain ⟨hsame, rfl⟩ := (block_inj hrange hrange').1 heq
            exact haround (by rw [hsame])
          · rw [blockHash_append hash [bytes] hend]
            apply Filed.node
            · rw [Nat.add_mul, Nat.one_mul] at hend
              omega
            · rw [hright']
              exact hend.trans (le_two_pow_depth _)
  · rintro (⟨j, hj, rfl, rfl⟩ | ⟨hapart, hfiled⟩)
    · apply Filed.node
      · rw [hlength]
        exact Nat.lt_succ_of_le (Nat.div_mul_le_self _ _)
      · rw [hright]
        exact block_within (Nat.lt_succ_self _) hj
    · cases hfiled with
      | @node j b hbelow hwithin =>
          rw [hright'] at hwithin
          have hmono : 2 ^ depth leaves.length ≤ 2 ^ depth (leaves.length + 1) :=
            Nat.pow_le_pow_right Nat.two_pos (depth_mono (Nat.le_succ _))
          have hj : j + 1 ≤ depth (leaves.length + 1) :=
            le_depth_of_within (hwithin.trans hmono)
          have hend := end_le_of_ne hbelow.le fun heq => hapart j hj (by rw [heq])
          rw [← blockHash_append hash [bytes] hend]
          apply Filed.node
          · rw [hlength]
            omega
          · rw [hright]
            exact hwithin.trans hmono

/-- The view after an append to the log `leaves`. -/
def appended (hash : HashFunction) (leaves : List Bytes) (bytes : Bytes) (v : View) : View :=
  (raised hash (leaves ++ [bytes]) leaves.length 0 (depth (leaves.length + 1))
    (v.put (StoreKey.leaf (UInt64.ofNat leaves.length)).bytes bytes)).put StoreKey.size.bytes
      (word64 (UInt64.ofNat (leaves.length + 1)))

theorem appended_leaf (bytes : Bytes) (index : UInt64) :
    appended hash leaves bytes v (StoreKey.leaf index).bytes =
      if index = UInt64.ofNat leaves.length then some bytes
      else v (StoreKey.leaf index).bytes := by
  rw [appended, View.put_of_ne _ _ (StoreKey.bytes_ne (by simp)),
    raised_of_ne fun j _ _ => StoreKey.bytes_ne (by simp)]
  split
  · rename_i heq
    rw [heq, View.put_self]
  · rename_i hne
    exact View.put_of_ne _ _ (StoreKey.bytes_ne (by simpa using hne))

theorem appended_node_of_path (hlt : leaves.length < 2 ^ 63) (bytes : Bytes) {j : Nat}
    (hj : j < depth (leaves.length + 1)) :
    appended hash leaves bytes v
        (StoreKey.node (block (j + 1) (leaves.length / 2 ^ (j + 1)))).bytes =
      some (hash.blockHash (leaves ++ [bytes]) (j + 1) (leaves.length / 2 ^ (j + 1))).toBytes := by
  have hlength : (leaves ++ [bytes]).length = leaves.length + 1 := by simp
  rw [appended, View.put_of_ne _ _ (StoreKey.bytes_ne (by simp)),
    raised_of_mem (by omega) (by omega) (by rw [hlength]; omega) (Nat.zero_le j) (by omega)]

theorem appended_node_of_apart (bytes : Bytes) {s : Span}
    (hapart : ∀ j, j < depth (leaves.length + 1) →
      s ≠ block (j + 1) (leaves.length / 2 ^ (j + 1))) :
    appended hash leaves bytes v (StoreKey.node s).bytes = v (StoreKey.node s).bytes := by
  rw [appended, View.put_of_ne _ _ (StoreKey.bytes_ne (by simp)), raised_of_ne,
    View.put_of_ne _ _ (StoreKey.bytes_ne (by simp))]
  intro j _ hj
  exact StoreKey.bytes_ne (by simpa using hapart j (by omega))

theorem appended_size (bytes : Bytes) :
    appended hash leaves bytes v StoreKey.size.bytes =
      some (word64 (UInt64.ofNat (leaves.length + 1))) := View.put_self _ _ _

/-- Nothing else is filed. -/
theorem appended_of_ne (bytes : Bytes) {key : Bytes} (hne : ∀ k : StoreKey, key ≠ k.bytes) :
    appended hash leaves bytes v key = v key := by
  rw [appended, View.put_of_ne _ _ (hne _), raised_of_ne fun j _ _ => hne _,
    View.put_of_ne _ _ (hne _)]

theorem Represents.appended_leaf_iff (h : Represents hash leaves v)
    (hlt : leaves.length < 2 ^ 63) (bytes : Bytes) (index : UInt64) (value : Bytes) :
    appended hash leaves bytes v (StoreKey.leaf index).bytes = some value ↔
      Filed hash (leaves ++ [bytes]) (.leaf index) value := by
  have hlength : (leaves ++ [bytes]).length = leaves.length + 1 := by simp
  have hindex : index = UInt64.ofNat leaves.length ↔ index.toNat = leaves.length := by
    rw [← UInt64.toNat_inj, toNat_ofNat_of_le hlt.le]
  rw [filed_leaf_iff (by omega), appended_leaf, h.get_leaf hlt.le]
  split
  · rename_i heq
    rw [hindex.1 heq, List.getElem?_concat_length]
  · rename_i hne
    rw [hindex] at hne
    rcases Nat.lt_or_ge index.toNat leaves.length with hless | hmore
    · rw [List.getElem?_append_left hless]
    · rw [List.getElem?_eq_none hmore, List.getElem?_eq_none (by omega)]

theorem Represents.appended_node_iff (h : Represents hash leaves v)
    (hlt : leaves.length < 2 ^ 63) (bytes : Bytes) (s : Span) (value : Bytes) :
    appended hash leaves bytes v (StoreKey.node s).bytes = some value ↔
      Filed hash (leaves ++ [bytes]) (.node s) value := by
  rw [filed_node_concat_iff hlt]
  by_cases haround : ∃ j, j < depth (leaves.length + 1) ∧
      s = block (j + 1) (leaves.length / 2 ^ (j + 1))
  · obtain ⟨j, hj, rfl⟩ := haround
    rw [appended_node_of_path hlt bytes hj]
    constructor
    · intro hvalue
      cases hvalue
      exact Or.inl ⟨j, hj, rfl, rfl⟩
    · rintro (⟨j', hj', hsame, rfl⟩ | ⟨hapart, -⟩)
      · -- a block tells its height
        have hjj : j = j' := by
          by_contra hne
          have hne' : j + 1 ≠ j' + 1 := by omega
          exact block_ne_of_lt (n := leaves.length + 1) (by omega) (by omega) (by omega)
            (by omega) hne' hsame
        rw [hjj]
      · exact absurd rfl (hapart j hj)
  · have hapart : ∀ j, j < depth (leaves.length + 1) →
        s ≠ block (j + 1) (leaves.length / 2 ^ (j + 1)) :=
      fun j hj heq => haround ⟨j, hj, heq⟩
    rw [appended_node_of_apart bytes hapart, h.get_iff]
    constructor
    · intro hfiled
      exact Or.inr ⟨hapart, hfiled⟩
    · rintro (⟨j, hj, hsame, -⟩ | ⟨-, hfiled⟩)
      · exact absurd hsame (hapart j hj)
      · exact hfiled

theorem appended_size_iff (bytes value : Bytes) :
    appended hash leaves bytes v StoreKey.size.bytes = some value ↔
      Filed hash (leaves ++ [bytes]) .size value := by
  have hlength : (leaves ++ [bytes]).length = leaves.length + 1 := by simp
  rw [appended_size]
  constructor
  · intro hvalue
    cases hvalue
    have hfiled : Filed hash (leaves ++ [bytes]) .size
        (word64 (UInt64.ofNat (leaves ++ [bytes]).length)) := Filed.size (by omega)
    rwa [hlength] at hfiled
  · intro hfiled
    cases hfiled with
    | size _ => rw [hlength]

theorem Represents.appended_get_iff (h : Represents hash leaves v) (hlt : leaves.length < 2 ^ 63)
    (bytes : Bytes) (k : StoreKey) (value : Bytes) :
    appended hash leaves bytes v k.bytes = some value ↔ Filed hash (leaves ++ [bytes]) k value := by
  cases k with
  | leaf index => exact h.appended_leaf_iff hlt bytes index value
  | node s => exact h.appended_node_iff hlt bytes s value
  | size => exact appended_size_iff bytes value

/-- The view after an append represents the longer log. -/
theorem Represents.append (h : Represents hash leaves v) (hlt : leaves.length < 2 ^ 63)
    (bytes : Bytes) : Represents hash (leaves ++ [bytes]) (appended hash leaves bytes v) := by
  intro key value
  by_cases hkey : ∃ k : StoreKey, k.bytes = key
  · obtain ⟨k, rfl⟩ := hkey
    rw [h.appended_get_iff hlt]
    constructor
    · intro hfiled
      exact ⟨k, rfl, hfiled⟩
    · rintro ⟨k', hk', hfiled⟩
      rwa [← StoreKey.bytes_inj hk']
  · rw [appended_of_ne bytes fun k heq => hkey ⟨k, heq.symm⟩, h]
    constructor
    · rintro ⟨k, hk, -⟩
      exact absurd ⟨k, hk⟩ hkey
    · rintro ⟨k, hk, -⟩
      exact absurd ⟨k, hk⟩ hkey

/-- An append answers the number of leaves before it. -/
theorem Represents.outcome_append (h : Represents hash leaves v) (now : Timestamp)
    (hlt : leaves.length < 2 ^ 63) (bytes : Bytes) :
    outcome now (Tree.appendUpdate hash bytes) v =
      (.ok (UInt64.ofNat leaves.length), appended hash leaves bytes v) := by
  have hlength : (leaves ++ [bytes]).length = leaves.length + 1 := by simp
  have hsize : outcome now (Query.toUpdate (Tree.reading Layout.size)) v =
      (.ok (UInt64.ofNat leaves.length), v) := by
    rw [outcome_toUpdate, h.answer_size]
  have hown : hash bytes = hash.blockHash (leaves ++ [bytes]) 0 (leaves.length / 2 ^ 0) := by
    symm
    apply blockHash_zero_of_getElem?
    simp
  have hdepth : 0 + depth (leaves.length + 1) = depth (leaves ++ [bytes]).length := by
    rw [hlength, Nat.zero_add]
  have hraise : outcome now (Tree.raise hash (UInt64.ofNat (leaves.length + 1))
      (blocksAbove 0 (depth (leaves.length + 1)) leaves.length)
      (hash.blockHash (leaves ++ [bytes]) 0 (leaves.length / 2 ^ 0)))
      (v.put (StoreKey.leaf (UInt64.ofNat leaves.length)).bytes bytes) =
        (.ok (), raised hash (leaves ++ [bytes]) leaves.length 0 (depth (leaves.length + 1))
          (v.put (StoreKey.leaf (UInt64.ofNat leaves.length)).bytes bytes)) := by
    apply outcome_raise (by omega) (by omega) hdepth
    intro j _ hj
    rw [hlength] at hj
    exact h.answer_siblingHash_concat hlt hj
  rw [Tree.appendUpdate, outcome_bind_of_ok hsize, ofNat_add_one]
  show outcome now (Tree.raise hash (UInt64.ofNat (leaves.length + 1))
    (path (UInt64.ofNat leaves.length) (UInt64.ofNat (leaves.length + 1))) (hash bytes) >>= _)
    (v.put (StoreKey.leaf (UInt64.ofNat leaves.length)).bytes bytes) = _
  rw [path_last hlt, hown, outcome_bind_of_ok hraise]
  rfl

theorem raised_congr {hash' : HashFunction} {i h k : Nat}
    (hsame : ∀ j, j ≤ h + k → hash.blockHash leaves j (i / 2 ^ j) =
      hash'.blockHash leaves j (i / 2 ^ j)) :
    raised hash leaves i h k v = raised hash' leaves i h k v := by
  induction k generalizing h v with
  | zero => rfl
  | succ k ih =>
      rw [raised, raised, hsame (h + 1) (by omega)]
      exact ih fun j hj => hsame j (by omega)

theorem Filed.congr_hash {hash' : HashFunction} (hle : leaves.length ≤ 2 ^ 63)
    (hsame : ∀ x ∈ Merkle.buildInputs hash leaves, hash x = hash' x) {k : StoreKey}
    {value : Bytes} :
    Filed hash leaves k value ↔ Filed hash' leaves k value := by
  have hnode : ∀ {j b : Nat}, (b + 1) * 2 ^ (j + 1) ≤
      (rootFor (UInt64.ofNat leaves.length)).right.toNat →
        hash.blockHash leaves (j + 1) b = hash'.blockHash leaves (j + 1) b := by
    intro j b hwithin
    rw [toNat_right_rootFor hle] at hwithin
    exact blockHash_congr_hash hash hle (le_depth_of_within hwithin) hsame
  constructor
  · intro hfiled
    cases hfiled with
    | leaf hat => exact .leaf hat
    | node hbelow hwithin =>
        rw [hnode hwithin]
        exact .node hbelow hwithin
    | size hpos => exact .size hpos
  · intro hfiled
    cases hfiled with
    | leaf hat => exact .leaf hat
    | node hbelow hwithin =>
        rw [← hnode hwithin]
        exact .node hbelow hwithin
    | size hpos => exact .size hpos

/-- To build a log is to hash `Merkle.buildInputs` and nothing else: under a function that hashes
those strings alike, the next append does the same. -/
theorem Represents.outcome_append_congr {hash' : HashFunction} (h : Represents hash leaves v)
    (now : Timestamp) (hlt : leaves.length < 2 ^ 63) (bytes : Bytes)
    (hsame : ∀ x ∈ Merkle.buildInputs hash (leaves ++ [bytes]), hash x = hash' x) :
    outcome now (Tree.appendUpdate hash bytes) v =
      outcome now (Tree.appendUpdate hash' bytes) v := by
  have hlength : (leaves ++ [bytes]).length = leaves.length + 1 := by simp
  have hbefore : ∀ x ∈ Merkle.buildInputs hash leaves, hash x = hash' x := by
    intro x hx
    apply hsame
    rw [buildInputs_concat]
    exact List.mem_append_left _ hx
  have h' : Represents hash' leaves v := by
    intro key value
    rw [h key value]
    constructor
    · rintro ⟨k, hk, hfiled⟩
      exact ⟨k, hk, (Filed.congr_hash hlt.le hbefore).1 hfiled⟩
    · rintro ⟨k, hk, hfiled⟩
      exact ⟨k, hk, (Filed.congr_hash hlt.le hbefore).2 hfiled⟩
  rw [h.outcome_append now hlt, h'.outcome_append now hlt, appended, appended, raised_congr]
  intro j hj
  exact blockHash_congr_hash hash (by omega) (by rw [hlength]; omega) hsame

end

end OwnershipLog
