import OwnershipLog.Proofs.Tree.Inclusion

/-!
# What a root hash commits to

Two logs are compared block by block, from their roots down. Where a block has a leaf in
both, its hash is that of a string which each of the two hashed, so the strings are one or
collide; where it has a leaf in one log only, the other takes the hash zero for it, and a
string that was hashed has the hash zero. If neither happens, the two logs have the same
leaves at the same places inside every block with one hash (`getElem?_eq_of_blockHash`):
the converse of `blockHash_congr`. For roots of one height this is all of the log, its
length included (`eq_of_rootHash`).
-/

namespace OwnershipLog

open OwnershipLog.Span

section

variable {hash : HashFunction} {xs ys : List Bytes} {h b : Nat}

/-- The halves of a block with a leaf in it are hashed together while the log is built. -/
theorem halves_mem_buildInputs {leaves : List Bytes} (hle : leaves.length ≤ 2 ^ 63)
    (hlt : b * 2 ^ (h + 1) < leaves.length) (hh : h < depth leaves.length) :
    (hash.blockHash leaves h (2 * b)).toBytes ++ (hash.blockHash leaves h (2 * b + 1)).toBytes ∈
      Merkle.buildInputs hash leaves := by
  have hfirst : b * 2 ^ (h + 1) / 2 ^ h = 2 * b := by
    rw [pow_succ, mul_comm (2 ^ h) 2, ← mul_assoc, Nat.mul_div_cancel _ (Nat.two_pow_pos h),
      mul_comm]
  have hbeside : beside (2 * b) = 2 * b + 1 := by simp [beside]
  have hrange := inRange_parent hle hlt hh
  have hmem := joined_mem_buildInputs hash hle hlt hh
  rw [hfirst] at hrange
  rw [hfirst, hbeside, Span.joined, isLeftChild_block hrange.of_parent, if_pos (by simp)] at hmem
  exact hmem

/-- Blocks with one hash start past the end of both logs or of neither, if no leaf and no node has
the hash of a block without leaves. -/
theorem past_iff_of_blockHash (hxh : h ≤ depth xs.length) (hyh : h ≤ depth ys.length)
    (hxzero : hash.NowhereZero xs) (hyzero : hash.NowhereZero ys)
    (heq : hash.blockHash xs h b = hash.blockHash ys h b) :
    xs.length ≤ b * 2 ^ h ↔ ys.length ≤ b * 2 ^ h := by
  rw [← hxzero.blockHash_eq_zero_iff hxh, heq, hyzero.blockHash_eq_zero_iff hyh]

/-- Blocks with one hash have the same leaves at the same places, unless strings that were hashed
for the two logs collide, or one has the hash of a block without leaves. -/
theorem getElem?_eq_of_blockHash (hx : xs.length ≤ 2 ^ 63) (hy : ys.length ≤ 2 ^ 63)
    (hxh : h ≤ depth xs.length) (hyh : h ≤ depth ys.length)
    (hcollides : ¬ hash.Collides (Merkle.buildInputs hash xs) (Merkle.buildInputs hash ys))
    (hxzero : hash.NowhereZero xs) (hyzero : hash.NowhereZero ys)
    (heq : hash.blockHash xs h b = hash.blockHash ys h b) :
    ∀ i, b * 2 ^ h ≤ i → i < (b + 1) * 2 ^ h → xs[i]? = ys[i]? := by
  have hpast := past_iff_of_blockHash hxh hyh hxzero hyzero heq
  induction h generalizing b with
  | zero =>
      intro i hi hi'
      obtain rfl : i = b := by omega
      rcases Nat.lt_or_ge i xs.length with hlt | hge
      · have hlt' : i < ys.length := by omega
        have hxat := List.getElem?_eq_getElem hlt
        have hyat := List.getElem?_eq_getElem hlt'
        rw [blockHash_zero_of_getElem? hash hxat, blockHash_zero_of_getElem? hash hyat] at heq
        rw [hxat, hyat, hash.eq_of_not_collides hcollides (mem_buildInputs_of_getElem? hash hxat)
          (mem_buildInputs_of_getElem? hash hyat) heq]
      · rw [List.getElem?_eq_none hge, List.getElem?_eq_none (by omega)]
  | succ h ih =>
      intro i hi hi'
      rcases Nat.lt_or_ge (b * 2 ^ (h + 1)) xs.length with hlt | hge
      · have hlt' : b * 2 ^ (h + 1) < ys.length := by omega
        rw [blockHash_succ_of_lt hash hlt, blockHash_succ_of_lt hash hlt'] at heq
        -- the two logs hashed one string here, so both halves have one hash
        obtain ⟨hfirst, hsecond⟩ := List.append_inj
          (hash.eq_of_not_collides hcollides (halves_mem_buildInputs hx hlt (by omega))
            (halves_mem_buildInputs hy hlt' (by omega)) heq)
          (by simp [Octets.length_toBytes])
        have hhalf : ∀ c, hash.blockHash xs h c = hash.blockHash ys h c →
            c * 2 ^ h ≤ i → i < (c + 1) * 2 ^ h → xs[i]? = ys[i]? := by
          intro c hc
          exact ih (by omega) (by omega) hc
            (past_iff_of_blockHash (by omega) (by omega) hxzero hyzero hc) i
        have hleft : 2 * b * 2 ^ h = b * 2 ^ (h + 1) := by rw [pow_succ]; ring
        have hright : (2 * b + 1 + 1) * 2 ^ h = (b + 1) * 2 ^ (h + 1) := by rw [pow_succ]; ring
        rcases Nat.lt_or_ge i ((2 * b + 1) * 2 ^ h) with hbefore | hafter
        · exact hhalf (2 * b) (Octets.ext hfirst) (by omega) hbefore
        · exact hhalf (2 * b + 1) (Octets.ext hsecond) hafter (by omega)
      · rw [List.getElem?_eq_none (by omega), List.getElem?_eq_none (by omega)]

/-- Logs whose roots are of one height and have one hash are one log, or strings that were hashed
for them collide, or one has the hash of a block without leaves. -/
theorem eq_of_rootHash (hx : xs.length ≤ 2 ^ 63) (hy : ys.length ≤ 2 ^ 63)
    (hdepth : depth xs.length = depth ys.length) (heq : hash.rootHash xs = hash.rootHash ys) :
    xs = ys ∨ hash.Collides (Merkle.buildInputs hash xs) (Merkle.buildInputs hash ys) ∨
      ∃ x ∈ Merkle.buildInputs hash xs ++ Merkle.buildInputs hash ys, hash x = Digest.zero := by
  by_cases hcollides : hash.Collides (Merkle.buildInputs hash xs) (Merkle.buildInputs hash ys)
  · exact Or.inr (Or.inl hcollides)
  by_cases hzero : ∃ x ∈ Merkle.buildInputs hash xs ++ Merkle.buildInputs hash ys,
      hash x = Digest.zero
  · exact Or.inr (Or.inr hzero)
  have hxzero : hash.NowhereZero xs := nowhereZero_of_buildInputs hx fun x hmem hz =>
    hzero ⟨x, List.mem_append_left _ hmem, hz⟩
  have hyzero : hash.NowhereZero ys := nowhereZero_of_buildInputs hy fun y hmem hz =>
    hzero ⟨y, List.mem_append_right _ hmem, hz⟩
  rw [HashFunction.rootHash, HashFunction.rootHash, ← hdepth] at heq
  have hsame := getElem?_eq_of_blockHash hx hy le_rfl hdepth.le hcollides hxzero hyzero heq
  refine Or.inl (List.ext_getElem? fun i => ?_)
  rcases Nat.lt_or_ge i (2 ^ depth xs.length) with hin | hout
  · exact hsame i (by omega) (by omega)
  · have hxroom := le_two_pow_depth xs.length
    have hyroom := le_two_pow_depth ys.length
    rw [← hdepth] at hyroom
    rw [List.getElem?_eq_none (by omega), List.getElem?_eq_none (by omega)]

/-- The root span of a log tells the height of its root. -/
theorem depth_eq_of_rootFor {n m : Nat} (hn : n ≤ 2 ^ 63) (hm : m ≤ 2 ^ 63)
    (heq : rootFor (UInt64.ofNat n) = rootFor (UInt64.ofNat m)) : depth n = depth m := by
  have hdepth := (rootFor_eq_iff (by rwa [toNat_ofNat_of_le hn])
    (by rwa [toNat_ofNat_of_le hm])).1 heq
  rwa [toNat_ofNat_of_le hn, toNat_ofNat_of_le hm] at hdepth

end

/-- The bytes of a leaf determine it. -/
theorem Leaf.Written.bytes_injective : Function.Injective Leaf.Written.bytes := by
  rintro ⟨leaf, bytes, h⟩ ⟨leaf', bytes', h'⟩ heq
  obtain rfl : bytes = bytes' := heq
  obtain rfl : leaf = leaf' := Leaf.encode_inj h h'
  rfl

namespace Tree

variable {S R W S' R' W' : Type} [Store S R W] [LawfulStore S R W] [Store S' R' W']
  [LawfulStore S' R' W']

/-- Two logs that began in empty stores, whatever was offered to them, and whose roots are of one
height: if their heads state one root hash, they accepted the same leaves in the same order, so
their sizes agree as well; or else two different strings with one hash are found, one hashed to
build the first log and one to build the second, or a string with the hash zero. -/
theorem root_commits_to_log (hash : HashFunction) {s₀ : S} {s₀' : S'}
    (hready : LawfulStore.Ready s₀) (hempty : LawfulStore.view s₀ = View.empty)
    (hready' : LawfulStore.Ready s₀') (hempty' : LawfulStore.view s₀' = View.empty)
    (start start' : Timestamp) (events events' : List Event)
    (hle : (accepted events).length ≤ 2 ^ 63) (hle' : (accepted events').length ≤ 2 ^ 63)
    (hroot : rootFor (UInt64.ofNat (accepted events).length) =
      rootFor (UInt64.ofNat (accepted events').length)) :
    ∃ tree₀ s₁ results tree s tree₀' s₁' results' tree' s',
      attach start s₀ = (.ok tree₀, s₁) ∧ run hash events tree₀ s₁ = (results, tree, s) ∧
      attach start' s₀' = (.ok tree₀', s₁') ∧
      run hash events' tree₀' s₁' = (results', tree', s') ∧
      ∀ now now', ∃ head head', (Tree.head hash now s).1 = .ok head ∧
        (Tree.head hash now' s').1 = .ok head' ∧
        head.size.toNat = (accepted events).length ∧
        head'.size.toNat = (accepted events').length ∧
        (head.root = head'.root →
          accepted events = accepted events' ∨
          hash.Collides (Merkle.buildInputs hash (bytesOf (accepted events)))
            (Merkle.buildInputs hash (bytesOf (accepted events'))) ∨
          ∃ x ∈ Merkle.buildInputs hash (bytesOf (accepted events)) ++
            Merkle.buildInputs hash (bytesOf (accepted events')), hash x = Digest.zero) := by
  obtain ⟨tree₀, s₁, tree, s, hattach, hrun, h⟩ := exists_run_holds hash hready hempty start hle
  obtain ⟨tree₀', s₁', tree', s', hattach', hrun', h'⟩ :=
    exists_run_holds hash hready' hempty' start' hle'
  refine ⟨tree₀, s₁, _, tree, s, tree₀', s₁', _, tree', s', hattach, hrun, hattach', hrun', ?_⟩
  intro now now'
  obtain ⟨_, hhead, -⟩ := h.head hle now
  obtain ⟨_, hhead', -⟩ := h'.head hle' now'
  refine ⟨_, _, by rw [hhead], by rw [hhead'], toNat_ofNat_of_le hle, toNat_ofNat_of_le hle', ?_⟩
  intro heq
  have hdepth := depth_eq_of_rootFor hle hle' hroot
  rcases eq_of_rootHash (by rwa [length_bytesOf]) (by rwa [length_bytesOf])
    (by rwa [length_bytesOf, length_bytesOf]) heq with hbytes | hfound
  · exact Or.inl (List.map_injective_iff.2 Leaf.Written.bytes_injective hbytes)
  · exact Or.inr hfound

/-! ### Logs of three and of four leaves -/

/-- Three leaves and a fourth behind them under the standard hash: the roots differ, or the logs
exhibit a collision or a string with the hash zero. -/
theorem root_commits_to_log_offers :
    LawfulStore.Ready Versioned.empty ∧ LawfulStore.view Versioned.empty = View.empty ∧
    (accepted (offers [1, 2, 3])).length = 3 ∧ (accepted (offers [1, 2, 3, 4])).length = 4 ∧
    rootFor 3 = rootFor 4 ∧
    ∃ s s' : Versioned, ∃ head head',
      (Tree.head Suite.standard.hash Timestamp.epoch s).1 = .ok head ∧
      (Tree.head Suite.standard.hash Timestamp.epoch s').1 = .ok head' ∧
      head.size = 3 ∧ head'.size = 4 ∧
      (head.root ≠ head'.root ∨
        Suite.standard.hash.Collides
          (Merkle.buildInputs Suite.standard.hash (bytesOf (accepted (offers [1, 2, 3]))))
          (Merkle.buildInputs Suite.standard.hash (bytesOf (accepted (offers [1, 2, 3, 4])))) ∨
        ∃ x ∈ Merkle.buildInputs Suite.standard.hash (bytesOf (accepted (offers [1, 2, 3]))) ++
          Merkle.buildInputs Suite.standard.hash (bytesOf (accepted (offers [1, 2, 3, 4]))),
          Suite.standard.hash x = Digest.zero) := by
  have hready : LawfulStore.Ready Versioned.empty := Versioned.bounded_empty
  have hempty : LawfulStore.view Versioned.empty = View.empty := Versioned.current_empty
  have hthree := length_accepted_offers [1, 2, 3]
  have hfour := length_accepted_offers [1, 2, 3, 4]
  have hroot : rootFor 3 = rootFor 4 := by decide
  obtain ⟨-, -, -, -, s, -, -, -, -, s', -, -, -, -, hheads⟩ :=
    root_commits_to_log Suite.standard.hash hready hempty hready hempty Timestamp.epoch
      Timestamp.epoch (offers [1, 2, 3]) (offers [1, 2, 3, 4]) (by rw [hthree]; decide)
      (by rw [hfour]; decide) (by rw [hthree, hfour]; exact hroot)
  obtain ⟨head, head', hhead, hhead', hsize, hsize', hcommits⟩ :=
    hheads Timestamp.epoch Timestamp.epoch
  refine ⟨hready, hempty, hthree, hfour, hroot, s, s', head, head', hhead, hhead',
    UInt64.toNat_inj.1 (hsize.trans hthree), UInt64.toNat_inj.1 (hsize'.trans hfour), ?_⟩
  by_cases heq : head.root = head'.root
  · rcases hcommits heq with hsame | hfound
    · rw [hsame, hfour] at hthree
      exact absurd hthree (by decide)
    · exact Or.inr hfound
  · exact Or.inl heq

end Tree

end OwnershipLog
