import OwnershipLog.Proofs.Merkle.Padding
import OwnershipLog.Proofs.Tree.Append
import OwnershipLog.Proofs.Tree.Numbered
import OwnershipLog.Proofs.Wire.Domain

/-!
# Holes below the size

A store may count leaves that it does not have. A proof misses only the leaf that it is for.
Wherever it looks for the hash of a node and finds nothing it goes on with zero, the hash of a
span that holds no leaf yet, at the root as well as beside the path (`View.hashAt`); so does an
append, and the next head carries what comes of it. Only a verifier notices: zero must not stand
beside a path where the log has leaves, so a proof that was read over such a hole is worth
nothing.
-/

namespace OwnershipLog

open OwnershipLog.Span Transaction

namespace Span

theorem key_ne_size (span : Span) : span.key ≠ .size := by
  rw [key]
  split <;> simp

theorem key_ne_node {span other : Span} (h : span ≠ other) : span.key ≠ .node other := by
  rw [key]
  split
  · simp
  · simpa using h

/-- A node beside the path of a leaf is not read from the leaf. -/
theorem key_beside_ne_leaf {n i j : Nat} (hn : n ≤ 2 ^ 63) (hi : i < n) (hj : j < depth n) :
    (block j (beside (i / 2 ^ j))).key ≠ .leaf (UInt64.ofNat i) := by
  have hrange : InRange j (beside (i / 2 ^ j)) := (inRange_parent hn hi hj).beside
  rw [key, isLeaf_block hrange]
  cases j with
  | zero =>
      have hleft : (block 0 (beside (i / 2 ^ 0))).left.toNat = beside (i / 2 ^ 0) * 2 ^ 0 :=
        toNat_left_block hrange
      rw [if_pos (by simp), ne_eq, StoreKey.leaf.injEq, ← UInt64.toNat_inj, hleft,
        toNat_ofNat_of_le (by omega), pow_zero, Nat.div_one, Nat.mul_one]
      exact beside_ne i
  | succ j => simp

end Span

namespace View

variable {hash : HashFunction} {v : View}

/-- The node over the span should be known in a log of this size, and nothing is filed for it. -/
def Hole (v : View) (size : UInt64) (span : Span) : Prop :=
  span.left < size ∧ v span.key.bytes = none

theorem hashAt_of_none {span : Span} (h : v span.key.bytes = none) :
    v.hashAt hash span = Digest.zero := by
  rw [hashAt, h]

theorem Hole.hashBeside_eq {size : UInt64} {span : Span} (h : v.Hole size span.sibling) :
    v.hashBeside hash size span = Digest.zero := by
  rw [hashBeside, if_neg (UInt64.not_le.2 h.1), hashAt_of_none h.2]

theorem hashAt_put_of_ne {span : Span} {key : StoreKey} (h : span.key ≠ key) (value : Bytes) :
    (v.put key.bytes value).hashAt hash span = v.hashAt hash span := by
  rw [hashAt, View.put_of_ne _ _ (StoreKey.bytes_ne h), hashAt]

theorem hashAt_put_node {span : Span} (h : span.isLeaf = false) (digest : Digest) :
    (v.put (StoreKey.node span).bytes digest.toBytes).hashAt hash span = digest := by
  have hkey : span.key = .node span := by rw [key, h, if_neg Bool.false_ne_true]
  rw [hashAt, hkey, View.put_self]
  simp only [h, if_neg Bool.false_ne_true, Octets.ofBytes?_toBytes, Option.getD_some]

theorem hashAt_put_leaf (i : Nat) (hi : i < 2 ^ 63) (bytes : Bytes) :
    (v.put (StoreKey.leaf (UInt64.ofNat i)).bytes bytes).hashAt hash (block 0 i) = hash bytes := by
  have hleaf : (block 0 i).isLeaf = true := isLeaf_block (by unfold InRange; omega)
  have hkey : (block 0 i).key = .leaf (UInt64.ofNat i) := by
    rw [key, if_pos hleaf, block, pow_zero, Nat.mul_one]
  rw [hashAt, hkey, View.put_self]
  simp only [hleaf, if_true]

/-- What is read beside the rest of a path does not change with a put that is not for it. -/
theorem map_hashBeside_put {n i h k : Nat} (hn : n ≤ 2 ^ 63) (hi : i < n) (hk : h + k ≤ depth n)
    (size : UInt64) {key : StoreKey} (value : Bytes)
    (hkey : ∀ j, h ≤ j → j < h + k → (block j (beside (i / 2 ^ j))).key ≠ key) :
    (blocksAbove h k i).map ((v.put key.bytes value).hashBeside hash size) =
      (blocksAbove h k i).map (v.hashBeside hash size) := by
  apply List.map_congr_left
  intro span hspan
  obtain ⟨j, hj, rfl⟩ := List.mem_map.1 hspan
  obtain ⟨hle, hlt⟩ := List.mem_range'_1.1 hj
  rw [hashBeside, hashBeside, sibling_block (inRange_parent hn hi (by omega)),
    hashAt_put_of_ne (hkey j hle hlt)]

section

variable {n : Nat}

theorem NodesFit.answer_siblingHashes (h : v.NodesFit) (now : Timestamp) (size : UInt64)
    (path : List Span) :
    answer now (Tree.siblingHashes hash size path) v = .ok (path.map (v.hashBeside hash size)) := by
  induction path with
  | nil => rfl
  | cons span path ih =>
      rw [Tree.siblingHashes, answer_bind_of_ok (h.answer_siblingHash hash now size span),
        answer_bind_of_ok ih]
      rfl

/-- The walk up from a leaf ends at the hash to which the path folds, holes and all. -/
theorem NodesFit.outcome_raise (hfit : v.NodesFit) (now : Timestamp) (size : UInt64) {i h k : Nat}
    {own : Digest} (hn : n ≤ 2 ^ 63) (hi : i < n) (hk : h + k = depth n)
    (hown : v.hashAt hash (block h (i / 2 ^ h)) = own) :
    ∃ v', outcome now (Tree.raise hash size (blocksAbove h k i) own) v = (.ok (), v') ∧
      v'.hashAt hash (block (depth n) (i / 2 ^ depth n)) =
        Merkle.fold hash (blocksAbove h k i) own
          ((blocksAbove h k i).map (v.hashBeside hash size)) := by
  induction k generalizing h v own with
  | zero =>
      obtain rfl : h = depth n := by omega
      exact ⟨v, rfl, hown⟩
  | succ k ih =>
      have hparent := parent_block_div hn hi (j := h) (by omega)
      have hrange : InRange (h + 1) (i / 2 ^ (h + 1)) := inRange_of_le_depth hn hi (by omega)
      have hread : outcome now (Query.toUpdate
          (Tree.siblingHash hash size (block h (i / 2 ^ h)).sibling)) v =
          (.ok (v.hashBeside hash size (block h (i / 2 ^ h))), v) := by
        rw [outcome_toUpdate, hfit.answer_siblingHash]
      have hleaf : (block (h + 1) (i / 2 ^ (h + 1))).isLeaf = false := by
        rw [isLeaf_block hrange]
        rfl
      obtain ⟨v', hraise, hroot⟩ := ih (hfit.put_node (block (h + 1) (i / 2 ^ (h + 1))) _)
        (by omega) (hashAt_put_node hleaf _)
      rw [map_hashBeside_put hn hi (by omega) size _ fun j hj hj' => key_ne_node ?_] at hroot
      · refine ⟨v', ?_, ?_⟩
        · rw [blocksAbove_succ, Tree.raise, outcome_bind_of_ok hread, hparent]
          exact hraise
        · rw [hroot, blocksAbove_succ, List.map_cons, Merkle.fold_cons]
      · intro heq
        have hother : InRange j (beside (i / 2 ^ j)) :=
          (inRange_parent hn hi (by omega)).beside
        obtain ⟨rfl, hsame⟩ := (block_inj hother hrange).1 heq
        exact beside_ne _ hsame

/-- An append over holes: the root that it leaves is the hash to which the path folds. -/
theorem Numbered.outcome_append_fold (hash : HashFunction) (h : v.Numbered n) (hn : n < 2 ^ 63)
    (now : Timestamp) (bytes : Bytes) :
    ∃ v', outcome now (Tree.appendUpdate hash bytes) v = (.ok (UInt64.ofNat n), v') ∧
      v'.Numbered (n + 1) ∧
      v'.hashAt hash (rootFor (UInt64.ofNat (n + 1))) =
        Merkle.fold hash (path (UInt64.ofNat n) (UInt64.ofNat (n + 1))) (hash bytes)
          ((path (UInt64.ofNat n) (UInt64.ofNat (n + 1))).map
            (v.hashBeside hash (UInt64.ofNat (n + 1)))) := by
  obtain ⟨v', houtcome, hnumbered⟩ := h.exists_outcome_append hash now bytes
  refine ⟨v', houtcome, hnumbered, ?_⟩
  have hnat : (UInt64.ofNat (n + 1)).toNat = n + 1 := toNat_ofNat_of_le hn
  have hpath := path_last hn
  have hroot : rootFor (UInt64.ofNat (n + 1)) =
      block (depth (n + 1)) (n / 2 ^ depth (n + 1)) := by
    rw [rootFor_eq_block (by omega), hnat,
      Nat.div_eq_of_lt ((Nat.lt_succ_self n).trans_le (le_two_pow_depth _))]
  have hsize : outcome now (Query.toUpdate (Tree.reading Layout.size)) v =
      (.ok (UInt64.ofNat n), v) := by
    rw [outcome_toUpdate, h.answer_size]
  have hfit : (v.put (StoreKey.leaf (UInt64.ofNat n)).bytes bytes).NodesFit :=
    h.nodesFit.put_of_ne (by simp) bytes
  have hown : (v.put (StoreKey.leaf (UInt64.ofNat n)).bytes bytes).hashAt hash
      (block 0 (n / 2 ^ 0)) = hash bytes := by
    rw [pow_zero, Nat.div_one, hashAt_put_leaf n hn]
  obtain ⟨v₁, hraise, hfold⟩ := hfit.outcome_raise now (UInt64.ofNat (n + 1))
    (by omega) (Nat.lt_succ_self n) (Nat.zero_add _) hown
  rw [map_hashBeside_put (by omega) (Nat.lt_succ_self n) (Nat.zero_add _).le _ _
    fun j _ hj => key_beside_ne_leaf (by omega) (Nat.lt_succ_self n) (by omega)] at hfold
  -- The view after the append is the one after its raise, but for the size.
  have hlast : v' = v₁.put StoreKey.size.bytes (word64 (UInt64.ofNat (n + 1))) := by
    rw [Tree.appendUpdate, outcome_bind_of_ok hsize, ofNat_add_one] at houtcome
    change outcome now (Tree.raise hash _ (path _ _) _ >>= _) (v.put _ _) = _ at houtcome
    rw [hpath, outcome_bind_of_ok hraise] at houtcome
    cases houtcome
    rfl
  rw [hlast, hashAt_put_of_ne (key_ne_size _), hroot, hfold, hpath]

theorem Numbered.answer_proof_of_none (h : v.Numbered n) (now : Timestamp) {index : UInt64}
    (hindex : index < UInt64.ofNat n) (hnone : v (StoreKey.leaf index).bytes = none) :
    answer now (Tree.proofQuery hash index) v = .error (.store (.missing (.leaf index))) := by
  have hleaf : answer now (Tree.presentLeaf index) v =
      .error (.store (.missing (.leaf index))) := by
    rw [Tree.presentLeaf, answer_bind, Tree.reading, answer_mapError, Layout.leaf,
      Layout.leafBytes, answer_bind, answer, hnone]
    rfl
  rw [Tree.proofQuery, answer_bind_of_ok (h.answer_size now), if_neg (UInt64.not_le.2 hindex),
    answer_bind, hleaf]
  rfl

/-- A proof over holes: the leaf must be there, and that is all. -/
theorem Numbered.answer_proof (h : v.Numbered n) (now : Timestamp) {index : UInt64}
    (hindex : index < UInt64.ofNat n) {bytes : Bytes} {leaf : Leaf}
    (hsome : v (StoreKey.leaf index).bytes = some bytes) (hdecode : Leaf.decode bytes = .ok leaf) :
    answer now (Tree.proofQuery hash index) v =
      .ok ⟨⟨UInt64.ofNat n, now, v.hashAt hash (rootFor (UInt64.ofNat n)), none⟩, index, leaf,
        (path index (UInt64.ofNat n)).map (v.hashBeside hash (UInt64.ofNat n))⟩ := by
  have hbytes : answer now (Layout.leafBytes index) v = .ok (some bytes) := by
    rw [Layout.leafBytes, answer, hsome]
    rfl
  have hread : answer now (Tree.reading (Layout.leaf index)) v = .ok (some leaf) := by
    apply answer_reading
    rw [Layout.leaf, answer_bind_of_ok hbytes]
    show answer now (Layout.leafOf index bytes >>= _) v = _
    rw [Layout.leafOf, hdecode]
    rfl
  have hleaf : answer now (Tree.presentLeaf index) v = .ok leaf := by
    rw [Tree.presentLeaf, answer_bind_of_ok hread]
    rfl
  rw [Tree.proofQuery, answer_bind_of_ok (h.answer_size now), if_neg (UInt64.not_le.2 hindex),
    answer_bind_of_ok hleaf, answer_bind_of_ok (h.answer_headAt hash now),
    answer_bind_of_ok (h.nodesFit.answer_siblingHashes now _ _)]
  rfl

/-- Zero where the log has leaves is no path. -/
theorem Hole.verifyHashes_eq {p : InclusionProof} {span : Span}
    (h : v.Hole p.head.size span.sibling) (hspan : span ∈ path p.index p.head.size)
    (hhashes : p.hashes = (path p.index p.head.size).map (v.hashBeside hash p.head.size)) :
    p.verifyHashes hash = false := by
  rw [Bool.eq_false_iff]
  intro hverify
  obtain ⟨-, -, bytes, -, hzeros, -⟩ := InclusionProof.verifyHashes_iff_padding.1 hverify
  rw [hhashes, Merkle.zeros, Merkle.padding, List.map_map, List.map_inj_left] at hzeros
  have hzero := hzeros span hspan
  rw [Function.comp_apply, h.hashBeside_eq, decide_eq_decide] at hzero
  exact UInt64.not_le.2 h.1 (hzero.1 rfl)

end

end View

namespace Tree

section

variable {S R W : Type} [Store S R W] [LawfulStore S R W] {s : S} {n : Nat}

/-- What a store that counts `n` leaves answers, whatever it has lost of them. A proof is refused
as missing where its leaf is; where the leaf is there it is served, with zero for the root and for
each node beside the path that is lost, and with such a node it does not verify. An append is
accepted, and the head after it carries the root that it makes of zeros for the nodes lost beside
its path. -/
theorem holes_read_as_zero (hash : HashFunction) (hready : LawfulStore.Ready s)
    (h : (LawfulStore.view s).Numbered n) (hn : n ≤ 2 ^ 63) (now : Timestamp) :
    (∀ index : UInt64, index.toNat < n →
      (LawfulStore.view s (StoreKey.leaf index).bytes = none →
        (proof hash now index s).1 = .error (.store (.missing (.leaf index)))) ∧
      ∀ bytes leaf, LawfulStore.view s (StoreKey.leaf index).bytes = some bytes →
        Leaf.decode bytes = .ok leaf →
        ∃ p : InclusionProof, (proof hash now index s).1 = .ok p ∧
          p.head.size = UInt64.ofNat n ∧ p.index = index ∧ p.leaf = leaf ∧
          p.head.root = (LawfulStore.view s).hashAt hash (rootFor (UInt64.ofNat n)) ∧
          p.hashes = (path index (UInt64.ofNat n)).map
            ((LawfulStore.view s).hashBeside hash (UInt64.ofNat n)) ∧
          ((∃ span ∈ path index (UInt64.ofNat n),
            (LawfulStore.view s).Hole (UInt64.ofNat n) span.sibling) →
              p.verifyHashes hash = false)) ∧
    (n < 2 ^ 63 → ∀ (leaf : Leaf) (bytes : Bytes) (tree : Tree), leaf.encode = .ok bytes →
      ∃ tree' s', append hash now leaf tree s = (.ok (UInt64.ofNat n), tree', s') ∧
        ∀ later, (head hash later s').1 = .ok ⟨UInt64.ofNat (n + 1), later,
          Merkle.fold hash (path (UInt64.ofNat n) (UInt64.ofNat (n + 1))) (hash bytes)
            ((path (UInt64.ofNat n) (UInt64.ofNat (n + 1))).map
              ((LawfulStore.view s).hashBeside hash (UInt64.ofNat (n + 1)))), none⟩) := by
  constructor
  · intro index hlt
    have hindex : index < UInt64.ofNat n := by
      rwa [UInt64.lt_iff_toNat_lt, toNat_ofNat_of_le hn]
    obtain ⟨s', hquery, -⟩ := LawfulStore.query_eq now LogError.store (proofQuery hash index) hready
    refine ⟨fun hnone => ?_, fun bytes leaf hsome hdecode => ?_⟩
    · rw [proof, hquery, h.answer_proof_of_none now hindex hnone]
    · rw [proof, hquery, h.answer_proof now hindex hsome hdecode]
      refine ⟨_, rfl, rfl, rfl, rfl, rfl, rfl, ?_⟩
      rintro ⟨span, hspan, hhole⟩
      exact hhole.verifyHashes_eq hspan rfl
  · intro hroom leaf bytes tree hencode
    obtain ⟨v', houtcome, hnumbered, hroot⟩ := h.outcome_append_fold hash hroom now bytes
    obtain ⟨s', hupdate, hready', hview⟩ :=
      LawfulStore.update_eq now LogError.store (appendUpdate hash bytes) hready
    rw [houtcome] at hupdate
    rw [committed_of_ok houtcome] at hview
    refine ⟨⟨UInt64.ofNat n + 1⟩, s', by simp only [append, hencode, hupdate], fun later => ?_⟩
    obtain ⟨s₁, hquery, -⟩ := LawfulStore.query_eq later LogError.store (headQuery hash) hready'
    rw [head, hquery, hview, hnumbered.answer_head hash, hroot]

end

/-! ### Half a log -/

/-- A store that counts two leaves and has the first one only, and no node over them. -/
def halfLog : Durable :=
  Durable.ofDatabase (.plain (((∅ : Contents).insert (StoreKey.leaf 0).bytes
    ((keyed []).encode.toOption.getD [])).insert StoreKey.size.bytes (word64 2)))

theorem ready_halfLog : LawfulStore.Ready halfLog := ⟨_, rfl, rfl, rfl⟩

theorem view_halfLog : LawfulStore.view halfLog =
    (View.empty.put (StoreKey.leaf 0).bytes ((keyed []).encode.toOption.getD [])).put
      StoreKey.size.bytes (word64 2) := by
  have hnone : (fun k => (∅ : Contents)[k]?) = View.empty := by
    funext k
    simp [View.empty]
  show (fun k => (((∅ : Contents).insert _ _).insert _ _)[k]?) = _
  rw [Durable.view_insert, Durable.view_insert, hnone]

theorem numbered_halfLog : (LawfulStore.view halfLog).Numbered 2 := by
  rw [view_halfLog]
  refine ⟨fun now => View.answer_size_put now _ 2, ?_⟩
  have hempty : View.empty.NodesFit := View.numbered_empty.nodesFit
  exact (hempty.put_of_ne (by simp) _).put_of_ne (by simp) _

theorem get_halfLog_of_ne {key : StoreKey} (hleaf : key ≠ .leaf 0) (hsize : key ≠ .size) :
    LawfulStore.view halfLog key.bytes = none := by
  rw [view_halfLog, View.put_of_ne _ _ (StoreKey.bytes_ne hsize),
    View.put_of_ne _ _ (StoreKey.bytes_ne hleaf)]
  rfl

theorem exists_leaf_halfLog :
    ∃ bytes, LawfulStore.view halfLog (StoreKey.leaf 0).bytes = some bytes ∧
      (keyed []).encode = .ok bytes := by
  obtain ⟨bytes, hencode⟩ : ∃ bytes, (keyed []).encode = .ok bytes :=
    (Leaf.exists_encode_iff _).2 (by decide)
  refine ⟨bytes, ?_, hencode⟩
  rw [view_halfLog, View.put_of_ne _ _ (StoreKey.bytes_ne (by simp)), View.put_self, hencode]
  rfl

theorem hole_halfLog : (LawfulStore.view halfLog).Hole 2 (Span.leaf 0).sibling :=
  ⟨by decide, get_halfLog_of_ne (by decide) (by decide)⟩

/-- The second leaf is missing, and only its own proof says so. -/
theorem holes_read_as_zero_halfLog :
    LawfulStore.Ready halfLog ∧ (LawfulStore.view halfLog).Numbered 2 ∧ 2 ≤ 2 ^ 63 ∧
    (proof Suite.standard.hash Timestamp.epoch 1 halfLog).1 =
      .error (.store (.missing (.leaf 1))) ∧
    (∃ p : InclusionProof, (proof Suite.standard.hash Timestamp.epoch 0 halfLog).1 = .ok p ∧
      p.head.root = Digest.zero ∧ p.hashes = [Digest.zero] ∧
      p.verifyHashes Suite.standard.hash = false) ∧
    ∃ tree' s', append Suite.standard.hash Timestamp.epoch (keyed []) ⟨2⟩ halfLog =
      (.ok 2, tree', s') := by
  obtain ⟨hproof, happend⟩ := holes_read_as_zero Suite.standard.hash ready_halfLog
    numbered_halfLog (by decide) Timestamp.epoch
  obtain ⟨bytes, hsome, hencode⟩ := exists_leaf_halfLog
  obtain ⟨hmissing, -⟩ := hproof 1 (by decide)
  obtain ⟨-, hserved⟩ := hproof 0 (by decide)
  obtain ⟨p, hp, -, -, -, hroot, hhashes, hverify⟩ :=
    hserved bytes (keyed []) hsome (Leaf.decode_encode hencode)
  obtain ⟨tree', s', hok, -⟩ := happend (by decide) (keyed []) bytes ⟨2⟩ hencode
  have hpath : path 0 (UInt64.ofNat 2) = [Span.leaf 0] := by decide
  refine ⟨ready_halfLog, numbered_halfLog, by decide,
    hmissing (get_halfLog_of_ne (by decide) (by decide)), ⟨p, hp, ?_, ?_, ?_⟩, tree', s', hok⟩
  · rw [hroot, View.hashAt_of_none (get_halfLog_of_ne (by decide) (by decide))]
  · rw [hhashes, hpath, List.map_singleton]
    exact congrArg (fun digest => [digest]) hole_halfLog.hashBeside_eq
  · exact hverify ⟨Span.leaf 0, by rw [hpath]; exact List.mem_singleton_self _, hole_halfLog⟩

/-- So it is not so that a proof is refused wherever a node beside its path is missing, nor that an
append is. -/
theorem not_refused_over_holes :
    (¬ ∀ (s : Durable) (n : Nat) (index : UInt64), LawfulStore.Ready s →
      (LawfulStore.view s).Numbered n → n ≤ 2 ^ 63 → index.toNat < n →
      (∃ span ∈ path index (UInt64.ofNat n),
        (LawfulStore.view s).Hole (UInt64.ofNat n) span.sibling) →
      ∃ e, (proof Suite.standard.hash Timestamp.epoch index s).1 = .error e) ∧
    ¬ ∀ (s : Durable) (n : Nat) (tree : Tree), LawfulStore.Ready s →
      (LawfulStore.view s).Numbered n → n < 2 ^ 63 →
      (∃ span ∈ path (UInt64.ofNat n) (UInt64.ofNat (n + 1)),
        (LawfulStore.view s).Hole (UInt64.ofNat (n + 1)) span.sibling) →
      ∃ e, (append Suite.standard.hash Timestamp.epoch (keyed []) tree s).1 = .error e := by
  obtain ⟨bytes, hsome, hencode⟩ := exists_leaf_halfLog
  constructor
  · intro hrefused
    obtain ⟨e, he⟩ := hrefused halfLog 2 0 ready_halfLog numbered_halfLog (by decide) (by decide)
      ⟨Span.leaf 0, by decide, hole_halfLog⟩
    obtain ⟨s', hquery, -⟩ := LawfulStore.query_eq Timestamp.epoch LogError.store
      (proofQuery Suite.standard.hash 0) ready_halfLog
    rw [proof, hquery, numbered_halfLog.answer_proof Timestamp.epoch (by decide) hsome
      (Leaf.decode_encode hencode)] at he
    cases he
  · intro hrefused
    obtain ⟨e, he⟩ := hrefused halfLog 2 ⟨2⟩ ready_halfLog numbered_halfLog (by decide)
      ⟨⟨2, 4⟩, by decide, by decide, get_halfLog_of_ne (by decide) (by decide)⟩
    obtain ⟨v', houtcome, -⟩ := numbered_halfLog.outcome_append_fold Suite.standard.hash
      (by decide) Timestamp.epoch bytes
    obtain ⟨s', hupdate, -⟩ := LawfulStore.update_eq Timestamp.epoch LogError.store
      (appendUpdate Suite.standard.hash bytes) ready_halfLog
    rw [houtcome] at hupdate
    simp only [append, hencode, hupdate] at he
    cases he

end Tree

end OwnershipLog
