import OwnershipLog.Proofs.Tree.Run
import OwnershipLog.Proofs.Tree.Timing

/-!
# Appends one after another

An append needs little of the store: a size, and under the keys of nodes nothing but
whole hashes (`View.Numbered`). From there it always succeeds, answers the size it
found and leaves one more, at every size a word can count to and whatever the hashes
are. `View.appendAll` is the view that a sequence of leaves leads to, and a run of
appends on a store of its own leads to it (`Tree.run_appends`).
-/

namespace OwnershipLog

open Transaction

/-- The key that the hash of a node is read under: a leaf is hashed from its bytes. -/
def Span.key (span : Span) : StoreKey := if span.isLeaf then .leaf span.left else .node span

namespace View

/-- The hash that a view has for a node: that of the bytes of a leaf, for any other the one that is
filed, and zero where nothing is filed. -/
def hashAt (hash : HashFunction) (v : View) (span : Span) : Digest :=
  match v span.key.bytes with
  | none => Digest.zero
  | some bytes => if span.isLeaf then hash bytes else (Octets.ofBytes? 32 bytes).getD Digest.zero

/-- The hash that a view has for the node beside a span; zero past the end of the log. -/
def hashBeside (hash : HashFunction) (v : View) (size : UInt64) (span : Span) : Digest :=
  if size ≤ span.sibling.left then Digest.zero else v.hashAt hash span.sibling

/-- What is filed under the key of a node is as wide as a hash. -/
def NodesFit (v : View) : Prop :=
  ∀ span bytes, v (StoreKey.node span).bytes = some bytes → bytes.length = 32

/-- The log in the view counts `n` leaves, and its hashes can be read. -/
structure Numbered (n : Nat) (v : View) : Prop where
  answer_size : ∀ now, answer now (Tree.reading Layout.size) v = .ok (UInt64.ofNat n)
  nodesFit : v.NodesFit

/-- What is committed after a leaf has been offered. -/
def append (hash : HashFunction) (v : View) (leaf : Leaf) : View :=
  match leaf.encode with
  | .ok bytes => committed Timestamp.epoch (Tree.appendUpdate hash bytes) v
  | .error _ => v

/-- What is committed after these leaves have been offered to an empty log, in their order. -/
def appendAll (hash : HashFunction) (leaves : List Leaf) : View :=
  leaves.foldl (append hash) View.empty

theorem appendAll_concat (hash : HashFunction) (leaves : List Leaf) (leaf : Leaf) :
    appendAll hash (leaves ++ [leaf]) = (appendAll hash leaves).append hash leaf := by
  rw [appendAll, List.foldl_append]
  rfl

section

variable (hash : HashFunction) {v : View}

theorem NodesFit.put_node (h : v.NodesFit) (span : Span) (digest : Digest) :
    (v.put (StoreKey.node span).bytes digest.toBytes).NodesFit := by
  intro other bytes hbytes
  by_cases hsame : other = span
  · rw [hsame, put_self] at hbytes
    cases hbytes
    exact digest.length_toBytes
  · rw [put_of_ne _ _ (StoreKey.bytes_ne (by simpa using hsame))] at hbytes
    exact h other bytes hbytes

theorem NodesFit.put_of_ne (h : v.NodesFit) {key : StoreKey} (hkey : ∀ span, key ≠ .node span)
    (value : Bytes) : (v.put key.bytes value).NodesFit := by
  intro span bytes hbytes
  rw [View.put_of_ne _ _ (StoreKey.bytes_ne (hkey span).symm)] at hbytes
  exact h span bytes hbytes

theorem NodesFit.answer_nodeHash (h : v.NodesFit) (now : Timestamp) (span : Span) :
    answer now (Tree.nodeHash hash span) v = .ok (v.hashAt hash span) := by
  rw [Tree.nodeHash, hashAt, Span.key]
  split
  · rw [answer_bind, Tree.reading, answer_mapError, Layout.leafBytes, answer, answer]
    cases v (StoreKey.leaf span.left).bytes with
    | none => rfl
    | some bytes => rfl
  · rw [answer_bind, Tree.reading, answer_mapError, Layout.node, answer]
    cases hbytes : v (StoreKey.node span).bytes with
    | none => rfl
    | some bytes =>
        have hdigest : Octets.ofBytes? 32 bytes = some ⟨bytes, h span bytes hbytes⟩ :=
          Octets.ofBytes?_eq_some_iff.2 rfl
        simp only [hdigest]
        rfl

theorem NodesFit.answer_siblingHash (h : v.NodesFit) (now : Timestamp) (size : UInt64)
    (span : Span) :
    answer now (Tree.siblingHash hash size span.sibling) v = .ok (v.hashBeside hash size span) := by
  rw [Tree.siblingHash, hashBeside]
  split
  · rfl
  · exact h.answer_nodeHash hash now span.sibling

theorem NodesFit.exists_outcome_raise (h : v.NodesFit) (now : Timestamp) (size : UInt64)
    (path : List Span) (own : Digest) :
    ∃ v', outcome now (Tree.raise hash size path own) v = (.ok (), v') ∧ v'.NodesFit := by
  induction path generalizing own v with
  | nil => exact ⟨v, rfl, h⟩
  | cons span path ih =>
      have hread : outcome now (Query.toUpdate (Tree.siblingHash hash size span.sibling)) v =
          (.ok (v.hashBeside hash size span), v) := by
        rw [outcome_toUpdate, h.answer_siblingHash]
      obtain ⟨v', hraise, h'⟩ := ih
        (h.put_node span.parent (span.combine hash own (v.hashBeside hash size span))) _
      refine ⟨v', ?_, h'⟩
      rw [Tree.raise, outcome_bind_of_ok hread]
      exact hraise

theorem numbered_empty : Numbered 0 View.empty := by
  refine ⟨fun now => rfl, fun span bytes hbytes => ?_⟩
  cases hbytes

theorem answer_size_put (now : Timestamp) (v : View) (size : UInt64) :
    answer now (Tree.reading Layout.size) (v.put StoreKey.size.bytes (word64 size)) =
      .ok size := by
  apply answer_reading
  have hword : Octets.ofBytes? 8 (word64 size) = some ⟨word64 size, length_word64 size⟩ :=
    Octets.ofBytes?_eq_some_iff.2 rfl
  rw [Layout.size, answer, put_self]
  simp only [hword, answer_done, ofBigEndian_word64, Nat.toUInt64_eq, UInt64.ofNat_toNat]

theorem Numbered.answer_headAt {n : Nat} (h : v.Numbered n) (now : Timestamp) :
    answer now (Tree.headAt hash (UInt64.ofNat n)) v =
      .ok ⟨UInt64.ofNat n, now, v.hashAt hash (Span.rootFor (UInt64.ofNat n)), none⟩ := by
  rw [Tree.headAt, answer, answer_bind_of_ok (h.nodesFit.answer_nodeHash hash now _)]
  rfl

/-- The head counts the leaves, and its root is what the view has for the node over them all. -/
theorem Numbered.answer_head {n : Nat} (h : v.Numbered n) (now : Timestamp) :
    answer now (Tree.headQuery hash) v =
      .ok ⟨UInt64.ofNat n, now, v.hashAt hash (Span.rootFor (UInt64.ofNat n)), none⟩ := by
  rw [Tree.headQuery, answer_bind_of_ok (h.answer_size now), h.answer_headAt hash]

/-- An append answers the size it finds and leaves one more. -/
theorem Numbered.exists_outcome_append {n : Nat} (h : v.Numbered n) (now : Timestamp)
    (bytes : Bytes) :
    ∃ v', outcome now (Tree.appendUpdate hash bytes) v = (.ok (UInt64.ofNat n), v') ∧
      v'.Numbered (n + 1) := by
  have hsize : outcome now (Query.toUpdate (Tree.reading Layout.size)) v =
      (.ok (UInt64.ofNat n), v) := by
    rw [outcome_toUpdate, h.answer_size]
  have hleaf : (v.put (StoreKey.leaf (UInt64.ofNat n)).bytes bytes).NodesFit :=
    h.nodesFit.put_of_ne (by simp) bytes
  obtain ⟨v', hraise, hfit⟩ := hleaf.exists_outcome_raise hash now
    (UInt64.ofNat n + 1) (Span.path (UInt64.ofNat n) (UInt64.ofNat n + 1)) (hash bytes)
  refine ⟨v'.put StoreKey.size.bytes (word64 (UInt64.ofNat n + 1)), ?_, ?_,
    hfit.put_of_ne (by simp) _⟩
  · rw [Tree.appendUpdate, outcome_bind_of_ok hsize]
    show outcome now (Tree.raise hash _ _ _ >>= _) _ = _
    rw [outcome_bind_of_ok hraise]
    rfl
  · intro now'
    rw [answer_size_put, ofNat_add_one]

variable {leaf : Leaf} {bytes : Bytes}

theorem Numbered.outcome_append {n : Nat} (h : v.Numbered n) (hencode : leaf.encode = .ok bytes)
    (now : Timestamp) :
    outcome now (Tree.appendUpdate hash bytes) v = (.ok (UInt64.ofNat n), v.append hash leaf) := by
  obtain ⟨v', houtcome, -⟩ := h.exists_outcome_append hash Timestamp.epoch bytes
  rw [(Tree.clockAtMost_appendUpdate hash bytes).outcome_eq now Timestamp.epoch, houtcome, append]
  simp only [hencode, committed_of_ok houtcome]

theorem Numbered.append {n : Nat} (h : v.Numbered n) (hencode : leaf.encode = .ok bytes) :
    (v.append hash leaf).Numbered (n + 1) := by
  obtain ⟨v', houtcome, h'⟩ := h.exists_outcome_append hash Timestamp.epoch bytes
  rw [h.outcome_append hash hencode] at houtcome
  cases houtcome
  exact h'

theorem Numbered.foldl_append {n : Nat} (h : v.Numbered n) {leaves : List Leaf}
    (hencode : ∀ leaf ∈ leaves, ∃ bytes, leaf.encode = .ok bytes) :
    (leaves.foldl (View.append hash) v).Numbered (n + leaves.length) := by
  induction leaves generalizing n v with
  | nil => exact h
  | cons leaf leaves ih =>
      obtain ⟨bytes, hbytes⟩ := hencode leaf List.mem_cons_self
      rw [List.foldl_cons, List.length_cons, Nat.add_comm leaves.length, ← Nat.add_assoc]
      exact ih (h.append hash hbytes) fun leaf hleaf => hencode leaf (List.mem_cons_of_mem _ hleaf)

theorem numbered_appendAll {leaves : List Leaf}
    (hencode : ∀ leaf ∈ leaves, ∃ bytes, leaf.encode = .ok bytes) :
    (appendAll hash leaves).Numbered leaves.length := by
  have h := numbered_empty.foldl_append hash hencode
  rwa [Nat.zero_add] at h

end

end View

namespace Tree

variable {S R W : Type} [Store S R W] [LawfulStore S R W] {hash : HashFunction}

/-- Leaves appended one after another are numbered in their order. -/
theorem run_appends (leaves : List Leaf)
    (hencode : ∀ leaf ∈ leaves, ∃ bytes, leaf.encode = .ok bytes) (now : Timestamp) {n : Nat}
    (tree : Tree) {s : S} (hready : LawfulStore.Ready s)
    (hnumbered : (LawfulStore.view s).Numbered n) :
    ∃ tree' s', run hash (leaves.map (Event.append now)) tree s =
        ((List.range' n leaves.length).map fun k => .ok (UInt64.ofNat k), tree', s') ∧
      LawfulStore.Ready s' ∧
      LawfulStore.view s' = leaves.foldl (View.append hash) (LawfulStore.view s) := by
  induction leaves generalizing n tree s with
  | nil => exact ⟨tree, s, rfl, hready, rfl⟩
  | cons leaf leaves ih =>
      obtain ⟨bytes, hbytes⟩ := hencode leaf List.mem_cons_self
      have houtcome := hnumbered.outcome_append hash hbytes now
      obtain ⟨s₁, hupdate, hready₁, hview₁⟩ :=
        LawfulStore.update_eq now LogError.store (appendUpdate hash bytes) hready
      rw [houtcome] at hupdate
      rw [committed_of_ok houtcome] at hview₁
      have hstep : step hash (.append now leaf) tree s =
          (.ok (UInt64.ofNat n), ⟨UInt64.ofNat n + 1⟩, s₁) := by
        simp only [step, Tree.append, hbytes, hupdate]
      have hnext : (LawfulStore.view s₁).Numbered (n + 1) := by
        rw [hview₁]
        exact hnumbered.append hash hbytes
      obtain ⟨tree', s', hrun, hready', hview'⟩ :=
        ih (fun leaf hleaf => hencode leaf (List.mem_cons_of_mem _ hleaf))
          ⟨UInt64.ofNat n + 1⟩ hready₁ hnext
      refine ⟨tree', s', ?_, hready', ?_⟩
      · simp only [List.map_cons, run, hstep, hrun, List.length_cons, List.range'_succ]
      · rw [hview', hview₁, List.foldl_cons]

end Tree

end OwnershipLog
