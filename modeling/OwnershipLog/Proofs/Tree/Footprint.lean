import OwnershipLog.Proofs.Store.Fallible
import OwnershipLog.Proofs.Tree.Numbered

/-!
# What an append touches

An append may meet any store: nodes that are missing or of the wrong width, bytes under
keys that are no keys of the log, calls that fail. What it files can be read off its
program all the same (`Transaction.Files`): the leaf, a digest for each span around it and
the size. So an append that fails leaves the store as it was, and one that succeeds
changes it at these keys only (`View.Appended`).

Every span around the new leaf ends past it. So the leaves below the size and the spans
that end at or before it stay as they are, through every run (`View.Keeps`), whether or not
the store ever held the tree of a log.
-/

namespace OwnershipLog

open OwnershipLog.Span Transaction

/-! ## What an update files -/

namespace Transaction

variable {ε α β : Type} {allowed : StoreKey → Bytes → Prop} {now : Timestamp}

/-- Every put of the update is allowed, whatever is read on the way to it. -/
def Files (allowed : StoreKey → Bytes → Prop) : Update ε α → Prop
  | done _ => True
  | fail _ => True
  | get _ reply => ∀ value, Files allowed (reply value)
  | clock reply => ∀ now, Files allowed (reply now)
  | put write rest => allowed write.1 write.2 ∧ Files allowed rest

theorem files_bind {update : Update ε α} {next : α → Update ε β} (h : Files allowed update)
    (hnext : ∀ a, Files allowed (next a)) : Files allowed (update >>= next) := by
  show Files allowed (update.bind next)
  induction update with
  | done a => exact hnext a
  | fail e => trivial
  | get key reply ih => exact fun value => ih value (h value)
  | clock reply ih => exact fun now => ih now (h now)
  | put write rest ih => exact ⟨h.1, ih h.2⟩

theorem files_toUpdate (query : Query ε α) : Files allowed (Query.toUpdate query) := by
  induction query with
  | done a => trivial
  | fail e => trivial
  | get key reply ih => exact fun value => ih value
  | clock reply ih => exact fun now => ih now
  | put write rest => exact write.elim

/-- A key is as it was, or holds something that the update may file under it. -/
theorem Files.outcome_cases {update : Update ε α} (h : Files allowed update) (now : Timestamp)
    (v : View) (key : Bytes) :
    (outcome now update v).2 key = v key ∨
      ∃ k value, allowed k value ∧ k.bytes = key ∧ (outcome now update v).2 key = some value := by
  induction update generalizing v with
  | done a => exact Or.inl rfl
  | fail e => exact Or.inl rfl
  | get key reply ih => exact ih _ (h _) v
  | clock reply ih => exact ih now (h now) v
  | put write rest ih =>
      rcases ih h.2 (v.put write.1.bytes write.2) with hsame | hfiled
      · by_cases hkey : key = write.1.bytes
        · subst hkey
          exact Or.inr ⟨write.1, write.2, h.1, rfl, hsame.trans (View.put_self _ _ _)⟩
        · exact Or.inl (hsame.trans (View.put_of_ne _ _ hkey))
      · exact Or.inr hfiled

/-- An update that ends well got through its first part. -/
theorem exists_of_outcome_bind {update : Update ε α} {next : α → Update ε β} {b : β}
    {v v' : View} (h : outcome now (update >>= next) v = (.ok b, v')) :
    ∃ a v₁, outcome now update v = (.ok a, v₁) ∧ outcome now (next a) v₁ = (.ok b, v') := by
  change outcome now (update.bind next) v = _ at h
  induction update generalizing v with
  | done a => exact ⟨a, v, rfl, h⟩
  | fail e => cases h
  | get key reply ih => exact ih _ h
  | clock reply ih => exact ih _ h
  | put write rest ih => exact ih h

end Transaction

/-! ## The spans around a leaf -/

namespace Span

variable {index size : UInt64}

/-- The spans around a leaf and wider than it, up to the root of the log that ends with it. -/
def ancestors (index : UInt64) : List Span := (path index (index + 1)).map parent

theorem ancestors_eq (h : index.toNat < 2 ^ 63) :
    ancestors index = blocksAbove 1 (depth (index.toNat + 1)) index.toNat := by
  have hsize := toNat_add_one h
  rw [ancestors, path_eq (by omega) (lt_add_one h), hsize,
    map_parent_blocksAbove (by omega) (Nat.lt_succ_self _) (Nat.zero_add _).le]

/-- A span around a leaf ends past it. -/
theorem lt_right_of_mem_ancestors (h : index.toNat < 2 ^ 63) {span : Span}
    (hspan : span ∈ ancestors index) : index < span.right := by
  rw [ancestors_eq h, blocksAbove] at hspan
  obtain ⟨j, hj, rfl⟩ := List.mem_map.1 hspan
  have hrange : InRange j (index.toNat / 2 ^ j) := by
    apply inRange_of_le_depth (n := index.toNat + 1) (by omega) (Nat.lt_succ_self _)
    have := List.mem_range'_1.1 hj
    omega
  rw [UInt64.lt_iff_toNat_lt, toNat_right_block hrange,
    ← Nat.div_lt_iff_lt_mul (Nat.two_pow_pos j)]
  exact Nat.lt_succ_self _

end Span

/-! ## One append -/

namespace View

/-- The number of leaves that a view remembers, if it can be read. -/
def size? (v : View) : Option UInt64 :=
  match answer Timestamp.epoch Layout.size v with
  | .ok size => some size
  | .error _ => none

theorem size?_of_answer {v : View} {now : Timestamp} {size : UInt64}
    (h : answer now (Tree.reading Layout.size) v = .ok size) : v.size? = some size := by
  have hsame : answer now Layout.size v = answer Timestamp.epoch Layout.size v := by
    rw [Layout.size, answer, answer]
    cases v StoreKey.size.bytes with
    | none => rfl
    | some bytes => cases hwidth : Octets.ofBytes? 8 bytes <;> simp only [hwidth] <;> rfl
  rw [Tree.reading, answer_mapError, hsame] at h
  rw [size?]
  cases hsize : answer Timestamp.epoch Layout.size v with
  | ok n =>
      rw [hsize] at h
      cases h
      rfl
  | error e =>
      rw [hsize] at h
      cases h

/-- The keys that an append at `index` files something under. -/
def filedBy (index : UInt64) : List StoreKey :=
  .leaf index :: .size :: (ancestors index).map .node

/-- The later view is the earlier one with the leaf `bytes` appended at `index`: it holds the leaf,
digests around it and the next size, and everything else as it was. -/
structure Appended (index : UInt64) (bytes : Bytes) (v v' : View) : Prop where
  size_before : v.size? = some index
  size_after : v'.size? = some (index + 1)
  leaf_eq : v' (StoreKey.leaf index).bytes = some bytes
  size_eq : v' StoreKey.size.bytes = some (word64 (index + 1))
  node_eq : ∀ span ∈ ancestors index, ∃ digest : Digest,
    v' (StoreKey.node span).bytes = some digest.toBytes
  others_eq : ∀ key, key ∉ (filedBy index).map StoreKey.bytes → v' key = v key

/-- All that was complete in a log of `size` leaves is as it was. -/
structure Keeps (size : UInt64) (v v' : View) : Prop where
  leaf_eq : ∀ index < size, v' (StoreKey.leaf index).bytes = v (StoreKey.leaf index).bytes
  node_eq : ∀ span : Span, span.right ≤ size →
    v' (StoreKey.node span).bytes = v (StoreKey.node span).bytes

theorem Keeps.refl (size : UInt64) (v : View) : Keeps size v v := ⟨fun _ _ => rfl, fun _ _ => rfl⟩

theorem Keeps.trans {size later : UInt64} {v v' v'' : View} (h : Keeps size v v')
    (h' : Keeps later v' v'') (hle : size ≤ later) : Keeps size v v'' where
  leaf_eq index hindex :=
    (h'.leaf_eq index (UInt64.lt_of_lt_of_le hindex hle)).trans (h.leaf_eq index hindex)
  node_eq span hspan :=
    (h'.node_eq span (UInt64.le_trans hspan hle)).trans (h.node_eq span hspan)

/-- An append leaves alone what was complete before it. -/
theorem Appended.keeps {index : UInt64} {bytes : Bytes} {v v' : View}
    (h : Appended index bytes v v') (hindex : index.toNat < 2 ^ 63) : Keeps index v v' where
  leaf_eq i hi := by
    apply h.others_eq
    intro hmem
    obtain ⟨k, hk, hbytes⟩ := List.mem_map.1 hmem
    obtain rfl := StoreKey.bytes_inj hbytes
    simp only [filedBy, List.mem_cons, List.mem_map, reduceCtorEq, and_false, exists_false,
      or_false, StoreKey.leaf.injEq] at hk
    exact UInt64.lt_irrefl _ (hk ▸ hi)
  node_eq span hspan := by
    apply h.others_eq
    intro hmem
    obtain ⟨k, hk, hbytes⟩ := List.mem_map.1 hmem
    obtain rfl := StoreKey.bytes_inj hbytes
    simp only [filedBy, List.mem_cons, List.mem_map, reduceCtorEq, false_or,
      StoreKey.node.injEq, exists_eq_right] at hk
    exact UInt64.lt_irrefl _
      (UInt64.lt_of_lt_of_le (lt_right_of_mem_ancestors hindex hk) hspan)

end View

namespace Tree

variable {hash : HashFunction} {now : Timestamp}

theorem files_raise {allowed : StoreKey → Bytes → Prop} {path : List Span}
    (h : ∀ span ∈ path, ∀ digest : Digest, allowed (.node span.parent) digest.toBytes)
    (size : UInt64) (own : Digest) : Files allowed (raise hash size path own) := by
  induction path generalizing own with
  | nil => trivial
  | cons span path ih =>
      refine files_bind (files_toUpdate _) fun sibling => ?_
      exact ⟨h span List.mem_cons_self _, ih (fun s hs => h s (List.mem_cons_of_mem _ hs)) _⟩

/-- A walk up a path that gets to its end has filed a digest for the parent of each span. -/
theorem exists_digest_of_raise {size : UInt64} {path : List Span} {own : Digest} {v v' : View}
    (h : outcome now (raise hash size path own) v = (.ok (), v')) :
    ∀ span ∈ path, ∃ digest : Digest,
      v' (StoreKey.node span.parent).bytes = some digest.toBytes := by
  induction path generalizing own v with
  | nil => simp
  | cons span path ih =>
      obtain ⟨sibling, v₁, -, hrest⟩ := exists_of_outcome_bind h
      refine List.forall_mem_cons.2 ⟨?_, ih hrest⟩
      -- The digest of the parent may be filed over, but only by another digest.
      have hfiles : Files (fun _ value => ∃ digest : Digest, value = digest.toBytes)
          (raise hash size path (span.combine hash own sibling)) :=
        files_raise (fun _ _ digest => ⟨digest, rfl⟩) _ _
      have hcases := hfiles.outcome_cases now (v₁.put (StoreKey.node span.parent).bytes
        (span.combine hash own sibling).toBytes) (StoreKey.node span.parent).bytes
      rw [show outcome now (raise hash size path _) _ = (.ok (), v') from hrest] at hcases
      rcases hcases with hsame | ⟨-, -, ⟨digest, rfl⟩, -, hvalue⟩
      · exact ⟨_, hsame.trans (View.put_self _ _ _)⟩
      · exact ⟨digest, hvalue⟩

/-- An append that does not fail does what an append should, whatever it was that it met. -/
theorem appended_of_outcome {bytes : Bytes} {index : UInt64} {v v' : View}
    (h : outcome now (appendUpdate hash bytes) v = (.ok index, v')) :
    View.Appended index bytes v v' := by
  obtain ⟨size, v₁, hread, h₁⟩ := exists_of_outcome_bind h
  rw [outcome_toUpdate, Prod.mk.injEq] at hread
  obtain ⟨hanswer, rfl⟩ := hread
  have h₂ : outcome now (raise hash (size + 1) (path size (size + 1)) (hash bytes) >>=
      fun _ => Layout.putSize (size + 1) >>= fun _ => pure size)
      (v.put (StoreKey.leaf size).bytes bytes) = (.ok index, v') := h₁
  obtain ⟨⟨⟩, v₃, hraise, h₃⟩ := exists_of_outcome_bind h₂
  obtain ⟨rfl, rfl⟩ : size = index ∧
      v₃.put StoreKey.size.bytes (word64 (size + 1)) = v' := by
    cases h₃
    exact ⟨rfl, rfl⟩
  have hfiles : Files (fun k _ => k ∈ (ancestors size).map StoreKey.node)
      (raise hash (size + 1) (path size (size + 1)) (hash bytes)) := by
    refine files_raise (fun span hspan digest => ?_) _ _
    exact List.mem_map_of_mem (List.mem_map_of_mem hspan)
  -- The walk leaves every key alone that is not that of a node around the leaf.
  have hframe : ∀ key, key ∉ ((ancestors size).map StoreKey.node).map StoreKey.bytes →
      v₃ key = v.put (StoreKey.leaf size).bytes bytes key := by
    intro key hkey
    have hcases := hfiles.outcome_cases now (v.put (StoreKey.leaf size).bytes bytes) key
    rw [hraise] at hcases
    rcases hcases with hsame | ⟨k, -, hk, rfl, -⟩
    · exact hsame
    · exact absurd (List.mem_map_of_mem hk) hkey
  refine ⟨View.size?_of_answer hanswer, View.size?_of_answer (View.answer_size_put now v₃ _), ?_,
    View.put_self _ _ _, ?_, ?_⟩
  · rw [View.put_of_ne _ _ (StoreKey.bytes_ne (by simp)), hframe, View.put_self]
    intro hmem
    obtain ⟨k, hk, hbytes⟩ := List.mem_map.1 hmem
    obtain rfl := StoreKey.bytes_inj hbytes
    simp at hk
  · intro span hspan
    rw [View.put_of_ne _ _ (StoreKey.bytes_ne (by simp))]
    obtain ⟨below, hbelow, rfl⟩ := List.mem_map.1 hspan
    exact exists_digest_of_raise hraise below hbelow
  · intro key hkey
    rw [View.filedBy, List.map_cons, List.map_cons, List.mem_cons, List.mem_cons, not_or,
      not_or] at hkey
    rw [View.put_of_ne _ _ hkey.2.1, hframe key hkey.2.2, View.put_of_ne _ _ hkey.1]

/-! ## Appends and runs -/

section

variable {S R W : Type} [Store S R W] [FallibleStore S R W] {s : S}

open FallibleStore

/-- An append does all that it should, or nothing. -/
theorem append_cases (hash : HashFunction) (now : Timestamp) (leaf : Leaf) (tree : Tree)
    (hfree : Free s) :
    ∃ result tree' s', append hash now leaf tree s = (result, tree', s') ∧ Free s' ∧
      ((∃ index bytes, result = .ok index ∧ tree' = ⟨index + 1⟩ ∧ leaf.encode = .ok bytes ∧
          View.Appended index bytes (view s) (view s')) ∨
        (∃ e, result = .error e) ∧ tree' = tree ∧ view s' = view s) := by
  cases hencode : leaf.encode with
  | error cause =>
      exact ⟨.error (.codec cause), tree, s, by simp only [append, hencode], hfree,
        Or.inr ⟨⟨_, rfl⟩, rfl, rfl⟩⟩
  | ok bytes =>
      obtain ⟨_, s', hupdate, hfree', ⟨index, rfl, houtcome⟩ | ⟨⟨e, rfl⟩, hview⟩⟩ :=
        update_cases now LogError.store (appendUpdate hash bytes) hfree
      · exact ⟨.ok index, ⟨index + 1⟩, s', by simp only [append, hencode, hupdate], hfree',
          Or.inl ⟨index, bytes, rfl, rfl, rfl, appended_of_outcome houtcome⟩⟩
      · exact ⟨.error e, tree, s', by simp only [append, hencode, hupdate], hfree',
          Or.inr ⟨⟨e, rfl⟩, rfl, hview⟩⟩

/-- A handle that is taken anew changes nothing, whether it can be taken or not. -/
theorem attach_cases (now : Timestamp) (hfree : Free s) :
    ∃ result s', attach now s = (result, s') ∧ Free s' ∧ view s' = view s := by
  obtain ⟨result, s', hquery, hfree', hview, -⟩ :=
    query_cases now LogError.store (reading Layout.size) hfree
  cases result with
  | ok size => exact ⟨.ok ⟨size⟩, s', by simp only [attach, hquery], hfree', hview⟩
  | error e => exact ⟨.error e, s', by simp only [attach, hquery], hfree', hview⟩

/-- One event keeps what is complete, and the size grows by one or not at all. -/
theorem step_keeps (hash : HashFunction) (event : Event) (tree : Tree) (hfree : Free s)
    {n : UInt64} (hn : n.toNat < 2 ^ 63) (hsize : (view s).size? = some n) :
    ∃ result tree' s' m, step hash event tree s = (result, tree', s') ∧ Free s' ∧
      View.Keeps n (view s) (view s') ∧ (view s').size? = some m ∧ (m = n ∨ m = n + 1) := by
  cases event with
  | append now leaf =>
      obtain ⟨result, tree', s', happend, hfree', hcases⟩ := append_cases hash now leaf tree hfree
      rcases hcases with ⟨index, bytes, -, -, -, happended⟩ | ⟨-, -, hview⟩
      · obtain rfl : n = index := Option.some.inj (hsize.symm.trans happended.size_before)
        exact ⟨result, tree', s', n + 1, happend, hfree', happended.keeps hn,
          happended.size_after, Or.inr rfl⟩
      · refine ⟨result, tree', s', n, happend, hfree', ?_, ?_, Or.inl rfl⟩
        · rw [hview]
          exact View.Keeps.refl n _
        · rwa [hview]
  | reopen now =>
      obtain ⟨result, s', hattach, hfree', hview⟩ := attach_cases now hfree
      have hkeeps : View.Keeps n (view s) (view s') := by
        rw [hview]
        exact View.Keeps.refl n _
      rw [← hview] at hsize
      cases result with
      | ok tree' =>
          exact ⟨.ok tree'.size, tree', s', n, by simp only [step, hattach], hfree', hkeeps, hsize,
            Or.inl rfl⟩
      | error e =>
          exact ⟨.error e, tree, s', n, by simp only [step, hattach], hfree', hkeeps, hsize,
            Or.inl rfl⟩

/-- So does every run, as long as there is room for its leaves. -/
theorem run_keeps_complete (hash : HashFunction) (events : List Event) (tree : Tree)
    (hfree : Free s) {n : UInt64} (hn : n.toNat + events.length ≤ 2 ^ 63)
    (hsize : (view s).size? = some n) :
    View.Keeps n (view s) (view (run hash events tree s).2.2) := by
  induction events generalizing tree s n with
  | nil => exact View.Keeps.refl n _
  | cons event events ih =>
      rw [List.length_cons] at hn
      obtain ⟨result, tree₁, s₁, m, hstep, hfree₁, hkeeps, hsize₁, hm⟩ :=
        step_keeps hash event tree hfree (by omega) hsize
      have hnext : m.toNat + events.length ≤ 2 ^ 63 ∧ n ≤ m := by
        rcases hm with rfl | rfl
        · exact ⟨by omega, UInt64.le_refl _⟩
        · rw [toNat_add_one (by omega)]
          exact ⟨by omega, UInt64.le_of_lt (lt_add_one (by omega))⟩
      have hrest := ih tree₁ hfree₁ hnext.1 hsize₁
      simp only [run, hstep]
      exact hkeeps.trans hrest hnext.2

/-- Whatever a store holds and whichever of its calls fail, as long as the size that it gives leaves
room for a leaf: an append fails and leaves what is committed and the handle as they were, or
it answers the size as the index of the leaf, and nothing but the leaf, the spans around it and the
size is other than before. The writer's lock is free again either way. After it, no run that the log
has room for changes a leaf below the size or a span that ends by it. -/
theorem append_all_or_nothing (hash : HashFunction) (now : Timestamp) (leaf : Leaf) (tree : Tree)
    (hfree : Free s) (hroom : ∀ n, (view s).size? = some n → n.toNat < 2 ^ 63) :
    ∃ result tree' s', append hash now leaf tree s = (result, tree', s') ∧
      Free s' ∧ locked s' = false ∧
      (∀ e, result = .error e → tree' = tree ∧ view s' = view s) ∧
      (∀ index, result = .ok index → tree' = ⟨index + 1⟩ ∧
        (∃ bytes, leaf.encode = .ok bytes ∧ View.Appended index bytes (view s) (view s')) ∧
        pathEnd index (index + 1) = rootFor (index + 1) ∧
        View.Keeps index (view s) (view s')) ∧
      ∀ events n, (view s').size? = some n → n.toNat + events.length ≤ 2 ^ 63 →
        View.Keeps n (view s') (view (run hash events tree' s').2.2) := by
  obtain ⟨result, tree', s', happend, hfree', hcases⟩ := append_cases hash now leaf tree hfree
  refine ⟨result, tree', s', happend, hfree', locked_of_free hfree', ?_, ?_, ?_⟩
  · rintro e rfl
    rcases hcases with ⟨index, bytes, ⟨⟩, -⟩ | ⟨-, htree, hview⟩
    exact ⟨htree, hview⟩
  · rintro index rfl
    rcases hcases with ⟨_, bytes, ⟨⟩, htree, hencode, happended⟩ | ⟨⟨e, ⟨⟩⟩, -⟩
    have hindex := hroom index happended.size_before
    have hsize := toNat_add_one hindex
    exact ⟨htree, ⟨bytes, hencode, happended⟩, pathEnd_eq (by omega) (lt_add_one hindex),
      happended.keeps hindex⟩
  · intro events n hsize hn
    exact run_keeps_complete hash events tree' hfree' hn hsize

end

/-! ### Contents that no log has left -/

/-- A store that counts `size` leaves, the first of which is none, and has three bytes for a node
and a value under a key of no kind. -/
def strayStore (size : UInt64) : Durable :=
  Durable.ofDatabase (.plain (((((∅ : Contents).insert (StoreKey.leaf 0).bytes [255]).insert
    (StoreKey.node ⟨0, 2⟩).bytes [1, 2, 3]).insert [42] [7]).insert StoreKey.size.bytes
      (word64 size)))

theorem free_strayStore (size : UInt64) : FallibleStore.Free (strayStore size) :=
  ⟨[], _, _, Durable.sound_ofDatabase _ _⟩

theorem view_strayStore (size : UInt64) : FallibleStore.view (strayStore size) =
    (((View.empty.put (StoreKey.leaf 0).bytes [255]).put (StoreKey.node ⟨0, 2⟩).bytes
      [1, 2, 3]).put [42] [7]).put StoreKey.size.bytes (word64 size) := by
  have hnone : (fun k => (∅ : Contents)[k]?) = View.empty := by
    funext k
    simp [View.empty]
  show (fun k => (((((∅ : Contents).insert _ _).insert _ _).insert _ _).insert _ _)[k]?) = _
  rw [Durable.view_insert, Durable.view_insert, Durable.view_insert, Durable.view_insert, hnone]

theorem lt_of_size?_strayStore {size n : UInt64} (hsize : size.toNat < 2 ^ 63)
    (h : (FallibleStore.view (strayStore size)).size? = some n) : n.toNat < 2 ^ 63 := by
  rw [view_strayStore, View.size?_of_answer (View.answer_size_put Timestamp.epoch _ size)] at h
  cases h
  exact hsize

/-- What an append to it answers is what the update comes to over its view. -/
theorem append_strayStore (size : UInt64) {bytes : Bytes} {result : Except LogError UInt64}
    (hencode : (keyed []).encode = .ok bytes)
    (houtcome : (outcome Timestamp.epoch (appendUpdate (fun _ => Digest.zero) bytes)
      (FallibleStore.view (strayStore size))).1 = result) :
    (append (fun _ => Digest.zero) Timestamp.epoch (keyed []) ⟨7⟩ (strayStore size)).1 =
      result := by
  have hready : LawfulStore.Ready (strayStore size) := ⟨_, rfl, rfl, rfl⟩
  obtain ⟨s', hupdate, -⟩ := LawfulStore.update_eq Timestamp.epoch LogError.store
    (appendUpdate (fun _ => Digest.zero) bytes) hready
  rw [show LawfulStore.view (strayStore size) = FallibleStore.view (strayStore size) from rfl,
    houtcome] at hupdate
  cases result <;> simp only [append, hencode, hupdate]

/-- As the third leaf a leaf is refused at the node that has three bytes, after two puts, and none
of them shows. As the second leaf it is accepted: the node has a digest then, and the first leaf
and the key of no kind are as they were. -/
theorem append_all_or_nothing_strayStore :
    FallibleStore.Free (strayStore 2) ∧ FallibleStore.Free (strayStore 1) ∧
    (∀ n, (FallibleStore.view (strayStore 2)).size? = some n → n.toNat < 2 ^ 63) ∧
    (∀ n, (FallibleStore.view (strayStore 1)).size? = some n → n.toNat < 2 ^ 63) ∧
    (∃ s', append (fun _ => Digest.zero) Timestamp.epoch (keyed []) ⟨7⟩ (strayStore 2) =
        (.error (.store (.badWidth (.node ⟨0, 2⟩) 3)), ⟨7⟩, s') ∧
      FallibleStore.locked s' = false ∧
      FallibleStore.view s' = FallibleStore.view (strayStore 2)) ∧
    ∃ s', append (fun _ => Digest.zero) Timestamp.epoch (keyed []) ⟨7⟩ (strayStore 1) =
        (.ok 1, ⟨2⟩, s') ∧
      FallibleStore.locked s' = false ∧
      (FallibleStore.view s').size? = some 2 ∧
      (∃ digest : Digest,
        FallibleStore.view s' (StoreKey.node ⟨0, 2⟩).bytes = some digest.toBytes) ∧
      FallibleStore.view s' (StoreKey.leaf 0).bytes = some [255] ∧
      FallibleStore.view s' [42] = some [7] := by
  obtain ⟨bytes, hencode⟩ : ∃ bytes, (keyed []).encode = .ok bytes := ⟨_, rfl⟩
  refine ⟨free_strayStore 2, free_strayStore 1, fun _ => lt_of_size?_strayStore (by decide),
    fun _ => lt_of_size?_strayStore (by decide), ?_, ?_⟩
  · have hanswer : (append (fun _ => Digest.zero) Timestamp.epoch (keyed []) ⟨7⟩
        (strayStore 2)).1 = .error (.store (.badWidth (.node ⟨0, 2⟩) 3)) := by
      apply append_strayStore 2 hencode
      rw [view_strayStore]
      rfl
    obtain ⟨result, tree', s', happend, -, hlocked, herror, -⟩ :=
      append_all_or_nothing (fun _ => Digest.zero) Timestamp.epoch (keyed []) ⟨7⟩
        (free_strayStore 2) fun _ => lt_of_size?_strayStore (by decide)
    rw [happend] at hanswer
    obtain ⟨rfl, hview⟩ := herror _ hanswer
    exact ⟨s', by rw [happend, ← hanswer], hlocked, hview⟩
  · have hanswer : (append (fun _ => Digest.zero) Timestamp.epoch (keyed []) ⟨7⟩
        (strayStore 1)).1 = .ok 1 := by
      apply append_strayStore 1 hencode
      rw [view_strayStore]
      rfl
    obtain ⟨result, tree', s', happend, -, hlocked, -, hok, -⟩ :=
      append_all_or_nothing (fun _ => Digest.zero) Timestamp.epoch (keyed []) ⟨7⟩
        (free_strayStore 1) fun _ => lt_of_size?_strayStore (by decide)
    rw [happend] at hanswer
    obtain ⟨rfl, ⟨bytes, -, happended⟩, -, hkeeps⟩ := hok _ hanswer
    have hanswers : append (fun _ => Digest.zero) Timestamp.epoch (keyed []) ⟨7⟩ (strayStore 1) =
        (.ok 1, ⟨2⟩, s') := by
      rw [happend, ← hanswer]
      rfl
    have hleaf := hkeeps.leaf_eq 0 (by decide)
    -- [0, 2) is the one span around the leaf, so the key of no kind is not among those filed.
    have hstray := happended.others_eq [42] (by decide)
    rw [view_strayStore] at hleaf hstray
    exact ⟨s', hanswers, hlocked, happended.size_after, happended.node_eq _ (by decide),
      hleaf.trans (by decide), hstray.trans (by decide)⟩

end Tree

end OwnershipLog
