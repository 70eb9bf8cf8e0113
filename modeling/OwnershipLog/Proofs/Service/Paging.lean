import Mathlib.Data.List.TakeDrop
import OwnershipLog.Proofs.Follower.Complete

/-!
# Pages of the log

A page is decoded from the store and encoded again on its way out, and its range is judged by
the size that the service remembers. Neither can be seen: a range is refused for exactly three
reasons, and otherwise the page is the slice of the log, byte for byte as it was filed and hashed
(`Service.Holds.entries_eq`). So pages that are asked for one after another, of whatever lengths
and with whatever limits, add up to the log (`Service.Tiled.flatten_eq`), and whoever appends the
leaves in them to an empty tree gets the root of the log.
-/

namespace OwnershipLog

/-! ## Rebuilding -/

namespace Tree

/-- Appended to an empty tree, whatever it is kept in, these leaves lead to a head with this size
and root. -/
def Builds (hash : HashFunction) (leaves : List Leaf) (size : UInt64) (root : Digest) : Prop :=
  ∀ (S R W : Type) [Store S R W] [LawfulStore S R W] (s₀ : S), LawfulStore.Ready s₀ →
    LawfulStore.view s₀ = View.empty → ∀ now later : Timestamp, ∃ tree₀ s₁ results tree s,
      attach now s₀ = (.ok tree₀, s₁) ∧
      run hash (leaves.map (Event.append now)) tree₀ s₁ = (results, tree, s) ∧
      (head hash later s).1 = .ok ⟨size, later, root, none⟩

theorem accepted_written (now : Timestamp) (log : List Leaf.Written) :
    accepted ((log.map Leaf.Written.leaf).map (Event.append now)) = log := by
  induction log with
  | nil => rfl
  | cons written log ih =>
      rw [List.map_cons, List.map_cons, accepted_cons, accepted_of_ok now written.encode_eq, ih]
      rfl

theorem builds_written (hash : HashFunction) (log : List Leaf.Written)
    (hle : log.length ≤ 2 ^ 63) :
    Builds hash (log.map Leaf.Written.leaf) (UInt64.ofNat log.length)
      (hash.rootHash (bytesOf log)) := by
  intro S R W _ _ s₀ hready hempty now later
  have haccepted := accepted_written now log
  obtain ⟨tree₀, s₁, tree, s, hattach, hrun, h⟩ :=
    exists_run_holds hash hready hempty now (by rwa [haccepted])
  rw [haccepted] at h
  obtain ⟨s', hhead, -⟩ := h.head hle later
  exact ⟨tree₀, s₁, _, tree, s, hattach, hrun, by rw [hhead]⟩

end Tree

namespace Service

variable {S R W : Type} [Store S R W] {suite : Suite} {keys : KeyMaterial}

/-! ## One page -/

/-- The three reasons, in numbers. -/
theorem rangeError?_eq {start stop maxPage : UInt64} {n : Nat} (hn : n ≤ 2 ^ 63) :
    rangeError? start stop maxPage (UInt64.ofNat n) =
      if stop.toNat ≤ start.toNat then some (.invalidRange start stop .empty)
      else if maxPage.toNat < stop.toNat - start.toNat then
        some (.invalidRange start stop .exceedsPage)
      else if n ≤ start.toNat then some (.indexOutOfRange start (UInt64.ofNat n))
      else none := by
  simp only [rangeError?, UInt64.le_iff_toNat_le, UInt64.lt_iff_toNat_lt, toNat_ofNat_of_le hn]
  split
  · rfl
  · rename_i hmore
    have hle : start ≤ stop := by
      rw [UInt64.le_iff_toNat_le]
      omega
    rw [UInt64.toNat_sub_of_le _ _ hle]

theorem encode_leaf (l : Logged suite keys) : l.leaf.encode = .ok l.leaf.bytes := by
  rw [Logged.leaf, l.written.bytes_leaf, l.written.encode_eq]

/-- On their way out leaves are written as they were filed. -/
theorem mapM_encode (log : List (Logged suite keys)) :
    (log.map Logged.leaf).mapM (fun leaf => leaf.encode.mapError LogError.codec) =
      .ok ((log.map Logged.leaf).map Leaf.bytes) := by
  induction log with
  | nil => rfl
  | cons l log ih =>
      rw [List.map_cons, List.mapM_cons, encode_leaf, ih]
      rfl

theorem mapM_decode (log : List (Logged suite keys)) :
    ((log.map Logged.leaf).map Leaf.bytes).mapM Leaf.decode = .ok (log.map Logged.leaf) := by
  induction log with
  | nil => rfl
  | cons l log ih =>
      rw [List.map_cons, List.map_cons, List.mapM_cons, Leaf.decode_encode (encode_leaf l), ih]
      rfl

variable [LawfulStore S R W] {log : List (Logged suite keys)} {service : Service S}

/-- What the service answers to a request for a page. -/
theorem Holds.entries_eq (h : Holds suite keys log service) (hle : log.length ≤ 2 ^ 63)
    (now : Timestamp) (start stop : UInt64) :
    (service.entries now start stop).1 =
      if stop.toNat ≤ start.toNat then .error (.invalidRange start stop .empty)
      else if service.maxPage.toNat < stop.toNat - start.toNat then
        .error (.invalidRange start stop .exceedsPage)
      else if log.length ≤ start.toNat then
        .error (.indexOutOfRange start (UInt64.ofNat log.length))
      else .ok ((((log.map Logged.leaf).map Leaf.bytes).take stop.toNat).drop start.toNat) := by
  have hsize : service.size = UInt64.ofNat log.length := by
    rw [Service.size, h.tree.size_eq, length_writtenOf]
  obtain ⟨s, hleaves, -⟩ := h.tree.leaves (by rwa [length_writtenOf]) now start stop
  have hslice : (((writtenOf log).take stop.toNat).drop start.toNat).map Leaf.Written.leaf =
      ((log.take stop.toNat).drop start.toNat).map Logged.leaf := by
    rw [writtenOf, ← List.map_take, ← List.map_drop, List.map_map]
    rfl
  rw [hslice] at hleaves
  rw [entries, leaves, hsize, rangeError?_eq hle]
  by_cases hmore : stop.toNat ≤ start.toNat
  · simp only [if_pos hmore]
    rfl
  · by_cases hfits : service.maxPage.toNat < stop.toNat - start.toNat
    · simp only [if_neg hmore, if_pos hfits]
      rfl
    · by_cases hinside : log.length ≤ start.toNat
      · simp only [if_neg hmore, if_neg hfits, if_pos hinside]
        rfl
      · simp only [if_neg hmore, if_neg hfits, if_neg hinside, reading, hleaves]
        show List.mapM _ _ = _
        rw [mapM_encode, List.map_drop, List.map_drop, List.map_take, List.map_take]

theorem Holds.get_leaf (h : Holds suite keys log service) (hle : log.length ≤ 2 ^ 63)
    {index : Nat} (hindex : index ≤ 2 ^ 63) :
    LawfulStore.view service.store (StoreKey.leaf (UInt64.ofNat index)).bytes =
      ((log.map Logged.leaf).map Leaf.bytes)[index]? := by
  rw [h.tree.represents.get_leaf (by rwa [length_bytesOf, length_writtenOf]),
    toNat_ofNat_of_le hindex, bytesOf_writtenOf]

/-! ## Page after page -/

/-- Pages that were served from one position after another, from `start` to the end of the log. Each
may come from another service that has accepted `leaves`, at another time and with another limit. -/
inductive Tiled (suite : Suite) (keys : KeyMaterial) (s₀ : S) (leaves : List Leaf) :
    (start : Nat) → (pages : List (List Bytes)) → Prop where
  /-- There is nothing left. -/
  | done {start : Nat} : leaves.length ≤ start → Tiled suite keys s₀ leaves start []
  /-- The next page begins where this one was to end. -/
  | page {service : Service S} {now : Timestamp} {start stop : UInt64} {page : List Bytes}
    {pages : List (List Bytes)} : Reached suite keys s₀ leaves service →
    (service.entries now start stop).1 = .ok page → Tiled suite keys s₀ leaves stop.toNat pages →
    Tiled suite keys s₀ leaves start.toNat (page :: pages)

variable {s₀ : S} {leaves : List Leaf}

theorem Reached.entries_eq (h : Reached suite keys s₀ leaves service)
    (hready : LawfulStore.Ready s₀) (hempty : LawfulStore.view s₀ = View.empty)
    (hle : leaves.length ≤ 2 ^ 63) (now : Timestamp) (start stop : UInt64) :
    (service.entries now start stop).1 =
      if stop.toNat ≤ start.toNat then .error (.invalidRange start stop .empty)
      else if service.maxPage.toNat < stop.toNat - start.toNat then
        .error (.invalidRange start stop .exceedsPage)
      else if leaves.length ≤ start.toNat then
        .error (.indexOutOfRange start (UInt64.ofNat leaves.length))
      else .ok (((leaves.map Leaf.bytes).take stop.toNat).drop start.toNat) := by
  obtain ⟨log, rfl, hholds⟩ := h.exists_holds hready hempty hle
  rw [List.length_map] at hle ⊢
  exact hholds.entries_eq hle now start stop

/-- A page that is served. -/
theorem Reached.page_of_ok (h : Reached suite keys s₀ leaves service)
    (hready : LawfulStore.Ready s₀) (hempty : LawfulStore.view s₀ = View.empty)
    (hle : leaves.length ≤ 2 ^ 63) {now : Timestamp} {start stop : UInt64} {page : List Bytes}
    (hpage : (service.entries now start stop).1 = .ok page) :
    start.toNat < stop.toNat ∧ stop.toNat - start.toNat ≤ service.maxPage.toNat ∧
      start.toNat < leaves.length ∧
      page = ((leaves.map Leaf.bytes).take stop.toNat).drop start.toNat := by
  rw [h.entries_eq hready hempty hle] at hpage
  split at hpage
  · cases hpage
  · split at hpage
    · cases hpage
    · split at hpage
      · cases hpage
      · cases hpage
        exact ⟨by omega, by omega, by omega, rfl⟩

/-- Pages one after another add up to the rest of the log. -/
theorem Tiled.flatten_eq (hready : LawfulStore.Ready s₀)
    (hempty : LawfulStore.view s₀ = View.empty) (hle : leaves.length ≤ 2 ^ 63) {start : Nat}
    {pages : List (List Bytes)} (h : Tiled suite keys s₀ leaves start pages) :
    pages.flatten = (leaves.map Leaf.bytes).drop start := by
  induction h with
  | done hpast => rw [List.drop_eq_nil_of_le (by rwa [List.length_map]), List.flatten_nil]
  | @page service now start stop page pages hreached hpage _ ih =>
      obtain ⟨hlt, -, -, rfl⟩ := hreached.page_of_ok hready hempty hle hpage
      have hstop : stop.toNat = start.toNat + (stop.toNat - start.toNat) := by omega
      rw [List.flatten_cons, ih, List.drop_take]
      nth_rewrite 2 [hstop]
      exact List.drop_take_append_drop _ _ _

/-- What is tiled from the beginning was logged. -/
theorem Tiled.exists_log (hready : LawfulStore.Ready s₀)
    (hempty : LawfulStore.view s₀ = View.empty) (hle : leaves.length ≤ 2 ^ 63)
    {pages : List (List Bytes)} (h : Tiled suite keys s₀ leaves 0 pages) :
    ∃ log : List (Logged suite keys), log.map Logged.leaf = leaves := by
  -- Cases on `h` need its first position to be a variable.
  generalize hstart : 0 = start at h
  cases h with
  | done hpast =>
      rw [← hstart, Nat.le_zero, List.length_eq_zero_iff] at hpast
      exact ⟨[], hpast.symm⟩
  | page hreached _ _ =>
      obtain ⟨log, hlog, -⟩ := hreached.exists_holds hready hempty hle
      exact ⟨log, hlog⟩

/-- A service that has accepted `leaves` refuses a range that ends before it has begun, else one
that is longer than its pages, else one that begins past the end of the log. Any other it answers
with at least one and at most a page of byte strings: those that are filed from the first position
on, under whose hashes the head is. Pages that tile the log add up to it, whatever their limits, and
the leaves in them, appended to an empty tree, lead to a head with the same size and root. -/
theorem pages_serve_the_log (suite : Suite) (keys : KeyMaterial) (hready : LawfulStore.Ready s₀)
    (hempty : LawfulStore.view s₀ = View.empty) (hle : leaves.length ≤ 2 ^ 63) :
    RangeFault.empty.message = "end must be greater than start" ∧
    RangeFault.exceedsPage.message = "range exceeds page size" ∧
    (∀ service, Reached suite keys s₀ leaves service → ∀ now start stop,
      (service.entries now start stop).1 =
        (if stop.toNat ≤ start.toNat then .error (.invalidRange start stop .empty)
        else if service.maxPage.toNat < stop.toNat - start.toNat then
          .error (.invalidRange start stop .exceedsPage)
        else if leaves.length ≤ start.toNat then
          .error (.indexOutOfRange start (UInt64.ofNat leaves.length))
        else .ok (((leaves.map Leaf.bytes).take stop.toNat).drop start.toNat)) ∧
      (∀ page, (service.entries now start stop).1 = .ok page →
        1 ≤ page.length ∧ page.length ≤ service.maxPage.toNat ∧
        page.length = min stop.toNat leaves.length - start.toNat ∧
        ∀ k < page.length, page[k]? =
          LawfulStore.view service.store (StoreKey.leaf (UInt64.ofNat (start.toNat + k))).bytes) ∧
      ∃ shown head, (service.head suite now).1 = .ok shown ∧ TreeHead.decode shown = .ok head ∧
        head.size = UInt64.ofNat leaves.length ∧
        head.root = suite.hash.rootHash (leaves.map Leaf.bytes)) ∧
    ∀ pages, Tiled suite keys s₀ leaves 0 pages →
      pages.flatten = leaves.map Leaf.bytes ∧
      ∃ decoded, pages.flatten.mapM Leaf.decode = .ok decoded ∧
        Tree.Builds suite.hash decoded (UInt64.ofNat leaves.length)
          (suite.hash.rootHash (leaves.map Leaf.bytes)) := by
  refine ⟨rfl, rfl, ?_, ?_⟩
  · intro service hreached now start stop
    refine ⟨hreached.entries_eq hready hempty hle now start stop, fun page hpage => ?_, ?_⟩
    · obtain ⟨hlt, hfits, hinside, rfl⟩ := hreached.page_of_ok hready hempty hle hpage
      have hlength : (((leaves.map Leaf.bytes).take stop.toNat).drop start.toNat).length =
          min stop.toNat leaves.length - start.toNat := by
        rw [List.length_drop, List.length_take, List.length_map]
      rw [hlength]
      refine ⟨by omega, by omega, rfl, fun k hk => ?_⟩
      obtain ⟨log, rfl, h⟩ := hreached.exists_holds hready hempty hle
      rw [List.length_map] at hle hk
      rw [h.get_leaf hle (by omega), List.getElem?_drop, List.getElem?_take_of_lt (by omega)]
    · obtain ⟨log, rfl, h⟩ := hreached.exists_holds hready hempty hle
      rw [List.length_map] at hle ⊢
      obtain ⟨service', hhead, -⟩ := h.head hle now
      exact ⟨_, headOf log now, by rw [hhead], TreeHead.decode_encode _, rfl,
        by rw [← bytesOf_writtenOf]; rfl⟩
  · intro pages htiled
    have hflatten := htiled.flatten_eq hready hempty hle
    rw [List.drop_zero] at hflatten
    obtain ⟨log, rfl⟩ := htiled.exists_log hready hempty hle
    rw [List.length_map] at hle ⊢
    refine ⟨hflatten, log.map Logged.leaf, by rw [hflatten, mapM_decode], ?_⟩
    have hbuilds := Tree.builds_written suite.hash (writtenOf log)
      (by rwa [length_writtenOf])
    rw [length_writtenOf, bytesOf_writtenOf, writtenOf, List.map_map] at hbuilds
    exact hbuilds

/-- The bytes of the three sample leaves, asked for in a page of two, whose range reaches past the
end in the next request. -/
theorem pages_serve_the_log_sample :
    LawfulStore.Ready Versioned.empty ∧ LawfulStore.view Versioned.empty = View.empty ∧
    sampleLeaves.length ≤ 2 ^ 63 ∧
    ∃ service, Reached Suite.plain sampleKeys Versioned.empty sampleLeaves service ∧
      (service.entries (moment 3) 0 3).1 = .error (.invalidRange 0 3 .exceedsPage) ∧
      (service.entries (moment 3) 3 5).1 = .error (.indexOutOfRange 3 3) ∧
      ∃ pages, Tiled Suite.plain sampleKeys Versioned.empty sampleLeaves 0 pages ∧
        pages.map List.length = [2, 1] ∧ pages.flatten = sampleLeaves.map Leaf.bytes := by
  have hready : LawfulStore.Ready Versioned.empty := Versioned.bounded_empty
  have hempty : LawfulStore.view Versioned.empty = View.empty := Versioned.current_empty
  have hle : sampleLeaves.length ≤ 2 ^ 63 := by decide
  obtain ⟨service₁, hsample⟩ := exists_reached_sample
  obtain ⟨service, hreached, hmax⟩ :=
    hsample.exists_restart hready hempty hle (moment 3) (by decide : (2 : UInt64) ≠ 0)
  obtain ⟨-, -, hserve, htile⟩ :=
    pages_serve_the_log Suite.plain sampleKeys hready hempty hle
  have hentries := fun start stop => (hserve service hreached (moment 3) start stop).1
  simp only [hmax] at hentries
  have hpages : Tiled Suite.plain sampleKeys Versioned.empty sampleLeaves 0
      [[(sampleLeaf 5).bytes, (sampleLeaf 6).bytes], [(sampleLeaf 7).bytes]] :=
    .page hreached (hentries 0 2) (.page hreached (hentries 2 4) (.done (by decide)))
  exact ⟨hready, hempty, hle, service, hreached, hentries 0 3, hentries 3 5, _, hpages, rfl,
    (htile _ hpages).1⟩

end Service

end OwnershipLog
