import Mathlib.Data.List.Dedup
import Mathlib.Data.List.Perm.Subperm
import OwnershipLog.Proofs.Store.Snapshot

/-!
# What the store with versions keeps

The archive of a session is what a store that drops nothing would hold: under each key every
value that a commit ever wrote there (`Versioned.archived`). The store with versions keeps a
part of it. In every state that operations lead to, each open reader finds in a chain what it
would find in the archive, and right after a commit a chain that was written holds the newest
value, what some open reader finds, and nothing else (`Versioned.retention_exact`).

Pruning looks at two neighbours of a chain at a time, kept or not. In a chain that goes down that
keeps just what a pinned version resolves to (`Chain.mem_pruneBelow_iff`). What one operation
keeps is `Versioned.Retains.perform`; the past prunings come in through the readers, who still
resolve as in the archive.
-/

namespace OwnershipLog

open Session (Operation)

/-! ## Chains that go down -/

namespace Chain

/-- Newest first, each version once. -/
def Descending (chain : Chain) : Prop := chain.Pairwise fun newer older => older.1 < newer.1

/-- The entry is the newest of the chain that is not above `version`. -/
def Resolves (chain : Chain) (version : Nat) (entry : Nat × Bytes) : Prop :=
  entry ∈ chain ∧ entry.1 ≤ version ∧ ∀ other ∈ chain, other.1 ≤ version → other.1 ≤ entry.1

variable {pins : Pins} {chain older : Chain} {version v newer : Nat} {value : Bytes}
  {entry : Nat × Bytes}

theorem resolves_cons_of_lt (h : version < v) :
    Resolves ((v, value) :: older) version entry ↔ older.Resolves version entry := by
  constructor
  · rintro ⟨hmem, hle, hnewest⟩
    rcases List.mem_cons.1 hmem with rfl | hmem
    · exact absurd hle (Nat.not_le.2 h)
    · exact ⟨hmem, hle, fun other hother => hnewest other (List.mem_cons_of_mem _ hother)⟩
  · rintro ⟨hmem, hle, hnewest⟩
    refine ⟨List.mem_cons_of_mem _ hmem, hle, fun other hother hbelow => ?_⟩
    rcases List.mem_cons.1 hother with rfl | hother
    · exact absurd hbelow (Nat.not_le.2 h)
    · exact hnewest other hother hbelow

theorem resolves_cons_of_le (hdown : Descending ((v, value) :: older)) (h : v ≤ version) :
    Resolves ((v, value) :: older) version entry ↔ entry = (v, value) := by
  have hbelow := (List.pairwise_cons.1 hdown).1
  constructor
  · rintro ⟨hmem, -, hnewest⟩
    rcases List.mem_cons.1 hmem with rfl | hmem
    · rfl
    · exact absurd (hnewest (v, value) List.mem_cons_self h) (Nat.not_le.2 (hbelow entry hmem))
  · rintro rfl
    refine ⟨List.mem_cons_self, h, fun other hother _ => ?_⟩
    rcases List.mem_cons.1 hother with rfl | hother
    · exact Nat.le_refl _
    · exact Nat.le_of_lt (hbelow other hother)

/-- In a chain that goes down it is the first entry not above the version. -/
theorem seenAt_eq_some_iff (hdown : chain.Descending) :
    chain.seenAt version = some entry ↔ chain.Resolves version entry := by
  induction chain with
  | nil => simp [seenAt, Resolves]
  | cons head older ih =>
      obtain ⟨v, value⟩ := head
      rw [seenAt_cons]
      split
      · rename_i hle
        rw [resolves_cons_of_le hdown hle, Option.some.injEq, eq_comm]
      · rename_i hgt
        rw [resolves_cons_of_lt (Nat.not_le.1 hgt), ih (List.pairwise_cons.1 hdown).2]

theorem mem_pruneBelow_cons :
    entry ∈ pruneBelow pins newer ((v, value) :: older) ↔
      (pins.anyWithin v newer = true ∧ entry = (v, value)) ∨ entry ∈ pruneBelow pins v older := by
  rw [pruneBelow]
  split <;> simp_all

/-- Of the values older than the one written at `newer`, those stay that a version pinned below it
resolves to. -/
theorem mem_pruneBelow_iff (hdown : chain.Descending) (hbelow : ∀ other ∈ chain, other.1 < newer) :
    entry ∈ pruneBelow pins newer chain ↔
      ∃ pin ∈ pins.map Prod.fst, pin < newer ∧ chain.Resolves pin entry := by
  induction chain generalizing newer with
  | nil => simp [pruneBelow, Resolves]
  | cons head older ih =>
      obtain ⟨v, value⟩ := head
      have hv : v < newer := hbelow (v, value) List.mem_cons_self
      obtain ⟨holder, hrest⟩ := List.pairwise_cons.1 hdown
      rw [mem_pruneBelow_cons, ih hrest holder, Pins.anyWithin_iff]
      constructor
      · rintro (⟨⟨pin, hpin, hle, hlt⟩, rfl⟩ | ⟨pin, hpin, hlt, hresolves⟩)
        · exact ⟨pin, hpin, hlt, (resolves_cons_of_le hdown hle).2 rfl⟩
        · exact ⟨pin, hpin, Nat.lt_trans hlt hv, (resolves_cons_of_lt hlt).2 hresolves⟩
      · rintro ⟨pin, hpin, hlt, hresolves⟩
        -- What lies between the two neighbours resolves to the older of them.
        rcases Nat.lt_or_ge pin v with hpinv | hpinv
        · exact .inr ⟨pin, hpin, hpinv, (resolves_cons_of_lt hpinv).1 hresolves⟩
        · exact .inl ⟨⟨pin, hpin, hpinv, hlt⟩, (resolves_cons_of_le hdown hpinv).1 hresolves⟩

theorem mem_prune_cons_iff (hdown : Descending ((v, value) :: older)) :
    entry ∈ prune pins ((v, value) :: older) ↔
      entry = (v, value) ∨ ∃ pin ∈ pins.map Prod.fst, pin < v ∧ older.Resolves pin entry := by
  obtain ⟨hbelow, hrest⟩ := List.pairwise_cons.1 hdown
  rw [prune, List.mem_cons, mem_pruneBelow_iff hrest hbelow]

theorem seenAt_top (version : Nat) (value : Bytes) (older : Chain) :
    seenAt version ((version, value) :: older) = some (version, value) := by
  rw [seenAt_cons, if_pos (Nat.le_refl _)]

theorem Descending.nodup (h : chain.Descending) : chain.Nodup :=
  h.imp fun hlt heq => Nat.ne_of_gt hlt (congrArg Prod.fst heq)

end Chain

/-! ## The archive -/

namespace Versioned

/-- Under each key all that was ever committed, newest first. -/
abbrev Archive := Bytes → Chain

/-- A commit puts the values of its writer on top; nothing is ever dropped. -/
def Archive.next (archive : Archive) (a : Session Versioned Reader Writer) : Operation → Archive
  | .commit => fun key =>
    match a.writer.bind fun w => w.pending.lookup key with
    | some value => (a.store.version + 1, value) :: archive key
    | none => archive key
  | _ => archive

/-- The archive after operations. -/
def archived : List Operation → Session Versioned Reader Writer → Archive → Archive
  | [], _, archive => archive
  | operation :: operations, a, archive =>
    archived operations (a.perform operation).2 (archive.next a operation)

/-- The versions that the open readers are pinned at, one for each reader. -/
def pinned (a : Session Versioned Reader Writer) : List Nat :=
  a.readers.map fun entry => entry.2.version

/-- The chains are a part of the archive in which the open readers, and those opened now, find what
they would find in the whole of it. -/
structure Retains (archive : Archive) (a : Session Versioned Reader Writer) : Prop where
  consistent : Consistent a
  descending : ∀ key, (archive key).Descending
  bounded : ∀ key, (archive key).Bounded a.store.version
  sublist : ∀ key, (a.store.chain key).Sublist (archive key)
  seenAt_eq : ∀ key, ∀ version ∈ a.store.version :: pinned a,
    (a.store.chain key).seenAt version = (archive key).seenAt version

variable {archive : Archive} {a b : Session Versioned Reader Writer} {w : Writer}
  {key value : Bytes}

theorem Archive.next_of_put (hwriter : a.writer = some w)
    (hput : w.pending.lookup key = some value) :
    archive.next a .commit key = (a.store.version + 1, value) :: archive key := by
  simp only [Archive.next, hwriter, Option.bind_some, hput]

theorem Archive.next_of_no_put (hwriter : a.writer = some w) (hput : w.pending.lookup key = none) :
    archive.next a .commit key = archive key := by
  simp only [Archive.next, hwriter, Option.bind_some, hput]

theorem Archive.next_of_no_writer (hwriter : a.writer = none) :
    archive.next a .commit = archive := by
  rw [Archive.next, hwriter]
  rfl

theorem Consistent.chain_of_put (h : Consistent a) (hwriter : a.writer = some w)
    (hput : w.pending.lookup key = some value) :
    (a.store.commit w).chain key =
      Chain.prune a.store.pins ((a.store.version + 1, value) :: a.store.chain key) := by
  rw [chain_commit a.store (h.pending_nodup w hwriter), hput]

theorem Consistent.chain_of_no_put (h : Consistent a) (hwriter : a.writer = some w)
    (hput : w.pending.lookup key = none) : (a.store.commit w).chain key = a.store.chain key := by
  rw [chain_commit a.store (h.pending_nodup w hwriter), hput]

theorem retains_fresh : Retains (fun _ => []) (Session.fresh empty) where
  consistent := consistent_fresh bounded_empty rfl rfl
  descending _ := List.Pairwise.nil
  bounded _ _ hentry := by cases hentry
  sublist key := by
    have hchain : (Session.fresh empty : Session Versioned Reader Writer).store.chain key = [] := by
      simp [Session.fresh, chain, empty]
    rw [hchain]
  seenAt_eq key version _ := by simp [Session.fresh, chain, empty]

namespace Retains

theorem chain_descending (h : Retains archive a) (key : Bytes) :
    (a.store.chain key).Descending :=
  (h.descending key).sublist (h.sublist key)

theorem version_le (h : Retains archive a) {version : Nat} (hpinned : version ∈ pinned a) :
    version ≤ a.store.version := by
  obtain ⟨entry, hentry, rfl⟩ := List.mem_map.1 hpinned
  exact h.consistent.reader_le entry hentry

theorem of_same (h : Retains archive a) (hconsistent : Consistent b)
    (hchains : b.store.chains = a.store.chains) (hversion : b.store.version = a.store.version)
    (hpinned : ∀ version ∈ pinned b, version ∈ a.store.version :: pinned a) :
    Retains archive b where
  consistent := hconsistent
  descending := h.descending
  bounded := by
    rw [hversion]
    exact h.bounded
  sublist key := by
    rw [chain, hchains]
    exact h.sublist key
  seenAt_eq key version hmem := by
    rw [chain, hchains]
    rcases List.mem_cons.1 hmem with rfl | hmem
    · exact h.seenAt_eq key _ (hversion ▸ List.mem_cons_self)
    · exact h.seenAt_eq key version (hpinned version hmem)

theorem commit (h : Retains archive a) (hwriter : a.writer = some w) :
    Retains (archive.next a .commit) { a with store := a.store.commit w, writer := none } where
  consistent := h.consistent.commit hwriter
  descending key := by
    cases hput : w.pending.lookup key with
    | none =>
        rw [Archive.next_of_no_put hwriter hput]
        exact h.descending key
    | some value =>
        rw [Archive.next_of_put hwriter hput]
        refine List.pairwise_cons.2 ⟨fun older holder => ?_, h.descending key⟩
        exact Nat.lt_succ_of_le (h.bounded key older holder)
  bounded key entry hentry := by
    cases hput : w.pending.lookup key with
    | none =>
        rw [Archive.next_of_no_put hwriter hput] at hentry
        exact Nat.le_succ_of_le (h.bounded key entry hentry)
    | some value =>
        rw [Archive.next_of_put hwriter hput] at hentry
        rcases List.mem_cons.1 hentry with rfl | hentry
        · exact Nat.le_refl _
        · exact Nat.le_succ_of_le (h.bounded key entry hentry)
  sublist key := by
    cases hput : w.pending.lookup key with
    | none =>
        rw [Archive.next_of_no_put hwriter hput, h.consistent.chain_of_no_put hwriter hput]
        exact h.sublist key
    | some value =>
        rw [Archive.next_of_put hwriter hput, h.consistent.chain_of_put hwriter hput]
        exact (Chain.prune_sublist _ _).trans ((h.sublist key).cons_cons _)
  seenAt_eq key version hmem := by
    have hstep : a.store.version ≤ a.store.version + 1 := Nat.le_succ _
    cases hput : w.pending.lookup key with
    | none =>
        rw [Archive.next_of_no_put hwriter hput, h.consistent.chain_of_no_put hwriter hput]
        rcases List.mem_cons.1 hmem with rfl | hpinned
        · -- Nothing was written, so the version before sees the same.
          refine (Chain.seenAt_eq_of_bounded (h.consistent.bounded key) hstep).trans ?_
          refine Eq.trans ?_ (Chain.seenAt_eq_of_bounded (h.bounded key) hstep).symm
          exact h.seenAt_eq key _ List.mem_cons_self
        · exact h.seenAt_eq key version (List.mem_cons_of_mem _ hpinned)
    | some value =>
        rw [Archive.next_of_put hwriter hput, h.consistent.chain_of_put hwriter hput]
        rcases List.mem_cons.1 hmem with rfl | hpinned
        · exact (Chain.seenAt_top ..).trans (Chain.seenAt_top ..).symm
        · have hgt : ¬a.store.version + 1 ≤ version :=
            Nat.not_le.2 (Nat.lt_succ_of_le (h.version_le hpinned))
          rw [Chain.seenAt_prune (h.consistent.pins_count.mem_keys_iff.2 hpinned), Chain.seenAt_cons,
            Chain.seenAt_cons, if_neg hgt, if_neg hgt]
          exact h.seenAt_eq key version (List.mem_cons_of_mem _ hpinned)

theorem perform (h : Retains archive a) (operation : Operation) :
    Retains (archive.next a operation) (a.perform operation).2 := by
  have hconsistent := h.consistent.perform operation
  have hsub : ∀ version ∈ pinned a, version ∈ a.store.version :: pinned a :=
    fun _ hmem => List.mem_cons_of_mem _ hmem
  cases operation with
  | openReader name =>
      rw [Session.perform] at hconsistent ⊢
      cases hname : a.readers.lookup name with
      | none =>
          rw [hname] at hconsistent
          exact h.of_same hconsistent rfl rfl fun _ hmem => hmem
      | some r => exact h
  | read name key =>
      rw [Session.perform]
      cases a.readers.lookup name <;> exact h
  | closeReader name =>
      rw [Session.perform] at hconsistent ⊢
      cases hname : a.readers.lookup name with
      | none => exact h
      | some r =>
          rw [hname] at hconsistent
          refine h.of_same hconsistent rfl rfl fun version hmem => hsub version ?_
          exact (List.filter_sublist.map _).subset hmem
  | openWriter =>
      rw [Session.perform] at hconsistent ⊢
      cases hwriter : a.writer with
      | none =>
          rw [hwriter] at hconsistent
          exact h.of_same hconsistent rfl rfl hsub
      | some w => exact h
  | peek key =>
      cases hwriter : a.writer with
      | none => rwa [Session.perform, hwriter]
      | some w => rwa [perform_peek hwriter]
  | put key value =>
      rw [Session.perform] at hconsistent ⊢
      cases hwriter : a.writer with
      | none => exact h
      | some w =>
          rw [hwriter] at hconsistent
          exact h.of_same hconsistent rfl rfl hsub
  | commit =>
      rw [Session.perform]
      cases hwriter : a.writer with
      | none => rwa [Archive.next_of_no_writer hwriter]
      | some w => exact h.commit hwriter
  | discard =>
      rw [Session.perform] at hconsistent ⊢
      cases hwriter : a.writer with
      | none => exact h
      | some w =>
          rw [hwriter] at hconsistent
          exact h.of_same hconsistent rfl rfl hsub

theorem run (h : Retains archive a) (operations : List Operation) :
    Retains (archived operations a archive) (Session.run operations a).2 := by
  induction operations generalizing a archive with
  | nil => exact h
  | cons operation operations ih => exact ih (h.perform operation)

end Retains

/-! ## What is kept -/

/-- The store accounts for the open readers, and keeps for each what it resolves to. -/
structure Exact (archive : Archive) (a : Session Versioned Reader Writer) : Prop where
  pins_nodup : (a.store.pins.map Prod.fst).Nodup
  mem_pins_iff : ∀ version n, (version, n) ∈ a.store.pins ↔ 0 < n ∧ n = (pinned a).count version
  pin_le : ∀ pin ∈ a.store.pins.map Prod.fst, pin ≤ a.store.version
  descending : ∀ key, (a.store.chain key).Descending
  resolves_iff : ∀ key, ∀ version ∈ pinned a, ∀ entry,
    (a.store.chain key).Resolves version entry ↔ (archive key).Resolves version entry

/-- The commit of `w` led from `a` to `b`, with this archive after it: a chain that was written
keeps its newest entry and what the open readers resolve to. -/
structure ExactCommit (archive : Archive) (w : Writer) (a b : Session Versioned Reader Writer) :
    Prop where
  version_eq : b.store.version = a.store.version + 1
  mem_chain_iff : ∀ key value, w.pending.lookup key = some value → ∀ entry,
    entry ∈ b.store.chain key ↔ entry = (b.store.version, value) ∨
      ∃ version ∈ pinned b, (archive key).Resolves version entry
  retained_le : ∀ key value, w.pending.lookup key = some value →
    b.store.retained key ≤ 1 + (pinned b).dedup.length
  retained_eq : pinned b = [] → ∀ key value, w.pending.lookup key = some value →
    b.store.retained key = 1
  chain_eq : ∀ key, w.pending.lookup key = none → b.store.chain key = a.store.chain key

namespace Retains

theorem exact (h : Retains archive a) : Exact archive a where
  pins_nodup := h.consistent.pins_count.nodup
  mem_pins_iff := h.consistent.pins_count.mem_iff
  pin_le pin hpin := h.version_le (h.consistent.pins_count.mem_keys_iff.1 hpin)
  descending := h.chain_descending
  resolves_iff key version hpinned entry := by
    rw [← Chain.seenAt_eq_some_iff (h.chain_descending key),
      ← Chain.seenAt_eq_some_iff (h.descending key),
      h.seenAt_eq key version (List.mem_cons_of_mem _ hpinned)]

/-- Pruning at a commit drops all but the newest entry and what the open readers resolve to. -/
theorem mem_chain_commit_iff (h : Retains archive a) (hwriter : a.writer = some w)
    (hput : w.pending.lookup key = some value) (entry : Nat × Bytes) :
    entry ∈ (a.store.commit w).chain key ↔ entry = (a.store.version + 1, value) ∨
      ∃ version ∈ pinned a, (archive.next a .commit key).Resolves version entry := by
  have hbelow : ∀ version ∈ pinned a, version < a.store.version + 1 :=
    fun version hpinned => Nat.lt_succ_of_le (h.version_le hpinned)
  have hdown : Chain.Descending ((a.store.version + 1, value) :: a.store.chain key) := by
    refine List.pairwise_cons.2 ⟨fun older holder => ?_, h.chain_descending key⟩
    exact Nat.lt_succ_of_le (h.consistent.bounded key older holder)
  rw [h.consistent.chain_of_put hwriter hput, Chain.mem_prune_cons_iff hdown,
    Archive.next_of_put hwriter hput]
  refine or_congr_right (exists_congr fun version => ?_)
  rw [h.consistent.pins_count.mem_keys_iff]
  refine and_congr_right fun hpinned => ?_
  rw [Chain.resolves_cons_of_lt (hbelow version hpinned), h.exact.resolves_iff key version hpinned,
    and_iff_right (hbelow version hpinned)]

theorem retained_commit_le (h : Retains archive a) (hwriter : a.writer = some w)
    (hput : w.pending.lookup key = some value) :
    (a.store.commit w).retained key ≤ 1 + (pinned a).dedup.length := by
  have hdown := (h.commit hwriter).descending key
  let found := (pinned a).dedup.filterMap fun version =>
    (archive.next a .commit key).seenAt version
  have hsubset : (a.store.commit w).chain key ⊆ (a.store.version + 1, value) :: found := by
    intro entry hentry
    rcases (h.mem_chain_commit_iff hwriter hput entry).1 hentry with rfl | ⟨version, hmem, hres⟩
    · exact List.mem_cons_self
    · refine List.mem_cons_of_mem _ (List.mem_filterMap.2 ⟨version, List.mem_dedup.2 hmem, ?_⟩)
      exact (Chain.seenAt_eq_some_iff hdown).2 hres
  have hnodup := ((h.commit hwriter).chain_descending key).nodup
  calc (a.store.commit w).retained key
      ≤ found.length + 1 := (hnodup.subperm hsubset).length_le
    _ ≤ (pinned a).dedup.length + 1 := Nat.succ_le_succ (List.length_filterMap_le ..)
    _ = 1 + (pinned a).dedup.length := Nat.add_comm ..

theorem exactCommit (h : Retains archive a) (hwriter : a.writer = some w) :
    ExactCommit (archive.next a .commit) w a (a.perform .commit).2 := by
  have hperform : (a.perform .commit).2 = { a with store := a.store.commit w, writer := none } := by
    rw [Session.perform, hwriter]
    rfl
  rw [hperform]
  refine ⟨rfl, fun key value hput => h.mem_chain_commit_iff hwriter hput,
    fun key value hput => h.retained_commit_le hwriter hput, fun hnone key value hput => ?_,
    fun key hput => h.consistent.chain_of_no_put hwriter hput⟩
  have hnewest := (h.mem_chain_commit_iff hwriter hput _).2 (.inl rfl)
  have hpositive : 0 < ((a.store.commit w).chain key).length := List.length_pos_of_mem hnewest
  have hle := h.retained_commit_le hwriter hput
  have hpinned : pinned a = [] := hnone
  rw [hpinned] at hle
  exact Nat.le_antisymm hle hpositive

end Retains

/-- Whatever the transactions over the store do, the store is exact about what it keeps, and so is
the next commit. -/
theorem retention_exact (operations : List Operation) :
    let a := (Session.run operations (Session.fresh empty)).2
    let archive := archived operations (Session.fresh empty) fun _ => []
    Exact archive a ∧ ∀ w ∈ a.writer,
      ExactCommit (archive.next a .commit) w a (a.perform .commit).2 := by
  have h := retains_fresh.run operations
  exact ⟨h.exact, fun w hwriter => h.exactCommit hwriter⟩

end Versioned

end OwnershipLog
