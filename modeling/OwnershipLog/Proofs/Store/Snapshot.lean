import OwnershipLog.Proofs.Store.Lawful
import OwnershipLog.Proofs.Store.Session

/-!
# Snapshots without copies

A reader of the store with versions is only a number, and every commit drops values
from the chains it writes. The open readers are counted where they are pinned
(`Pins.Counts`), pruning keeps what a pinned version resolves to (`Chain.at?_prune`),
and the writer's base stays the current version as long as it is open. So the copies
of the copying store can be read off the store with versions at any moment
(`Versioned.copies`), and one operation leads from copies to copies.
-/

namespace OwnershipLog

/-! ## Names -/

section Names

variable {α β : Type}

theorem lookup_map_snd (f : α → β) (entries : List (Nat × α)) (name : Nat) :
    (entries.map fun entry => (entry.1, f entry.2)).lookup name =
      (entries.lookup name).map f := by
  induction entries with
  | nil => rfl
  | cons entry entries ih =>
      rw [List.map_cons, List.lookup_cons, List.lookup_cons, ih]
      cases name == entry.1 <;> rfl

theorem mem_of_lookup {entries : List (Nat × α)} {name : Nat} {a : α}
    (h : entries.lookup name = some a) : (name, a) ∈ entries := by
  induction entries with
  | nil => cases h
  | cons entry entries ih =>
      rw [List.lookup_cons] at h
      split at h
      · rename_i hname
        cases h
        rw [eq_of_beq hname]
        exact List.mem_cons_self
      · exact List.mem_cons_of_mem _ (ih h)

theorem not_mem_names_of_lookup {entries : List (Nat × α)} {name : Nat}
    (h : entries.lookup name = none) : name ∉ entries.map Prod.fst := by
  intro hmem
  obtain ⟨entry, hentry, rfl⟩ := List.mem_map.1 hmem
  exact bne_iff_ne.1 (List.lookup_eq_none_iff.1 h entry hentry) rfl

theorem lookup_of_mem {entries : List (Nat × α)} {name : Nat} {a : α}
    (hnodup : (entries.map Prod.fst).Nodup) (hmem : (name, a) ∈ entries) :
    entries.lookup name = some a := by
  induction entries with
  | nil => cases hmem
  | cons entry entries ih =>
      rw [List.map_cons, List.nodup_cons] at hnodup
      rw [List.lookup_cons]
      rcases List.mem_cons.1 hmem with rfl | hrest
      · rw [beq_self_eq_true]
      · have hne : name ≠ entry.1 := by
          rintro rfl
          exact hnodup.1 (List.mem_map.2 ⟨_, hrest, rfl⟩)
        rw [beq_false_of_ne hne]
        exact ih hnodup.2 hrest

/-- Under names that are all different, a name stands for one entry. -/
theorem perm_cons_filter_of_lookup {entries : List (Nat × α)} {name : Nat} {a : α}
    (hnodup : (entries.map Prod.fst).Nodup) (h : entries.lookup name = some a) :
    entries.Perm ((name, a) :: entries.filter fun entry => decide (entry.1 ≠ name)) := by
  induction entries with
  | nil => cases h
  | cons entry entries ih =>
      obtain ⟨k, b⟩ := entry
      rw [List.map_cons, List.nodup_cons] at hnodup
      rw [List.lookup_cons] at h
      by_cases hname : name = k
      · subst hname
        rw [beq_self_eq_true] at h
        cases h
        have hrest : ∀ entry ∈ entries, decide (entry.1 ≠ name) = true := by
          intro entry hentry
          refine decide_eq_true fun heq => hnodup.1 ?_
          exact List.mem_map.2 ⟨entry, hentry, heq⟩
        rw [List.filter_cons_of_neg (by simp), List.filter_eq_self.2 hrest]
      · rw [beq_false_of_ne hname] at h
        rw [List.filter_cons_of_pos (by simp [Ne.symm hname])]
        exact ((ih hnodup.2 h).cons _).trans (List.Perm.swap ..)

end Names

/-! ## Counting the open readers -/

namespace Pins

/-- How many readers are pinned at a version. -/
def readersAt (version : Nat) (pins : Pins) : Nat := (pins.lookup version).getD 0

theorem readersAt_nil (version : Nat) : readersAt version [] = 0 := rfl

theorem readersAt_cons (version v n : Nat) (pins : Pins) :
    readersAt version ((v, n) :: pins) = if version = v then n else readersAt version pins := by
  by_cases h : version = v
  · subst h
    simp [readersAt]
  · have hne : (version == v) = false := beq_false_of_ne h
    rw [if_neg h, readersAt, List.lookup_cons, hne, readersAt]

theorem mem_of_readersAt_pos {version : Nat} {pins : Pins} (h : 0 < pins.readersAt version) :
    version ∈ pins.map Prod.fst := by
  rw [readersAt] at h
  cases hlookup : pins.lookup version with
  | none =>
      rw [hlookup] at h
      cases h
  | some n => exact List.mem_map.2 ⟨(version, n), mem_of_lookup hlookup, rfl⟩

theorem readersAt_pin (v version : Nat) (pins : Pins) :
    (pins.pin version).readersAt v = pins.readersAt v + if v = version then 1 else 0 := by
  induction pins with
  | nil => rw [pin, readersAt_cons, readersAt_nil, Nat.zero_add]
  | cons entry pins ih =>
      rw [pin]
      split <;> grind [readersAt_cons]

theorem keys_pin (version : Nat) (pins : Pins) :
    (pins.pin version).map Prod.fst =
      if version ∈ pins.map Prod.fst then pins.map Prod.fst
      else pins.map Prod.fst ++ [version] := by
  induction pins with
  | nil => rfl
  | cons entry pins ih =>
      obtain ⟨v, n⟩ := entry
      rw [pin]
      grind

theorem pos_of_mem_pin {version : Nat} {pins : Pins} (h : ∀ entry ∈ pins, 0 < entry.2) :
    ∀ entry ∈ pins.pin version, 0 < entry.2 := by
  induction pins with
  | nil => simp [pin]
  | cons head pins ih =>
      rw [pin]
      grind

theorem unpin_keys_sublist (version : Nat) (pins : Pins) :
    ((pins.unpin version).map Prod.fst).Sublist (pins.map Prod.fst) := by
  induction pins with
  | nil => exact List.Sublist.slnil
  | cons entry pins ih =>
      rw [unpin]
      split
      · split
        · exact List.sublist_cons_self ..
        · exact List.Sublist.refl _
      · exact ih.cons_cons _

theorem pos_of_mem_unpin {version : Nat} {pins : Pins} (h : ∀ entry ∈ pins, 0 < entry.2) :
    ∀ entry ∈ pins.unpin version, 0 < entry.2 := by
  induction pins with
  | nil => simp [unpin]
  | cons head pins ih =>
      rw [unpin]
      grind

/-- One reader fewer at `version`, and as many as before elsewhere. -/
theorem readersAt_unpin {pins : Pins} (hnodup : (pins.map Prod.fst).Nodup) (v version : Nat) :
    (pins.unpin version).readersAt v = pins.readersAt v - if v = version then 1 else 0 := by
  induction pins with
  | nil => rw [unpin, readersAt_nil, Nat.zero_sub]
  | cons entry pins ih =>
      obtain ⟨k, n⟩ := entry
      rw [List.map_cons, List.nodup_cons] at hnodup
      have hrest : k = v → readersAt v pins = 0 := fun h =>
        Nat.eq_zero_of_not_pos fun hpos => hnodup.1 (h ▸ mem_of_readersAt_pos hpos)
      rw [unpin]
      grind [readersAt_cons]

/-- The pins count these versions, each as often as it occurs, and nothing else. -/
structure Counts (pins : Pins) (versions : List Nat) : Prop where
  nodup : (pins.map Prod.fst).Nodup
  positive : ∀ entry ∈ pins, 0 < entry.2
  readersAt_eq : ∀ version, pins.readersAt version = versions.count version

namespace Counts

variable {pins : Pins} {versions : List Nat}

theorem nil : Counts [] [] := ⟨List.nodup_nil, by simp, fun _ => rfl⟩

/-- The table has an entry for each version that some reader is pinned at, and no other. -/
theorem mem_iff (h : pins.Counts versions) (version n : Nat) :
    (version, n) ∈ pins ↔ 0 < n ∧ n = versions.count version := by
  rw [← h.readersAt_eq]
  constructor
  · intro hmem
    refine ⟨h.positive _ hmem, ?_⟩
    rw [readersAt, lookup_of_mem h.nodup hmem, Option.getD_some]
  · rintro ⟨hpos, rfl⟩
    rw [readersAt] at hpos ⊢
    cases hlookup : pins.lookup version with
    | none => simp [hlookup] at hpos
    | some n => exact mem_of_lookup hlookup

theorem mem_keys_iff (h : pins.Counts versions) {version : Nat} :
    version ∈ pins.map Prod.fst ↔ version ∈ versions := by
  constructor
  · intro hmem
    obtain ⟨⟨_, n⟩, hentry, rfl⟩ := List.mem_map.1 hmem
    obtain ⟨hpos, rfl⟩ := (h.mem_iff _ n).1 hentry
    exact List.count_pos_iff.1 hpos
  · intro hmem
    apply mem_of_readersAt_pos
    rw [h.readersAt_eq]
    exact List.count_pos_iff.2 hmem

theorem perm {others : List Nat} (h : pins.Counts versions) (hperm : versions.Perm others) :
    pins.Counts others :=
  ⟨h.nodup, h.positive, fun version => (h.readersAt_eq version).trans (hperm.count_eq version)⟩

theorem pin (h : pins.Counts versions) (version : Nat) :
    (pins.pin version).Counts (version :: versions) := by
  refine ⟨?_, pos_of_mem_pin h.positive, ?_⟩
  · rw [keys_pin]
    split
    · exact h.nodup
    · rename_i hfresh
      refine List.nodup_append.2 ⟨h.nodup, by simp, ?_⟩
      grind
  · intro v
    rw [readersAt_pin, h.readersAt_eq, List.count_cons]
    grind

theorem unpin {version : Nat} (h : pins.Counts (version :: versions)) :
    (pins.unpin version).Counts versions := by
  refine ⟨(unpin_keys_sublist version pins).nodup h.nodup, pos_of_mem_unpin h.positive, ?_⟩
  intro v
  rw [readersAt_unpin h.nodup, h.readersAt_eq, List.count_cons]
  grind

end Counts

theorem anyWithin_iff {pins : Pins} {low high : Nat} :
    pins.anyWithin low high = true ↔ ∃ pin ∈ pins.map Prod.fst, low ≤ pin ∧ pin < high := by
  simp [anyWithin]

end Pins

/-! ## Pruning -/

namespace Chain

variable {pins : Pins} {version : Nat}

theorem seenAt_pruneBelow (hpin : version ∈ pins.map Prod.fst) {newer : Nat} (h : version < newer)
    (chain : Chain) : (chain.pruneBelow pins newer).seenAt version = chain.seenAt version := by
  induction chain generalizing newer with
  | nil => rfl
  | cons entry older ih =>
      obtain ⟨v, value⟩ := entry
      rw [pruneBelow, seenAt_cons]
      by_cases hv : v ≤ version
      · -- This is the entry the reader resolves to, so it stays.
        rw [if_pos (Pins.anyWithin_iff.2 ⟨version, hpin, hv, h⟩), seenAt_cons, if_pos hv, if_pos hv]
      · have hrest := ih (Nat.lt_of_not_le hv)
        rw [if_neg hv]
        split
        · rw [seenAt_cons, if_neg hv, hrest]
        · exact hrest

/-- A pinned version resolves to the same entry after pruning, or to none as before. -/
theorem seenAt_prune (hpin : version ∈ pins.map Prod.fst) (chain : Chain) :
    (chain.prune pins).seenAt version = chain.seenAt version := by
  cases chain with
  | nil => rfl
  | cons entry older =>
      obtain ⟨v, value⟩ := entry
      rw [prune, seenAt_cons, seenAt_cons]
      split
      · rfl
      · rename_i hv
        exact seenAt_pruneBelow hpin (Nat.lt_of_not_le hv) older

theorem at?_prune (hpin : version ∈ pins.map Prod.fst) (chain : Chain) :
    (chain.prune pins).at? version = chain.at? version := by
  rw [at?_eq_seenAt, seenAt_prune hpin, at?_eq_seenAt]

end Chain

namespace Versioned

/-- A commit changes nothing at a pinned version. -/
theorem at?_commit_of_pinned {s : Versioned} {w : Writer} {version : Nat}
    (hnodup : (w.pending.map Prod.fst).Nodup) (hpin : version ∈ s.pins.map Prod.fst)
    (hle : version ≤ s.version) : (s.commit w).at? version = s.at? version := by
  funext key
  show ((s.commit w).chain key).at? version = (s.chain key).at? version
  rw [chain_commit s hnodup]
  split
  · rw [Chain.at?_prune hpin, Chain.at?_cons, if_neg (Nat.not_le.2 (Nat.lt_succ_of_le hle))]
  · rfl

/-! ## The copies behind the numbers -/

/-- The session over the copying store that this one stands for: each reader and the writer with a
copy of what they see. -/
def copies (a : Session Versioned Reader Writer) : Session Copying View View where
  store := ⟨a.store.current⟩
  readers := a.readers.map fun entry => (entry.1, a.store.at? entry.2.version)
  writer := a.writer.map fun w => w.get a.store

/-- The store knows of the transactions over it. -/
structure Consistent (a : Session Versioned Reader Writer) : Prop where
  bounded : a.store.Bounded
  names_nodup : (a.readers.map Prod.fst).Nodup
  /-- Each open reader is counted at its version. -/
  pins_count : a.store.pins.Counts (a.readers.map fun entry => entry.2.version)
  reader_le : ∀ entry ∈ a.readers, entry.2.version ≤ a.store.version
  locked_eq : a.store.locked = a.writer.isSome
  /-- Nobody else commits while the writer is open. -/
  base_eq : ∀ w ∈ a.writer, w.base = a.store.version
  pending_nodup : ∀ w ∈ a.writer, (w.pending.map Prod.fst).Nodup

variable {a : Session Versioned Reader Writer}

theorem consistent_fresh {s : Versioned} (hbounded : s.Bounded) (hpins : s.pins = [])
    (hlocked : s.locked = false) : Consistent (Session.fresh s) where
  bounded := hbounded
  names_nodup := List.nodup_nil
  pins_count := by
    show s.pins.Counts []
    rw [hpins]
    exact Pins.Counts.nil
  reader_le := by simp [Session.fresh]
  locked_eq := hlocked
  base_eq := by simp [Session.fresh]
  pending_nodup := by simp [Session.fresh]

theorem lookup_copies (a : Session Versioned Reader Writer) (name : Nat) :
    (copies a).readers.lookup name =
      (a.readers.lookup name).map fun r => a.store.at? r.version :=
  lookup_map_snd (fun r : Reader => a.store.at? r.version) a.readers name

namespace Consistent

variable {name : Nat} {r : Reader} {w : Writer}

theorem openReader (h : Consistent a) (hname : a.readers.lookup name = none) :
    Consistent { a with
      store := { a.store with pins := a.store.pins.pin a.store.version }
      readers := (name, ⟨a.store.version⟩) :: a.readers } where
  bounded := h.bounded
  names_nodup := List.nodup_cons.2 ⟨not_mem_names_of_lookup hname, h.names_nodup⟩
  pins_count := h.pins_count.pin a.store.version
  reader_le := List.forall_mem_cons.2 ⟨Nat.le_refl _, h.reader_le⟩
  locked_eq := h.locked_eq
  base_eq := h.base_eq
  pending_nodup := h.pending_nodup

theorem closeReader (h : Consistent a) (hname : a.readers.lookup name = some r) :
    Consistent { a with
      store := { a.store with pins := a.store.pins.unpin r.version }
      readers := a.readers.filter fun entry => decide (entry.1 ≠ name) } where
  bounded := h.bounded
  names_nodup := (List.filter_sublist.map _).nodup h.names_nodup
  pins_count :=
    (h.pins_count.perm ((perm_cons_filter_of_lookup h.names_nodup hname).map _)).unpin
  reader_le := fun entry hentry => h.reader_le entry (List.mem_filter.1 hentry).1
  locked_eq := h.locked_eq
  base_eq := h.base_eq
  pending_nodup := h.pending_nodup

theorem openWriter (h : Consistent a) :
    Consistent { a with
      store := { a.store with locked := true }, writer := some ⟨a.store.version, []⟩ } where
  bounded := h.bounded
  names_nodup := h.names_nodup
  pins_count := h.pins_count
  reader_le := h.reader_le
  locked_eq := rfl
  base_eq := by simp
  pending_nodup := by simp

theorem put (h : Consistent a) (hwriter : a.writer = some w) (key value : Bytes) :
    Consistent { a with writer := some (w.put key value) } where
  bounded := h.bounded
  names_nodup := h.names_nodup
  pins_count := h.pins_count
  reader_le := h.reader_le
  locked_eq := by rw [h.locked_eq, hwriter]; rfl
  base_eq := by
    rintro _ ⟨⟩
    exact h.base_eq w hwriter
  pending_nodup := by
    rintro _ ⟨⟩
    exact nodup_put (h.pending_nodup w hwriter) key value

theorem commit (h : Consistent a) (hwriter : a.writer = some w) :
    Consistent { a with store := a.store.commit w, writer := none } where
  bounded := bounded_commit h.bounded (h.pending_nodup w hwriter)
  names_nodup := h.names_nodup
  pins_count := h.pins_count
  reader_le := fun entry hentry => Nat.le_succ_of_le (h.reader_le entry hentry)
  locked_eq := rfl
  base_eq := by simp
  pending_nodup := by simp

theorem discard (h : Consistent a) :
    Consistent { a with store := { a.store with locked := false }, writer := none } where
  bounded := h.bounded
  names_nodup := h.names_nodup
  pins_count := h.pins_count
  reader_le := h.reader_le
  locked_eq := rfl
  base_eq := by simp
  pending_nodup := by simp

/-- No open reader notices a commit. -/
theorem at?_commit (h : Consistent a) (hwriter : a.writer = some w) {entry : Nat × Reader}
    (hentry : entry ∈ a.readers) :
    (a.store.commit w).at? entry.2.version = a.store.at? entry.2.version := by
  have hpin : entry.2.version ∈ a.store.pins.map Prod.fst :=
    h.pins_count.mem_keys_iff.2 (List.mem_map.2 ⟨entry, hentry, rfl⟩)
  exact at?_commit_of_pinned (h.pending_nodup w hwriter) hpin (h.reader_le entry hentry)

end Consistent

theorem perform_peek {w : Writer} (hwriter : a.writer = some w) (key : Bytes) :
    a.perform (.peek key) = (some (.ok (w.get a.store key)), a) := by
  rw [Session.perform, hwriter]
  show (_, { a with writer := some w }) = _
  rw [← hwriter]

/-- Every operation leaves the store with the right accounts. -/
theorem Consistent.perform (h : Consistent a) (operation : Session.Operation) :
    Consistent (a.perform operation).2 := by
  cases operation with
  | openReader name =>
      rw [Session.perform]
      cases hname : a.readers.lookup name with
      | none => exact h.openReader hname
      | some r => exact h
  | read name key =>
      rw [Session.perform]
      cases a.readers.lookup name <;> exact h
  | closeReader name =>
      rw [Session.perform]
      cases hname : a.readers.lookup name with
      | none => exact h
      | some r => exact h.closeReader hname
  | openWriter =>
      rw [Session.perform]
      cases a.writer with
      | none => exact h.openWriter
      | some w => exact h
  | peek key =>
      cases hwriter : a.writer with
      | none => rwa [Session.perform, hwriter]
      | some w => rwa [perform_peek hwriter]
  | put key value =>
      rw [Session.perform]
      cases hwriter : a.writer with
      | none => exact h
      | some w => exact h.put hwriter key value
  | commit =>
      rw [Session.perform]
      cases hwriter : a.writer with
      | none => exact h
      | some w => exact h.commit hwriter
  | discard =>
      rw [Session.perform]
      cases a.writer with
      | none => exact h
      | some w => exact h.discard

theorem copies_closeReader (a : Session Versioned Reader Writer) (pins : Pins) (name : Nat) :
    copies { a with
      store := { a.store with pins }
      readers := a.readers.filter fun entry => decide (entry.1 ≠ name) } =
    { copies a with
      readers := (copies a).readers.filter fun entry => decide (entry.1 ≠ name) } := by
  simp only [copies, List.filter_map]
  rfl

theorem copies_put (a : Session Versioned Reader Writer) (w : Writer) (key value : Bytes) :
    copies { a with writer := some (w.put key value) } =
      { copies a with writer := some (View.put (w.get a.store) key value) } := by
  simp only [copies, Option.map_some, get_put]

theorem copies_commit (h : Consistent a) {w : Writer} (hwriter : a.writer = some w) :
    copies { a with store := a.store.commit w, writer := none } =
      { copies a with store := ⟨w.get a.store⟩, writer := none } := by
  have hcurrent := current_commit h.bounded (h.base_eq w hwriter) (h.pending_nodup w hwriter)
  have hreaders : (copies { a with store := a.store.commit w, writer := none }).readers =
      (copies a).readers :=
    List.map_congr_left fun entry hentry => by rw [h.at?_commit hwriter hentry]
  simp only [copies] at hreaders ⊢
  rw [hcurrent, hreaders]
  rfl

/-- An operation on the copies answers as on the store with versions, and leads to its copies. -/
theorem perform_copies (h : Consistent a) (operation : Session.Operation) :
    (copies a).perform operation =
      ((a.perform operation).1, copies (a.perform operation).2) := by
  have hname := lookup_copies a
  have hwriter : (copies a).writer = a.writer.map fun w => w.get a.store := rfl
  cases operation with
  | openReader name =>
      simp only [Session.perform, hname]
      cases a.readers.lookup name <;> rfl
  | read name key =>
      simp only [Session.perform, hname]
      cases a.readers.lookup name <;> rfl
  | closeReader name =>
      simp only [Session.perform, hname]
      cases a.readers.lookup name with
      | none => rfl
      | some r => exact congrArg (Prod.mk _) (copies_closeReader a _ name).symm
  | openWriter =>
      simp only [Session.perform, hwriter]
      cases a.writer <;> rfl
  | peek key =>
      cases hopen : a.writer with
      | none => simp only [Session.perform, hwriter, hopen, Option.map_none]
      | some w =>
          rw [perform_peek hopen, Session.perform, hwriter, hopen, Option.map_some]
          simp only [copies, hopen]
          rfl
  | put key value =>
      simp only [Session.perform, hwriter]
      cases hopen : a.writer with
      | none => rfl
      | some w => exact congrArg (Prod.mk _) (copies_put a w key value).symm
  | commit =>
      simp only [Session.perform, hwriter]
      cases hopen : a.writer with
      | none => rfl
      | some w => exact congrArg (Prod.mk _) (copies_commit h hopen).symm
  | discard =>
      simp only [Session.perform, hwriter]
      cases a.writer <;> rfl

instance : SnapshotStore Versioned Reader Writer where
  Idle s := s.Bounded ∧ s.pins = [] ∧ s.locked = false
  ready_of_idle h := h.1
  Stands a b := Consistent a ∧ b = copies a
  stands_of_idle h := ⟨consistent_fresh h.1 h.2.1 h.2.2, rfl⟩
  view_of_stands := by
    rintro a _ ⟨-, rfl⟩
    rfl
  perform_of_stands := by
    rintro a _ ⟨h, rfl⟩ operation
    rw [perform_copies h operation]
    exact ⟨rfl, h.perform operation, rfl⟩

theorem idle_empty : SnapshotStore.Idle empty := ⟨bounded_empty, rfl, rfl⟩

/-- Whatever the transactions over the store do, and however they overlap, every answer is the one
of the store that copies; and a commit at the end of it, with all its pruning, changes nothing that
an open reader can look up. -/
theorem run_answers_as_copying (operations : List Session.Operation) :
    (Session.run operations (Session.fresh empty)).1 =
        (Session.run operations (Session.fresh (⟨View.empty⟩ : Copying))).1 ∧
      ∀ name key,
        let reached := (Session.run operations (Session.fresh empty)).2
        ((reached.perform .commit).2.perform (.read name key)).1 =
          (reached.perform (.read name key)).1 := by
  have hstart := SnapshotStore.stands_of_idle idle_empty
  rw [show LawfulStore.view empty = View.empty from current_empty] at hstart
  obtain ⟨hanswers, hreached⟩ := SnapshotStore.run_of_stands hstart operations
  refine ⟨hanswers, fun name key => ?_⟩
  obtain ⟨-, hcommitted⟩ := SnapshotStore.perform_of_stands hreached .commit
  obtain ⟨hbefore, -⟩ := SnapshotStore.perform_of_stands hreached (.read name key)
  obtain ⟨hafter, -⟩ := SnapshotStore.perform_of_stands hcommitted (.read name key)
  exact hafter.trans ((Copying.read_after_commit _ name key).trans hbefore.symm)

end Versioned

end OwnershipLog
