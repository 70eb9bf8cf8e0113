import OwnershipLog.Proofs.Store.View

/-!
# Transactions that overlap

A session is a store with the transactions that are open over it: any number of
readers, told apart by names, and at most one writer. Its operations are those of the
store, one at a time and in any order; one that is not possible, such as a look-up
through a reader that is not open or a second writer, has no answer and changes
nothing.

The copying store is what a store with snapshots is measured against: what is committed
is one view, a reader and a writer each begin with a copy of it, and a commit replaces
it. A `SnapshotStore` answers every sequence of operations as the copying store does.
-/

namespace OwnershipLog

/-- A store with the transactions that are open over it. -/
structure Session (S R W : Type) where
  store : S
  /-- The open readers under their names. -/
  readers : List (Nat × R)
  writer : Option W

namespace Session

/-- What can be done with the transactions over a store. -/
inductive Operation where
  | openReader (name : Nat)
  | read (name : Nat) (key : Bytes)
  | closeReader (name : Nat)
  | openWriter
  | peek (key : Bytes)
  | put (key value : Bytes)
  | commit
  | discard

/-- None where the operation is not possible; what a look-up finds, or the error of the store. An
operation that looks nothing up finds nothing. -/
abbrev Answer := Option (Except StoreError (Option Bytes))

/-- The answer of an operation that looks nothing up. -/
def Answer.done (result : Except StoreError Unit) : Answer := some (result.map fun _ => none)

variable {S R W : Type} [Store S R W]

/-- The store with nothing open. -/
def fresh (s : S) : Session S R W := ⟨s, [], none⟩

/-- One operation: its answer, and the session after it. -/
def perform (s : Session S R W) : Operation → Answer × Session S R W
  | .openReader name =>
    match s.readers.lookup name with
    | some _ => (none, s)
    | none => match Store.openReader s.store with
      | (.ok r, store) => (.done (.ok ()), { s with store, readers := (name, r) :: s.readers })
      | (.error e, store) => (.done (.error e), { s with store })
  | .read name key =>
    match s.readers.lookup name with
    | none => (none, s)
    | some r =>
      let (value, store) := Store.read r key s.store
      (some value, { s with store })
  | .closeReader name =>
    match s.readers.lookup name with
    | none => (none, s)
    | some r => (.done (.ok ()), { s with
        store := Store.closeReader r s.store
        readers := s.readers.filter fun entry => decide (entry.1 ≠ name) })
  | .openWriter =>
    match s.writer with
    | some _ => (none, s)
    | none => match Store.openWriter s.store with
      | (.ok w, store) => (.done (.ok ()), { s with store, writer := some w })
      | (.error e, store) => (.done (.error e), { s with store })
  | .peek key =>
    match s.writer with
    | none => (none, s)
    | some w =>
      let (value, w, store) := Store.peek key (w, s.store)
      (some value, { s with store, writer := some w })
  | .put key value =>
    match s.writer with
    | none => (none, s)
    | some w =>
      let (result, w, store) := Store.put key value (w, s.store)
      (.done result, { s with store, writer := some w })
  | .commit =>
    match s.writer with
    | none => (none, s)
    | some w =>
      let (result, store) := Store.commit w s.store
      (.done result, { s with store, writer := none })
  | .discard =>
    match s.writer with
    | none => (none, s)
    | some w => (.done (.ok ()), { s with store := Store.discard w s.store, writer := none })

/-- Operations one after another, with their answers. -/
def run : List Operation → Session S R W → List Answer × Session S R W
  | [], s => ([], s)
  | operation :: operations, s =>
    let (answer, s) := s.perform operation
    let (answers, s) := run operations s
    (answer :: answers, s)

end Session

/-! ## The copying store -/

/-- The store in which every transaction works on a copy of its own. -/
structure Copying where
  /-- What is committed. -/
  committed : View

namespace Copying

instance : Store Copying View View where
  openReader s := (.ok s.committed, s)
  read v key s := (.ok (v key), s)
  closeReader _ s := s
  openWriter s := (.ok s.committed, s)
  peek := fun key (v, s) => (.ok (v key), v, s)
  put := fun key value (v, s) => (.ok (), v.put key value, s)
  commit v _ := (.ok (), ⟨v⟩)
  discard _ s := s

section

variable {b b' : Session Copying View View} {name : Nat} {key value : Bytes}
  {answer : Except StoreError (Option Bytes)}

theorem of_openReader (h : b.perform (.openReader name) = (some answer, b')) :
    b.readers.lookup name = none ∧ answer = .ok none ∧
      b' = { b with readers := (name, b.store.committed) :: b.readers } := by
  rw [Session.perform] at h
  split at h
  · cases h
  · rename_i hname
    cases h
    exact ⟨hname, rfl, rfl⟩

theorem of_read (h : b.perform (.read name key) = (some answer, b')) :
    ∃ v, b.readers.lookup name = some v ∧ answer = .ok (v key) ∧ b' = b := by
  rw [Session.perform] at h
  split at h
  · cases h
  · rename_i v hname
    cases h
    exact ⟨v, hname, rfl, rfl⟩

theorem of_closeReader (h : b.perform (.closeReader name) = (some answer, b')) :
    b' = { b with readers := b.readers.filter fun entry => decide (entry.1 ≠ name) } := by
  rw [Session.perform] at h
  split at h
  · cases h
  · cases h
    rfl

theorem of_openWriter (h : b.perform .openWriter = (some answer, b')) :
    b.writer = none ∧ answer = .ok none ∧ b' = { b with writer := some b.store.committed } := by
  rw [Session.perform] at h
  split at h
  · cases h
  · rename_i hwriter
    cases h
    exact ⟨hwriter, rfl, rfl⟩

theorem of_peek (h : b.perform (.peek key) = (some answer, b')) :
    ∃ w, b.writer = some w ∧ answer = .ok (w key) ∧ b' = b := by
  rw [Session.perform] at h
  split at h
  · cases h
  · rename_i w hwriter
    cases h
    refine ⟨w, hwriter, rfl, ?_⟩
    rw [← hwriter]

theorem of_put (h : b.perform (.put key value) = (some answer, b')) :
    ∃ w, b.writer = some w ∧ answer = .ok none ∧
      b' = { b with writer := some (w.put key value) } := by
  rw [Session.perform] at h
  split at h
  · cases h
  · rename_i w hwriter
    cases h
    exact ⟨w, hwriter, rfl, rfl⟩

theorem of_commit (h : b.perform .commit = (some answer, b')) :
    ∃ w, b.writer = some w ∧ answer = .ok none ∧ b' = { b with store := ⟨w⟩, writer := none } := by
  rw [Session.perform] at h
  split at h
  · cases h
  · rename_i w hwriter
    cases h
    exact ⟨w, hwriter, rfl, rfl⟩

theorem of_discard (h : b.perform .discard = (some answer, b')) :
    b' = { b with writer := none } := by
  rw [Session.perform] at h
  split at h
  · cases h
  · cases h
    rfl

end

theorem perform_read (b : Session Copying View View) (name : Nat) (key : Bytes) :
    b.perform (.read name key) = ((b.readers.lookup name).map fun v => .ok (v key), b) := by
  rw [Session.perform]
  cases b.readers.lookup name <;> rfl

/-- A commit leaves the readers their copies. -/
theorem read_after_commit (b : Session Copying View View) (name : Nat) (key : Bytes) :
    ((b.perform .commit).2.perform (.read name key)).1 = (b.perform (.read name key)).1 := by
  have hreaders : (b.perform .commit).2.readers = b.readers := by
    rw [Session.perform]
    cases b.writer <;> rfl
  rw [perform_read, perform_read, hreaders]

end Copying

/-- A store whose transactions may overlap, and then still answer as in the copying store. -/
class SnapshotStore (S : Type) (R W : outParam Type) [Store S R W] extends LawfulStore S R W where
  /-- No transaction is open, and no statement is about to fail. -/
  Idle : S → Prop
  ready_of_idle : ∀ {s : S}, Idle s → Ready s
  /-- The session and the one over the copying store have the same transactions open, and see the
  same through each of them. -/
  Stands : Session S R W → Session Copying View View → Prop
  stands_of_idle : ∀ {s : S}, Idle s → Stands (Session.fresh s) (Session.fresh ⟨view s⟩)
  view_of_stands : ∀ {a : Session S R W} {b : Session Copying View View}, Stands a b →
    view a.store = b.store.committed
  perform_of_stands : ∀ {a : Session S R W} {b : Session Copying View View}, Stands a b →
    ∀ operation, (a.perform operation).1 = (b.perform operation).1 ∧
      Stands (a.perform operation).2 (b.perform operation).2

namespace SnapshotStore

variable {S R W : Type} [Store S R W] [SnapshotStore S R W]

/-- What holds of every operation holds of every sequence of them. -/
theorem run_of_stands {a : Session S R W} {b : Session Copying View View} (h : Stands a b)
    (operations : List Session.Operation) :
    (Session.run operations a).1 = (Session.run operations b).1 ∧
      Stands (Session.run operations a).2 (Session.run operations b).2 := by
  induction operations generalizing a b with
  | nil => exact ⟨rfl, h⟩
  | cons operation operations ih =>
      obtain ⟨hanswer, hnext⟩ := perform_of_stands h operation
      obtain ⟨hanswers, hlast⟩ := ih hnext
      refine ⟨?_, hlast⟩
      simp only [Session.run, hanswer, hanswers]

end SnapshotStore

end OwnershipLog
