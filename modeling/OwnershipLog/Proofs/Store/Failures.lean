import OwnershipLog.Proofs.Store.Pool

/-!
# The durable store when statements fail

The copying store can be made to fail as well: an operation that fails answers why and
does nothing, and a writer that could not be committed is gone (`Copying.attempt`). The
copies behind the leases of the durable store can be read off at any moment
(`Durable.copies`), and one operation, whichever of its statements fail, is an attempt
on the copies that fails if the operation did (`Durable.Faithful`). So is every sequence
of them, and the pool has kept account of its connections at its end
(`Durable.run_answers_with_failures`).
-/

namespace OwnershipLog

open Session (Operation Answer)

/-- The error of an operation that failed. -/
def Session.Answer.failure? : Answer → Option StoreError
  | some (.error e) => some e
  | _ => none

/-- Whether an operation failed. -/
def Session.Answer.failed (answer : Answer) : Bool := answer.failure?.isSome

namespace Copying

/-- One operation, with the error that it is made to fail with. A writer that fails to commit is
dropped; no other failure does anything. -/
def attempt (b : Session Copying View View) (operation : Operation) :
    Option StoreError → Answer × Session Copying View View
  | none => b.perform operation
  | some e => (some (.error e), match operation with
    | .commit => { b with writer := none }
    | _ => b)

/-- Operations one after another, each with the error that it is made to fail with. -/
def attempts : List (Operation × Option StoreError) → Session Copying View View →
    List Answer × Session Copying View View
  | [], b => ([], b)
  | (operation, failure) :: rest, b =>
    let (answer, b) := attempt b operation failure
    let (answers, b) := attempts rest b
    (answer :: answers, b)

theorem attempt_of_ne (b : Session Copying View View) {operation : Operation}
    (h : operation ≠ .commit) (e : StoreError) :
    attempt b operation (some e) = (some (.error e), b) := by
  cases operation with
  | commit => exact absurd rfl h
  | _ => rfl

end Copying

namespace Durable

/-- The durable store with the transactions that are open over it. -/
abbrev Shared := OwnershipLog.Session Durable Lease Lease

/-- What the transaction of a lease sees, as long as that is bindings and nothing else. -/
def Lease.view (lease : Lease) : View :=
  match lease.connection.session with
  | .sees (.plain bindings) => fun key => bindings[key]?
  | _ => View.empty

theorem Lease.Sees.view_eq {lease : Lease} {bindings : Contents} (h : lease.Sees bindings) :
    lease.view = fun key => bindings[key]? := by
  rw [Lease.Sees] at h
  rw [Lease.view, h]

theorem Lease.view_seeing (lease : Lease) (bindings : Contents) :
    (lease.seeing (.plain bindings)).view = fun key => bindings[key]? := rfl

/-- The session over the copying store that this one stands for: each transaction with a copy of
what it sees. -/
def copies (a : Shared) : OwnershipLog.Session Copying View View where
  store := ⟨a.store.current⟩
  readers := a.readers.map fun entry => (entry.1, entry.2.view)
  writer := a.writer.map Lease.view

/-- The connections that are leased to transactions. -/
def leased (a : Shared) : List Nat :=
  (a.writer.toList ++ a.readers.map Prod.snd).map Lease.serial

/-- The store knows of the transactions over it, and at most `faults` statements are yet to fail. -/
structure Consistent (faults : Nat) (a : Shared) : Prop where
  sound : ∃ contents, a.store.Sound (leased a) contents a.writer.isSome faults
  names_nodup : (a.readers.map Prod.fst).Nodup
  reader_sees : ∀ entry ∈ a.readers, ∃ bindings, entry.2.Sees bindings
  writer_sees : ∀ lease ∈ a.writer, ∃ bindings, lease.Sees bindings

/-- The operation is one on the copies that is made to fail if it failed here, and then one of the
failures to come is behind it. -/
def Faithful (faults : Nat) (a : Shared) (operation : Operation) : Prop :=
  ∃ n, n + (a.perform operation).1.failed.toNat ≤ faults ∧ Consistent n (a.perform operation).2 ∧
    Copying.attempt (copies a) operation (a.perform operation).1.failure? =
      ((a.perform operation).1, copies (a.perform operation).2)

section

variable {a a' : Shared} {faults n name : Nat} {operation : Operation} {answer : Answer}
  {lease : Lease}

theorem Faithful.of_ok (hperform : a.perform operation = (answer, a'))
    (hanswer : answer.failure? = none) (h' : Consistent faults a')
    (hcopies : (copies a).perform operation = (answer, copies a')) :
    Faithful faults a operation := by
  refine ⟨faults, ?_, ?_, ?_⟩
  · simp [hperform, Answer.failed, hanswer]
  · rwa [hperform]
  · rw [hperform, hanswer]
    exact hcopies

theorem Faithful.of_error (hn : n < faults)
    (hperform : a.perform operation = (some (.error refused), a')) (h' : Consistent n a')
    (hcopies : Copying.attempt (copies a) operation (some refused) =
      (some (.error refused), copies a')) : Faithful faults a operation := by
  refine ⟨n, ?_, ?_, ?_⟩
  · rw [hperform]
    exact hn
  · rwa [hperform]
  · rw [hperform]
    exact hcopies

theorem lookup_copies (a : Shared) (name : Nat) :
    (copies a).readers.lookup name = (a.readers.lookup name).map Lease.view :=
  lookup_map_snd Lease.view a.readers name

theorem copies_closeReader (a : Shared) {store : Durable}
    (hcurrent : store.current = a.store.current) (name : Nat) :
    copies { a with
      store, readers := a.readers.filter fun entry => decide (entry.1 ≠ name) } =
    { copies a with
      readers := (copies a).readers.filter fun entry => decide (entry.1 ≠ name) } := by
  simp only [copies, List.filter_map, hcurrent]
  rfl

/-- The connection of a reader, and those of the other transactions. -/
theorem leased_perm_of_lookup {reader : Lease} (hnodup : (a.readers.map Prod.fst).Nodup)
    (hname : a.readers.lookup name = some reader) :
    (leased a).Perm (reader.serial :: leased { a with
      readers := a.readers.filter fun entry => decide (entry.1 ≠ name) }) := by
  have hreaders := ((perm_cons_filter_of_lookup hnodup hname).map Prod.snd).map Lease.serial
  simp only [leased, List.map_append] at hreaders ⊢
  exact (hreaders.append_left _).trans List.perm_middle

theorem leased_of_writer (hwriter : a.writer = some lease) :
    leased a = lease.serial :: leased { a with writer := none } := by
  simp [leased, hwriter]

namespace Consistent

variable {contents : Contents} {store : Durable}

/-- A statement was sent, and nothing else happened. -/
theorem touch (h : Consistent faults a)
    (hstore : store.Sound (leased a) contents a.writer.isSome n) :
    Consistent n { a with store } :=
  { h with sound := ⟨contents, hstore⟩ }

/-- What is not possible here is not possible on the copies, and nothing happens. -/
theorem decline (h : Consistent faults a) (hperform : a.perform operation = (none, a))
    (hcopies : (copies a).perform operation = (none, copies a)) : Faithful faults a operation :=
  .of_ok hperform rfl h hcopies

/-- A statement failed, and the transactions are as they were. -/
theorem refuse (h : Consistent faults a)
    (hsound : a.store.Sound (leased a) contents a.writer.isSome faults) (hn : n < faults)
    (hstore : store.Sound (leased a) contents a.writer.isSome n) (hne : operation ≠ .commit)
    (hperform : a.perform operation = (some (.error refused), { a with store })) :
    Faithful faults a operation := by
  refine .of_error hn hperform (h.touch hstore) ?_
  rw [Copying.attempt_of_ne _ hne, copies, copies, hstore.current_eq, hsound.current_eq]

theorem openReader (h : Consistent faults a) (name : Nat) :
    Faithful faults a (.openReader name) := by
  obtain ⟨contents, hsound⟩ := h.sound
  have hcopied := lookup_copies a name
  cases hname : a.readers.lookup name with
  | some reader =>
      rw [hname, Option.map_some] at hcopied
      exact h.decline (by simp only [Session.perform, hname])
        (by simp only [Session.perform, hcopied])
  | none =>
      rw [hname, Option.map_none] at hcopied
      rcases hsound.openReader_cases with
        ⟨lease, store, hopen, hsees, hstore⟩ | ⟨n, store, hn, hopen, hstore⟩
      · have hperform : a.perform (.openReader name) = (.done (.ok ()),
            { a with store, readers := (name, lease) :: a.readers }) := by
          simp only [Session.perform, hname, Store.openReader, hopen]
        refine .of_ok hperform rfl ⟨⟨contents, hstore.perm ?_⟩, ?_, ?_, h.writer_sees⟩ ?_
        · simp only [leased, List.map_append, List.map_cons]
          exact List.perm_middle.symm
        · exact List.nodup_cons.2 ⟨not_mem_names_of_lookup hname, h.names_nodup⟩
        · exact List.forall_mem_cons.2 ⟨⟨contents, hsees⟩, h.reader_sees⟩
        · simp only [Session.perform, hcopied, Store.openReader]
          simp only [copies, List.map_cons, hstore.current_eq, hsees.view_eq, hsound.current_eq]
      · refine h.refuse hsound hn hstore (by simp) ?_
        simp only [Session.perform, hname, Store.openReader, hopen]
        rfl

theorem read (h : Consistent faults a) (name : Nat) (key : Bytes) :
    Faithful faults a (.read name key) := by
  obtain ⟨contents, hsound⟩ := h.sound
  have hcopied := lookup_copies a name
  cases hname : a.readers.lookup name with
  | none =>
      rw [hname, Option.map_none] at hcopied
      exact h.decline (by simp only [Session.perform, hname])
        (by simp only [Session.perform, hcopied])
  | some reader =>
      rw [hname, Option.map_some] at hcopied
      obtain ⟨bindings, hsees⟩ := h.reader_sees _ (mem_of_lookup hname)
      rcases hsound.get_cases hsees key with
        ⟨store, hget, hstore⟩ | ⟨n, store, hn, hget, hstore⟩
      · have hperform : a.perform (.read name key) =
            (some (.ok bindings[key]?), { a with store }) := by
          simp only [Session.perform, hname, Store.read, hget]
        refine .of_ok hperform rfl (h.touch hstore) ?_
        simp only [Session.perform, hcopied, Store.read, hsees.view_eq]
        simp only [copies, hstore.current_eq, hsound.current_eq]
      · refine h.refuse hsound hn hstore (by simp) ?_
        simp only [Session.perform, hname, Store.read, hget]

theorem closeReader (h : Consistent faults a) (name : Nat) :
    Faithful faults a (.closeReader name) := by
  obtain ⟨contents, hsound⟩ := h.sound
  have hcopied := lookup_copies a name
  cases hname : a.readers.lookup name with
  | none =>
      rw [hname, Option.map_none] at hcopied
      exact h.decline (by simp only [Session.perform, hname])
        (by simp only [Session.perform, hcopied])
  | some reader =>
      rw [hname, Option.map_some] at hcopied
      have hstore := (hsound.perm (leased_perm_of_lookup h.names_nodup hname)).abandon
      have hperform : a.perform (.closeReader name) = (.done (.ok ()), { a with
          store := Durable.abandon reader a.store
          readers := a.readers.filter fun entry => decide (entry.1 ≠ name) }) := by
        simp only [Session.perform, hname, Store.closeReader]
      refine .of_ok hperform rfl ⟨⟨contents, hstore⟩, ?_, ?_, h.writer_sees⟩ ?_
      · exact (List.filter_sublist.map _).nodup h.names_nodup
      · exact fun entry hentry => h.reader_sees entry (List.mem_filter.1 hentry).1
      · rw [copies_closeReader a (hstore.current_eq.trans hsound.current_eq.symm)]
        simp only [Session.perform, hcopied, Store.closeReader]

theorem openWriter (h : Consistent faults a) : Faithful faults a .openWriter := by
  obtain ⟨contents, hsound⟩ := h.sound
  have hcopied : (copies a).writer = a.writer.map Lease.view := rfl
  cases hwriter : a.writer with
  | some lease =>
      rw [hwriter, Option.map_some] at hcopied
      exact h.decline (by simp only [Session.perform, hwriter])
        (by simp only [Session.perform, hcopied])
  | none =>
      rw [hwriter, Option.map_none] at hcopied
      have hfree := hsound
      rw [hwriter, Option.isSome_none] at hfree
      rcases hfree.openWriter_cases with
        ⟨lease, store, hopen, hsees, hstore⟩ | ⟨n, store, hn, hopen, hstore⟩
      · have hperform : a.perform .openWriter = (.done (.ok ()),
            { a with store, writer := some lease }) := by
          simp only [Session.perform, hwriter, Store.openWriter, hopen]
        refine .of_ok hperform rfl ⟨⟨contents, ?_⟩, h.names_nodup, h.reader_sees, ?_⟩ ?_
        · rw [leased_of_writer rfl, ← hwriter]
          exact hstore
        · rintro _ ⟨⟩
          exact ⟨contents, hsees⟩
        · simp only [Session.perform, hcopied, Store.openWriter]
          simp only [copies, Option.map_some, hstore.current_eq, hsees.view_eq, hsound.current_eq]
      · rw [← Option.isSome_none, ← hwriter] at hstore
        refine h.refuse hsound hn hstore (by simp) ?_
        simp only [Session.perform, hwriter, Store.openWriter, hopen]
        rfl

theorem peek (h : Consistent faults a) (key : Bytes) : Faithful faults a (.peek key) := by
  obtain ⟨contents, hsound⟩ := h.sound
  have hcopied : (copies a).writer = a.writer.map Lease.view := rfl
  cases hwriter : a.writer with
  | none =>
      rw [hwriter, Option.map_none] at hcopied
      exact h.decline (by simp only [Session.perform, hwriter])
        (by simp only [Session.perform, hcopied])
  | some lease =>
      rw [hwriter, Option.map_some] at hcopied
      obtain ⟨bindings, hsees⟩ := h.writer_sees lease hwriter
      rcases hsound.get_cases hsees key with
        ⟨store, hget, hstore⟩ | ⟨n, store, hn, hget, hstore⟩
      · have hperform : a.perform (.peek key) = (some (.ok bindings[key]?), { a with store }) := by
          simp only [Session.perform, hwriter, Store.peek, hget]
        refine .of_ok hperform rfl (h.touch hstore) ?_
        simp only [Session.perform, hcopied, Store.peek, hsees.view_eq]
        simp only [copies, hstore.current_eq, hsound.current_eq, hwriter, Option.map_some,
          hsees.view_eq]
      · refine h.refuse hsound hn hstore (by simp) ?_
        simp only [Session.perform, hwriter, Store.peek, hget]

theorem put (h : Consistent faults a) (key value : Bytes) :
    Faithful faults a (.put key value) := by
  obtain ⟨contents, hsound⟩ := h.sound
  have hcopied : (copies a).writer = a.writer.map Lease.view := rfl
  cases hwriter : a.writer with
  | none =>
      rw [hwriter, Option.map_none] at hcopied
      exact h.decline (by simp only [Session.perform, hwriter])
        (by simp only [Session.perform, hcopied])
  | some lease =>
      rw [hwriter, Option.map_some] at hcopied
      obtain ⟨bindings, hsees⟩ := h.writer_sees lease hwriter
      rcases hsound.put_cases hsees key value with
        ⟨store, hput, hstore⟩ | ⟨n, store, hn, hput, hstore⟩
      · have hperform : a.perform (.put key value) = (.done (.ok ()), { a with
            store, writer := some (lease.seeing (.plain (bindings.insert key value))) }) := by
          simp only [Session.perform, hwriter, Store.put, hput]
        refine .of_ok hperform rfl ⟨⟨contents, ?_⟩, h.names_nodup, h.reader_sees, ?_⟩ ?_
        · rw [leased_of_writer hwriter, hwriter] at hstore
          rw [leased_of_writer rfl]
          exact hstore
        · rintro _ ⟨⟩
          exact ⟨_, lease.sees_seeing _⟩
        · simp only [Session.perform, hcopied, Store.put, hsees.view_eq]
          simp only [copies, Option.map_some, Lease.view_seeing, view_insert, hstore.current_eq,
            hsound.current_eq]
      · refine h.refuse hsound hn hstore (by simp) ?_
        simp only [Session.perform, hwriter, Store.put, hput]
        rfl

theorem commit (h : Consistent faults a) : Faithful faults a .commit := by
  obtain ⟨contents, hsound⟩ := h.sound
  have hcopied : (copies a).writer = a.writer.map Lease.view := rfl
  cases hwriter : a.writer with
  | none =>
      rw [hwriter, Option.map_none] at hcopied
      exact h.decline (by simp only [Session.perform, hwriter])
        (by simp only [Session.perform, hcopied])
  | some lease =>
      rw [hwriter, Option.map_some] at hcopied
      obtain ⟨bindings, hsees⟩ := h.writer_sees lease hwriter
      have hopen := hsound
      rw [leased_of_writer hwriter] at hopen
      rcases hopen.commit_cases hsees with
        ⟨store, hcommit, hstore⟩ | ⟨n, store, hn, hcommit, hstore⟩
      · have hperform : a.perform .commit = (.done (.ok ()), { a with store, writer := none }) := by
          simp only [Session.perform, hwriter, Store.commit, hcommit]
        refine .of_ok hperform rfl ⟨⟨bindings, hstore⟩, h.names_nodup, h.reader_sees, by simp⟩ ?_
        simp only [Session.perform, hcopied, Store.commit, hsees.view_eq]
        simp only [copies, Option.map_none, hstore.current_eq]
      · have hperform : a.perform .commit =
            (some (.error refused), { a with store, writer := none }) := by
          simp only [Session.perform, hwriter, Store.commit, hcommit]
          rfl
        refine .of_error hn hperform
          ⟨⟨contents, hstore⟩, h.names_nodup, h.reader_sees, by simp⟩ ?_
        simp only [Copying.attempt, copies, Option.map_none, hstore.current_eq, hsound.current_eq]

theorem discard (h : Consistent faults a) : Faithful faults a .discard := by
  obtain ⟨contents, hsound⟩ := h.sound
  have hcopied : (copies a).writer = a.writer.map Lease.view := rfl
  cases hwriter : a.writer with
  | none =>
      rw [hwriter, Option.map_none] at hcopied
      exact h.decline (by simp only [Session.perform, hwriter])
        (by simp only [Session.perform, hcopied])
  | some lease =>
      rw [hwriter, Option.map_some] at hcopied
      have hopen := hsound
      rw [leased_of_writer hwriter] at hopen
      have hperform : a.perform .discard = (.done (.ok ()), { a with
          store := { a.store.abandon lease with locked := false }, writer := none }) := by
        simp only [Session.perform, hwriter, Store.discard]
      refine .of_ok hperform rfl
        ⟨⟨contents, hopen.discard⟩, h.names_nodup, h.reader_sees, by simp⟩ ?_
      simp only [Session.perform, hcopied, Store.discard]
      simp only [copies, Option.map_none, hopen.discard.current_eq, hsound.current_eq]

/-- Every operation does on the copies what it does here. -/
theorem perform (h : Consistent faults a) (operation : Operation) :
    Faithful faults a operation := by
  cases operation with
  | openReader name => exact h.openReader name
  | read name key => exact h.read name key
  | closeReader name => exact h.closeReader name
  | openWriter => exact h.openWriter
  | peek key => exact h.peek key
  | put key value => exact h.put key value
  | commit => exact h.commit
  | discard => exact h.discard

/-- And so does every sequence of them. -/
theorem run (h : Consistent faults a) (operations : List Operation) :
    ∃ n, n + (Session.run operations a).1.countP Answer.failed ≤ faults ∧
      Consistent n (Session.run operations a).2 ∧
      Copying.attempts (operations.zip ((Session.run operations a).1.map Answer.failure?))
        (copies a) = ((Session.run operations a).1, copies (Session.run operations a).2) := by
  induction operations generalizing a faults with
  | nil => exact ⟨faults, Nat.le_refl _, h, rfl⟩
  | cons operation operations ih =>
      obtain ⟨n, hn, h₁, hattempt⟩ := h.perform operation
      obtain ⟨m, hm, h₂, hattempts⟩ := ih h₁
      refine ⟨m, ?_, h₂, ?_⟩
      · rw [Session.run, List.countP_cons]
        cases hfailed : (a.perform operation).1.failed with
        | false => simp [hfailed] at hn ⊢; omega
        | true => simp [hfailed] at hn ⊢; omega
      · simp only [Session.run, List.map_cons, List.zip_cons_cons, Copying.attempts, hattempt,
          hattempts]

end Consistent

theorem consistent_fresh {contents : Contents} {s : Durable}
    (h : s.Sound [] contents false faults) : Consistent faults (Session.fresh s) where
  sound := ⟨contents, h⟩
  names_nodup := List.nodup_nil
  reader_sees := by simp [Session.fresh]
  writer_sees := by simp [Session.fresh]

end

/-- Whatever the transactions over the store do, and whichever statements fail: every answer is the
one of the store that copies, where the operations that failed are made to fail, and what is
committed is the same; no more operations fail than statements do; and no connection that waits for
a transaction has one open, there are at most eight of these, and no connection is leased
twice, or leased while it waits. -/
theorem run_answers_with_failures (contents : Contents) (outcomes : List Bool)
    (operations : List Operation) :
    let start : Durable := { ofDatabase (.plain contents) with outcomes }
    let (answers, reached) := Session.run operations (Session.fresh start)
    let (copied, reference) := Copying.attempts (operations.zip (answers.map Answer.failure?))
      (Session.fresh ⟨fun key => contents[key]?⟩)
    answers = copied ∧ reached.store.current = reference.store.committed ∧
      answers.countP Answer.failed ≤ outcomes.count false ∧
      (∀ connection ∈ reached.store.idle, connection.session = .clean) ∧
      reached.store.idle.length ≤ 8 ∧
      (leased reached ++ reached.store.idle.map Connection.serial).Nodup := by
  have hstart := consistent_fresh (sound_ofDatabase contents outcomes)
  obtain ⟨n, hn, h, hattempts⟩ := hstart.run operations
  obtain ⟨bindings, hsound⟩ := h.sound
  -- The copies of a store with nothing open are its bindings.
  have hanswers := congrArg Prod.fst hattempts
  have hreference := congrArg (fun result => result.2.store.committed) hattempts
  exact ⟨hanswers.symm, hreference.symm, Nat.le_trans (Nat.le_add_left _ _) hn, hsound.clean,
    hsound.length_le, hsound.nodup⟩

end Durable

end OwnershipLog
