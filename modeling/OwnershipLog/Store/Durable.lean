import OwnershipLog.Store.Basic
import OwnershipLog.Store.Database

/-!
# The store on disk

The durable store keeps its bindings in one database. Every transaction leases a
connection of its own: an idle one if there is one, else a new one. A connection
has at most one transaction open; it goes back to the idle ones only when that
transaction is over, and is closed otherwise, which discards what was open.

Any statement sent over a connection may fail. The state says what becomes of the
statements still to come, so that every course of failures is a state; past the
end of that list statements succeed, if the database has nothing against them.
-/

namespace OwnershipLog

namespace Durable

/-- The most connections kept idle. -/
def maxIdle : Nat := 8

/-- What a connection has open. -/
inductive Session where
  /-- No transaction. -/
  | clean
  /-- A transaction that has read nothing yet. -/
  | begun
  /-- A transaction that sees the database like this, its own puts included. -/
  | sees (view : Database)

/-- A connection to the database. -/
structure Connection where
  serial : Nat
  session : Session

/-- What the database has done to a transaction that is open. -/
inductive Mishap where
  /-- It has found that its pages contradict themselves, and takes no more changes. -/
  | banned
  /-- It has ended the transaction. What follows is no part of one. -/
  | ended
deriving DecidableEq, Repr

end Durable

/-- The state of the durable store. -/
structure Durable where
  committed : Database
  idle : List Durable.Connection
  /-- Whether a writer is open. -/
  locked : Bool
  /-- How many connections have been opened so far. -/
  opened : Nat
  /-- Whether each of the statements to come succeeds. -/
  outcomes : List Bool
  /-- What has befallen the transactions of connections. -/
  mishaps : List (Nat × Durable.Mishap)

namespace Durable

/-- The connection that a transaction has leased. -/
structure Lease where
  connection : Connection

/-- The error of a statement that failed. -/
def refused : StoreError := .database "statement failed"

/-- Send a statement: whether it succeeds, and the state that knows of the rest. -/
def statement (s : Durable) : Bool × Durable :=
  match s.outcomes with
  | [] => (true, s)
  | outcome :: rest => (outcome, { s with outcomes := rest })

/-- Open a connection. -/
def connect (s : Durable) : Except StoreError Connection × Durable :=
  match s.statement with
  | (true, s) =>
    if s.committed.admits then (.ok ⟨s.opened, .clean⟩, { s with opened := s.opened + 1 })
    else (.error refused, s)
  | (false, s) => (.error refused, s)

/-- Lease a connection. -/
def acquire (s : Durable) : Except StoreError Connection × Durable :=
  match s.idle with
  | connection :: idle => (.ok connection, { s with idle := idle })
  | [] => s.connect

/-- Put a connection back among the idle ones, or close it if there are enough. -/
def release (connection : Connection) (s : Durable) : Durable :=
  if s.idle.length < maxIdle then { s with idle := connection :: s.idle } else s

/-- What has befallen the transaction of a connection. -/
def mishap? (s : Durable) (connection : Connection) : Option Mishap :=
  s.mishaps.lookup connection.serial

/-- The state when nothing more is known of a connection's transaction. -/
def forget (connection : Connection) (s : Durable) : Durable :=
  { s with mishaps := s.mishaps.filter (·.1 ≠ connection.serial) }

/-- The state after a fault inside a connection's transaction. -/
def suffer (connection : Connection) (fault : Fault) (s : Durable) : Durable :=
  let befall (mishap : Mishap) : Durable :=
    { s.forget connection with mishaps := (connection.serial, mishap) :: (s.forget connection).mishaps }
  if s.mishap? connection = some .ended then s
  else match fault with
    | .corrupt => befall .banned
    | .fileEnds => befall .ended
    | .undone => befall .ended
    | _ => s

/-- Roll back what a lease has open and give the connection back; close it if that fails, as it does
when nothing is open any more. -/
def abandon (lease : Lease) (s : Durable) : Durable :=
  match s.statement with
  | (true, s) =>
    if s.mishap? lease.connection = some .ended then s.forget lease.connection
    else release ⟨lease.connection.serial, .clean⟩ (s.forget lease.connection)
  | (false, s) => s.forget lease.connection

/-- Lease a connection and begin a transaction on it. One that cannot begin is closed. -/
def begin (s : Durable) : Except StoreError Lease × Durable :=
  match s.acquire with
  | (.error e, s) => (.error e, s)
  | (.ok connection, s) =>
    match s.statement with
    | (true, s) => (.ok ⟨{ connection with session := .begun }⟩, s)
    | (false, s) => (.error refused, s)

/-- The lease with its transaction seeing `view`. -/
def Lease.seeing (lease : Lease) (view : Database) : Lease :=
  ⟨{ lease.connection with session := .sees view }⟩

/-- Begin a read transaction and let its first read fix the snapshot. -/
def openReader (s : Durable) : Except StoreError Lease × Durable :=
  match s.begin with
  | (.error e, s) => (.error e, s)
  | (.ok lease, s) =>
    match s.statement with
    | (true, s) =>
      match s.committed.probe with
      | .ok _ => (.ok (lease.seeing s.committed), s)
      | .error fault => (.error refused, (s.suffer lease.connection fault).abandon lease)
    | (false, s) => (.error refused, s.abandon lease)

/-- Take the writer's lock and begin its transaction; give the lock back if that fails. -/
def openWriter (s : Durable) : Except StoreError Lease × Durable :=
  match begin { s with locked := true } with
  | (.ok lease, s) => (.ok (lease.seeing s.committed.begun), s)
  | (.error e, s) => (.error e, { s with locked := false })

/-- What a connection's transaction sees; nothing if none is open or it has read nothing. -/
def Session.view : Session → Database
  | clean => .plain ∅
  | begun => .plain ∅
  | sees view => view

/-- Look a key up over a lease. A lease without a transaction sees what is committed. -/
def get (lease : Lease) (key : Bytes) (s : Durable) : Except StoreError (Option Bytes) × Durable :=
  match s.statement with
  | (true, s) =>
    let view := if s.mishap? lease.connection = some .ended then s.committed
      else lease.connection.session.view
    match view.get key with
    | .ok value => (.ok value, s)
    | .error fault => (.error refused, s.suffer lease.connection fault)
  | (false, s) => (.error refused, s)

/-- File a value over the writer's lease. Without a transaction it is committed at once. -/
def put (key value : Bytes) (lease : Lease) (s : Durable) :
    Except StoreError Unit × (Lease × Durable) :=
  match s.statement with
  | (true, s) =>
    match s.mishap? lease.connection with
    | some .banned => (.error refused, lease, s)
    | some .ended =>
      match s.committed.begun.put key value with
      | (.ok _, view) =>
        if view.owes then (.error refused, lease, s)
        else (.ok (), lease, { s with committed := view.settled })
      | (.error _, _) => (.error refused, lease, s)
    | none =>
      match lease.connection.session.view.put key value with
      | (.ok _, view) => (.ok (), lease.seeing view, s)
      | (.error fault, view) => (.error refused, lease.seeing view, s.suffer lease.connection fault)
  | (false, s) => (.error refused, lease, s)

/-- End the writer: its puts become what is committed, or it is rolled back if that fails. A
transaction that takes no more changes is rolled back by the attempt. -/
def commit (lease : Lease) (s : Durable) : Except StoreError Unit × Durable :=
  let abandoned (s : Durable) : Durable := { s.abandon lease with locked := false }
  match s.statement with
  | (true, s) =>
    if (s.mishap? lease.connection).isSome then
      (.error refused, abandoned (s.suffer lease.connection .undone))
    else if lease.connection.session.view.owes then (.error refused, abandoned s)
    else
      (.ok (), release ⟨lease.connection.serial, .clean⟩
        { s with committed := lease.connection.session.view.settled, locked := false })
  | (false, s) => (.error refused, abandoned s)

instance : Store Durable Lease Lease where
  openReader := openReader
  read := get
  closeReader := abandon
  openWriter := openWriter
  peek := fun key (lease, s) =>
    let (value, s) := get lease key s
    (value, lease, s)
  put := fun key value (lease, s) => put key value lease s
  commit := commit
  discard lease s := { s.abandon lease with locked := false }

/-- What stands where a database is to be opened. -/
inductive Site where
  /-- Nothing; the directory is made if need be. -/
  | vacant
  /-- A directory that cannot be made. -/
  | obstructed
  /-- A plain file with these bytes. -/
  | file (bytes : Bytes)
  /-- A database. -/
  | database (database : Database)

/-- A store over a database with its first connection idle. -/
def ofDatabase (database : Database) : Durable := ⟨database, [⟨0, .clean⟩], false, 1, [], []⟩

/-- Open the database at a site. A plain file that is no database is refused. -/
def ofSite : Site → Except StoreError Durable
  | .vacant => .ok (ofDatabase (.plain ∅))
  | .obstructed => .error (.io "not a directory")
  | .file bytes =>
    match Database.ofBytes? bytes with
    | some database => .ok (ofDatabase database)
    | none => .error (.database "file is not a database")
  | .database database =>
    if database.flushed.admits then .ok (ofDatabase database.flushed) else .error refused

/-- The database that the store leaves on disk. -/
def site (s : Durable) : Site := .database s.committed

end Durable

end OwnershipLog
