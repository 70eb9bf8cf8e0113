import OwnershipLog.Store.Transaction

/-!
# Stores

A store hands out snapshot readers, which never see later commits, and one
exclusive writer, which sees its own puts; the puts become visible to readers
opened later, all at once, when the writer commits. `Store.query` and
`Store.update` run a program inside a transaction of its own: an update that
fails anywhere is discarded.
-/

namespace OwnershipLog

/-- A state `S` of a store with readers `R` and writers `W`. Opening a writer waits until no
other is open, so `openWriter` is asked only then. -/
class Store (S : Type) (R W : outParam Type) where
  openReader : S → Except StoreError R × S
  read : R → Bytes → S → Except StoreError (Option Bytes) × S
  closeReader : R → S → S
  openWriter : S → Except StoreError W × S
  /-- Look a key up through the writer. -/
  peek : Bytes → W × S → Except StoreError (Option Bytes) × (W × S)
  put : Bytes → Bytes → W × S → Except StoreError Unit × (W × S)
  commit : W → S → Except StoreError Unit × S
  discard : W → S → S

namespace Store

variable {S R W ε α : Type} [Store S R W]

/-- Run a query on a reader that is open. -/
def readQuery (ofStore : StoreError → ε) (now : Timestamp) (reader : R) (query : Query ε α)
    (s : S) : Except ε α × S :=
  query.run ⟨Store.read reader, fun write _ => write.elim, ofStore⟩ now s

/-- Run an update on a writer that is open. -/
def writeUpdate (ofStore : StoreError → ε) (now : Timestamp) (update : Update ε α)
    (ws : W × S) : Except ε α × (W × S) :=
  update.run ⟨Store.peek, fun write => Store.put write.1.bytes write.2, ofStore⟩ now ws

/-- Run a query on a snapshot of its own. -/
def query (ofStore : StoreError → ε) (now : Timestamp) (query : Query ε α) (s : S) :
    Except ε α × S :=
  match Store.openReader s with
  | (.error e, s) => (.error (ofStore e), s)
  | (.ok reader, s) =>
    let (result, s) := readQuery ofStore now reader query s
    (result, Store.closeReader reader s)

/-- Run an update in a write transaction of its own, and commit it unless it fails. -/
def update (ofStore : StoreError → ε) (now : Timestamp) (update : Update ε α) (s : S) :
    Except ε α × S :=
  match Store.openWriter s with
  | (.error e, s) => (.error (ofStore e), s)
  | (.ok writer, s) =>
    match writeUpdate ofStore now update (writer, s) with
    | (.error e, writer, s) => (.error e, Store.discard writer s)
    | (.ok a, writer, s) =>
      match Store.commit writer s with
      | (.ok _, s) => (.ok a, s)
      | (.error e, s) => (.error (ofStore e), s)

end Store

end OwnershipLog
