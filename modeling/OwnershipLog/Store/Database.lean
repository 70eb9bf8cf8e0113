import OwnershipLog.Database.Open
import Std.Data.HashMap

/-!
# Databases of the store

A database that only the log has written holds bindings and nothing else. One that
was found in a file may hold more, and what is done to its bindings can then fail,
or do more than was asked for; it is kept as its pages.
-/

namespace OwnershipLog

/-- What a database that only the log has written holds. -/
abbrev Contents := Std.HashMap Bytes Bytes

/-- A database that keeps the bindings of the log. -/
inductive Database where
  /-- One that only the log has written. -/
  | plain (contents : Contents)
  /-- One that was found in a file. -/
  | paged (schema : Schema) (image : Image)

namespace Database

/-- A byte string as a value. -/
def blob (bytes : Bytes) : Value := .blob (Block.ofBytes bytes)

/-- The database that a file is. A file of no byte or one is an empty database. -/
def ofBytes? : Bytes → Option Database
  | [] => some (plain ∅)
  | [_] => some (plain ∅)
  | bytes => do
    let image ← Image.ofBytes? bytes
    match Paging.ready.run image with
    | .ok schema image => some (paged schema image)
    | .error _ _ => none

/-- Whether one more connection to the database can be opened. -/
def admits : Database → Bool
  | plain _ => true
  | paged _ image => match Paging.schema.run image with
    | .ok _ _ => true
    | .error _ _ => false

/-- Find out whether bindings can be read. -/
def probe : Database → Except Fault Unit
  | plain _ => .ok ()
  | paged schema image => match (Paging.probe schema).run image with
    | .ok _ _ => .ok ()
    | .error fault _ => .error fault

/-- The value under a key. A value that is no byte string is refused. -/
def get (key : Bytes) : Database → Except Fault (Option Bytes)
  | plain contents => .ok contents[key]?
  | paged schema image => match (Paging.valueOf? schema (blob key)).run image with
    | .ok (some (.blob bytes)) _ => .ok (some bytes.toBytes)
    | .ok (some _) _ => .error .refused
    | .ok none _ => .ok none
    | .error fault _ => .error fault

/-- File a value under a key. What has been done before a fault may stay. -/
def put (key value : Bytes) : Database → Except Fault Unit × Database
  | plain contents => (.ok (), plain (contents.insert key value))
  | paged schema image => match (Paging.put schema (blob key) (blob value)).run image with
    | .ok _ image => (.ok (), paged schema image)
    | .error fault image => (.error fault, paged schema image)

/-- The database as a transaction that may write finds it. -/
def begun : Database → Database
  | plain contents => plain contents
  | paged schema image =>
    if image.readOnly then paged schema image
    else match Paging.beginWriting.run image with
      | .ok _ image => paged schema image
      | .error _ image => paged schema image

/-- Whether a transaction has left references without their rows. -/
def owes : Database → Bool
  | plain _ => false
  | paged _ image => 0 < image.owed

/-- The database as the next transaction finds it. -/
def settled : Database → Database
  | plain contents => plain contents
  | paged schema image => paged schema image.settled

/-- The database when all that was written has reached its file. -/
def flushed : Database → Database
  | plain contents => plain contents
  | paged schema image => paged schema image.flushed

@[simp] theorem get_plain (key : Bytes) (contents : Contents) :
    (plain contents).get key = .ok contents[key]? := rfl

@[simp] theorem put_plain (key value : Bytes) (contents : Contents) :
    (plain contents).put key value = (.ok (), plain (contents.insert key value)) := rfl

@[simp] theorem begun_plain (contents : Contents) : (plain contents).begun = plain contents := rfl

@[simp] theorem settled_plain (contents : Contents) :
    (plain contents).settled = plain contents := rfl

end Database

end OwnershipLog
