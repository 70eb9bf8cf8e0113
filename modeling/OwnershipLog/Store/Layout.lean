import OwnershipLog.Store.Transaction
import OwnershipLog.Leaf

/-!
# What is filed where

Typed reads and writes over the keys of the log. A leaf must decode, a hash must
have 32 bytes and the size eight; a value that is not there is no error here, and
a log without a size is empty.
-/

namespace OwnershipLog.Layout

/-- The byte form of the leaf at an index. -/
def leafBytes (index : UInt64) : Query StoreError (Option Bytes) := .get (.leaf index) .done

/-- The leaf that stored bytes spell. -/
def leafOf (index : UInt64) (bytes : Bytes) : Query StoreError Leaf :=
  match Leaf.decode bytes with
  | .ok leaf => .done leaf
  | .error cause => .fail (.corrupt (.leaf index) cause)

/-- The leaf at an index. -/
def leaf (index : UInt64) : Query StoreError (Option Leaf) := do
  match ← leafBytes index with
  | none => return none
  | some bytes => return some (← leafOf index bytes)

/-- The hash of the node over a span. -/
def node (span : Span) : Query StoreError (Option Digest) :=
  .get (.node span) fun
    | none => .done none
    | some bytes => match Octets.ofBytes? 32 bytes with
      | some digest => .done (some digest)
      | none => .fail (.badWidth (.node span) bytes.length)

/-- The number of leaves. -/
def size : Query StoreError UInt64 :=
  .get .size fun
    | none => .done 0
    | some bytes => match Octets.ofBytes? 8 bytes with
      | some word => .done (ofBigEndian word.toBytes).toUInt64
      | none => .fail (.badWidth .size bytes.length)

/-- File the byte form of a leaf. -/
def putLeaf {ε : Type} (index : UInt64) (bytes : Bytes) : Update ε Unit :=
  .put (.leaf index, bytes) (.done ())

/-- File the hash of a node. -/
def putNode {ε : Type} (span : Span) (digest : Digest) : Update ε Unit :=
  .put (.node span, digest.toBytes) (.done ())

/-- File the number of leaves. -/
def putSize {ε : Type} (size : UInt64) : Update ε Unit :=
  .put (.size, word64 size) (.done ())

end OwnershipLog.Layout
