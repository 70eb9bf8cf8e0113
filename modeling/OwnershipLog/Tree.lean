import OwnershipLog.Error
import OwnershipLog.Merkle.Inclusion
import OwnershipLog.Store.Basic
import OwnershipLog.Store.Layout

/-!
# The tree

The log is a Merkle tree kept in a store. Appending a leaf files it, the hashes of
the spans above it up to the new root, and the new size, in one commit. Heads,
leaves and proofs are read from one snapshot each. A tree also remembers the size
of its own last append; requests are checked against the size in the store.

Each operation is first a program over the store and then its run in a
transaction of its own.
-/

namespace OwnershipLog

namespace Tree

/-! ## Programs -/

/-- A read of the store as part of an operation of the log. -/
def reading {α : Type} (query : Query StoreError α) : Query LogError α := query.mapError .store

/-- The hash of the node over a span; zero where nothing is filed. A leaf is hashed from its bytes. -/
def nodeHash (hash : HashFunction) (span : Span) : Query LogError Digest :=
  if span.isLeaf then do
    match ← reading (Layout.leafBytes span.left) with
    | some bytes => return hash bytes
    | none => return Digest.zero
  else do
    match ← reading (Layout.node span) with
    | some digest => return digest
    | none => return Digest.zero

/-- The hash beside a path; zero without a look at the store where the span holds no leaf yet. -/
def siblingHash (hash : HashFunction) (size : UInt64) (sibling : Span) : Query LogError Digest :=
  if size ≤ sibling.left then .done Digest.zero else nodeHash hash sibling

/-- The unsigned head of a log with `size` leaves. -/
def headAt (hash : HashFunction) (size : UInt64) : Query LogError TreeHead :=
  .clock fun now => do
    let root ← nodeHash hash (Span.rootFor size)
    return ⟨size, now, root, none⟩

/-- The unsigned head. -/
def headQuery (hash : HashFunction) : Query LogError TreeHead := do
  let size ← reading Layout.size
  headAt hash size

/-- The leaf at an index, if the log is that long. -/
def leafQuery (index : UInt64) : Query LogError (Option Leaf) := do
  let size ← reading Layout.size
  if size ≤ index then return none
  else reading (Layout.leaf index)

/-- The leaf at an index that the log must have. -/
def presentLeaf (index : UInt64) : Query LogError Leaf := do
  match ← reading (Layout.leaf index) with
  | some leaf => return leaf
  | none => .fail (.store (.missing (.leaf index)))

/-- The next `n` leaves from `start` on. -/
def leavesFrom : (n : Nat) → (start : UInt64) → Query LogError (List Leaf)
  | 0, _ => .done []
  | n + 1, start => do
    let leaf ← presentLeaf start
    let rest ← leavesFrom n (start + 1)
    return leaf :: rest

/-- The leaves from `start` up to, but not including, `stop` or the end of the log. -/
def leavesQuery (start stop : UInt64) : Query LogError (List Leaf) := do
  let size ← reading Layout.size
  leavesFrom ((min stop size).toNat - start.toNat) start

/-- The hashes beside a path, in its order. -/
def siblingHashes (hash : HashFunction) (size : UInt64) : List Span → Query LogError (List Digest)
  | [] => .done []
  | span :: path => do
    let digest ← siblingHash hash size span.sibling
    let rest ← siblingHashes hash size path
    return digest :: rest

/-- The unsigned proof for the leaf at an index. -/
def proofQuery (hash : HashFunction) (index : UInt64) : Query LogError InclusionProof := do
  let size ← reading Layout.size
  if size ≤ index then .fail (.indexOutOfRange index size)
  else
    let leaf ← presentLeaf index
    let head ← headAt hash size
    let hashes ← siblingHashes hash size (Span.path index size)
    return ⟨head, index, leaf, hashes⟩

/-- File the hash of every span above a path, from the hash `own` at its start. -/
def raise (hash : HashFunction) (size : UInt64) : List Span → (own : Digest) → Update LogError Unit
  | [], _ => .done ()
  | span :: path, own => do
    let sibling ← (siblingHash hash size span.sibling).toUpdate
    let own := span.combine hash own sibling
    Layout.putNode span.parent own
    raise hash size path own

/-- Append the byte form of a leaf; the result is its index. -/
def appendUpdate (hash : HashFunction) (bytes : Bytes) : Update LogError UInt64 := do
  let index ← (reading Layout.size).toUpdate
  let size := index + 1
  Layout.putLeaf index bytes
  raise hash size (Span.path index size) (hash bytes)
  Layout.putSize size
  return index

end Tree

/-! ## Operations -/

/-- A handle on the log in a store: it remembers the size of the last append through it. -/
structure Tree where
  size : UInt64
deriving DecidableEq, Repr

namespace Tree

variable {S R W : Type} [Store S R W]

/-- A handle on the log that the store holds. -/
def attach (now : Timestamp) (s : S) : Except LogError Tree × S :=
  match Store.query .store now (reading Layout.size) s with
  | (.ok size, s) => (.ok ⟨size⟩, s)
  | (.error e, s) => (.error e, s)

/-- The unsigned head of the log. -/
def head (hash : HashFunction) (now : Timestamp) (s : S) : Except LogError TreeHead × S :=
  Store.query .store now (headQuery hash) s

/-- The leaf at an index, if the log is that long. -/
def leaf? (now : Timestamp) (index : UInt64) (s : S) : Except LogError (Option Leaf) × S :=
  Store.query .store now (leafQuery index) s

/-- The leaves from `start` up to `stop` or the end of the log. -/
def leaves (now : Timestamp) (start stop : UInt64) (s : S) : Except LogError (List Leaf) × S :=
  Store.query .store now (leavesQuery start stop) s

/-- The unsigned proof for the leaf at an index. -/
def proof (hash : HashFunction) (now : Timestamp) (index : UInt64) (s : S) :
    Except LogError InclusionProof × S :=
  Store.query .store now (proofQuery hash index) s

/-- Append a leaf and answer its index. A leaf without a byte form is refused before the store is
touched, and a failed append leaves store and handle as they were. -/
def append (hash : HashFunction) (now : Timestamp) (leaf : Leaf) (tree : Tree) (s : S) :
    Except LogError UInt64 × (Tree × S) :=
  match leaf.encode with
  | .error cause => (.error (.codec cause), tree, s)
  | .ok bytes =>
    match Store.update .store now (appendUpdate hash bytes) s with
    | (.error e, s) => (.error e, tree, s)
    | (.ok index, s) => (.ok index, ⟨index + 1⟩, s)

end Tree

end OwnershipLog
