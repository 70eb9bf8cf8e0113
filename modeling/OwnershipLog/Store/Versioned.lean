import OwnershipLog.Store.Basic
import Std.Data.HashMap

/-!
# The store with versions

The store in memory keeps, for each key, the values of several commits, newest
first. A reader pins the version that was current when it opened and resolves
every key to the newest value not above its pin. A commit adds one value to each
key it wrote and drops from that key's chain what no open reader resolves to.
-/

namespace OwnershipLog

/-- The values of one key with the versions that wrote them, newest first. -/
abbrev Chain := List (Nat × Bytes)

/-- How many readers are open at each pinned version; no count is zero. -/
abbrev Pins := List (Nat × Nat)

namespace Pins

/-- One more reader at `version`. -/
def pin (version : Nat) : Pins → Pins
  | [] => [(version, 1)]
  | (v, n) :: pins => if v = version then (v, n + 1) :: pins else (v, n) :: pin version pins

/-- One reader fewer at `version`; the last one takes the entry with it. -/
def unpin (version : Nat) : Pins → Pins
  | [] => []
  | (v, n) :: pins =>
    if v = version then (if n ≤ 1 then pins else (v, n - 1) :: pins) else (v, n) :: unpin version pins

/-- Whether some reader is pinned at a version from `low` up to, but not including, `high`. -/
def anyWithin (low high : Nat) (pins : Pins) : Bool :=
  pins.any fun (v, _) => decide (low ≤ v) && decide (v < high)

end Pins

namespace Chain

/-- The newest value not above `version`. -/
def at? (version : Nat) (chain : Chain) : Option Bytes :=
  (chain.find? fun (v, _) => decide (v ≤ version)).map (·.2)

/-- Of the values older than the one written at `newer`, those that some reader resolves to. -/
def pruneBelow (pins : Pins) : (newer : Nat) → Chain → Chain
  | _, [] => []
  | newer, (v, value) :: older =>
    if pins.anyWithin v newer then (v, value) :: pruneBelow pins v older
    else pruneBelow pins v older

/-- The newest value, and the older ones that some reader resolves to. -/
def prune (pins : Pins) : Chain → Chain
  | [] => []
  | (v, value) :: older => (v, value) :: pruneBelow pins v older

@[simp] theorem at?_nil (version : Nat) : at? version [] = none := rfl

theorem at?_cons (version v : Nat) (value : Bytes) (older : Chain) :
    at? version ((v, value) :: older) = if v ≤ version then some value else at? version older := by
  by_cases h : v ≤ version <;> simp [at?, h]

end Chain

/-- The state of the store in memory. -/
structure Versioned where
  /-- How many commits there have been. -/
  version : Nat
  chains : Std.HashMap Bytes Chain
  pins : Pins
  /-- Whether a writer is open. -/
  locked : Bool

namespace Versioned

/-- The store before any commit. -/
def empty : Versioned := ⟨0, ∅, [], false⟩

/-- The values kept for a key. -/
def chain (s : Versioned) (key : Bytes) : Chain := s.chains.getD key []

/-- What a key holds at a version. -/
def at? (s : Versioned) (version : Nat) (key : Bytes) : Option Bytes := (s.chain key).at? version

/-- How many values are kept for a key. -/
def retained (s : Versioned) (key : Bytes) : Nat := (s.chain key).length

/-- An open reader: the version it is pinned at. -/
structure Reader where
  version : Nat
deriving DecidableEq, Repr

/-- An open writer: the version it started from, and its puts, one for each key. -/
structure Writer where
  base : Nat
  pending : List (Bytes × Bytes)
deriving DecidableEq, Repr

/-- The writer with one more put, in place of an earlier one under the same key. -/
def Writer.put (w : Writer) (key value : Bytes) : Writer :=
  { w with pending := (key, value) :: w.pending.filter fun entry => decide (entry.1 ≠ key) }

/-- What the writer sees under a key: its own put, or what it started from. -/
def Writer.get (w : Writer) (s : Versioned) (key : Bytes) : Option Bytes :=
  match w.pending.lookup key with
  | some value => some value
  | none => s.at? w.base key

/-- File one value of the commit that makes `version`. -/
def publish (version : Nat) (pins : Pins) (chains : Std.HashMap Bytes Chain) :
    Bytes × Bytes → Std.HashMap Bytes Chain
  | (key, value) =>
    chains.insert key (Chain.prune pins ((version, value) :: chains.getD key []))

/-- The store after the writer's puts have become the next version. -/
def commit (s : Versioned) (w : Writer) : Versioned :=
  { s with
    version := s.version + 1
    chains := w.pending.foldl (publish (s.version + 1) s.pins) s.chains
    locked := false }

instance : Store Versioned Reader Writer where
  openReader s := (.ok ⟨s.version⟩, { s with pins := s.pins.pin s.version })
  read reader key s := (.ok (s.at? reader.version key), s)
  closeReader reader s := { s with pins := s.pins.unpin reader.version }
  openWriter s := (.ok ⟨s.version, []⟩, { s with locked := true })
  peek := fun key (w, s) => (.ok (w.get s key), w, s)
  put := fun key value (w, s) => (.ok (), w.put key value, s)
  commit w s := (.ok (), s.commit w)
  discard _ s := { s with locked := false }

end Versioned

end OwnershipLog
