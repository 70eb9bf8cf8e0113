import OwnershipLog.Error
import OwnershipLog.Leaf

/-!
# Following the log

A follower remembers the next index it has not reported and pulls new leaves page
by page, in the order of the log. If anything fails during a poll its position
stays, so the next poll returns what the failed one had found.

Positions and pages are words, and their sums wrap around. So a long page can end before
it begins. A source may also hand out more leaves than it was asked for, which carries a
position past the last word and back to zero: such a pull need not come to an end, and
then there is no result.
-/

namespace OwnershipLog

/-- A leaf with its position in the log. -/
structure NewLeaf where
  index : UInt64
  leaf : Leaf
deriving DecidableEq

/-- Anything that reports its size and hands out ranges of leaves. -/
structure LeafSource (σ : Type) where
  size : σ → Except LogError UInt64 × σ
  /-- The leaves from `start` up to `stop`; fewer, more or none may come. -/
  entries : (start stop : UInt64) → σ → Except LogError (List Leaf) × σ

/-- A position in the log, and the most leaves to ask for at a time. -/
structure Follower where
  next : UInt64
  page : UInt64
  page_pos : 0 < page
deriving DecidableEq

variable {σ : Type}

namespace Follower

theorem zero_lt_max_one (page : UInt64) : 0 < max page 1 := by
  rw [show max page 1 = if page ≤ 1 then 1 else page from rfl]
  split
  · decide
  · rename_i hlong
    exact UInt64.lt_trans (by decide) (UInt64.not_le.1 hlong)

/-- Follow from `next` on; a page of zero counts as one. -/
def ofNext (next page : UInt64) : Follower := ⟨next, max page 1, zero_lt_max_one page⟩

/-- Follow only what is appended after now. -/
def atHead (source : LeafSource σ) (page : UInt64) (s : σ) : Except LogError Follower × σ :=
  match source.size s with
  | (.ok size, s) => (.ok (ofNext size page), s)
  | (.error e, s) => (.error e, s)

/-- Leaves with the positions from `next` on. -/
def number : (next : UInt64) → List Leaf → List NewLeaf
  | _, [] => []
  | next, leaf :: leaves => ⟨next, leaf⟩ :: number (next + 1) leaves

end Follower

/-- Pull pages from `next` until `size` is reached or a page is empty; the records found come after
those in `found`. -/
def LeafSource.pull (source : LeafSource σ) (page size next : UInt64) (found : List NewLeaf)
    (s : σ) : Option (Except LogError (List NewLeaf × UInt64) × σ) :=
  if next < size then
    match source.entries next (min size (next + page)) s with
    | (.error e, s) => some (.error e, s)
    | (.ok [], s) => some (.ok (found, next), s)
    | (.ok (leaf :: leaves), s) =>
      source |>.pull page size (next + UInt64.ofNat (leaves.length + 1))
        (found ++ Follower.number next (leaf :: leaves)) s
  else some (.ok (found, next), s)
partial_fixpoint

namespace Follower

/-- Every leaf since the last poll, oldest first, and the follower that has reported them. -/
def poll (source : LeafSource σ) (follower : Follower) (s : σ) :
    Option (Except LogError (List NewLeaf) × (Follower × σ)) :=
  match source.size s with
  | (.error e, s) => some (.error e, follower, s)
  | (.ok size, s) =>
    match source.pull follower.page size follower.next [] s with
    | none => none
    | some (.error e, s) => some (.error e, follower, s)
    | some (.ok (found, next), s) => some (.ok found, { follower with next := next }, s)

end Follower

end OwnershipLog
