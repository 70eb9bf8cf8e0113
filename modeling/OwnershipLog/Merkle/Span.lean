/-!
# Spans

Every node of the tree is the half-open span of the leaves below it: its width is
a power of two and its left end a multiple of that width. Parent, sibling and
root follow from the span alone, so no node needs a pointer. Ends are 64-bit
words, and a tree has at most `2⁶³` leaves, which keeps every end in range.
-/

namespace OwnershipLog

/-- The most leaves that spans can address. -/
def maxLeaves : UInt64 := 9223372036854775808

/-- The leaves from `left` up to, but not including, `right`. -/
structure Span where
  left : UInt64
  right : UInt64
deriving DecidableEq, Repr

namespace Span

/-- The span of one leaf. -/
def leaf (index : UInt64) : Span := ⟨index, index + 1⟩

/-- Double `right` until it reaches `size`, at most `n` times. -/
def doubleUpTo : (n : Nat) → (right size : UInt64) → UInt64
  | 0, right, _ => right
  | n + 1, right, size => if right < size then doubleUpTo n (right * 2) size else right

/-- The least span from zero that covers `size` leaves; one leaf wide for an empty tree. -/
def rootFor (size : UInt64) : Span := ⟨0, doubleUpTo 63 1 size⟩

/-- How many leaves the span has room for. -/
def width (s : Span) : UInt64 := s.right - s.left

/-- Whether the span is one leaf wide. -/
def isLeaf (s : Span) : Bool := s.width == 1

/-- Whether the span is the root of a tree with `size` leaves. -/
def isRoot (s : Span) (size : UInt64) : Bool := s.left == 0 && decide (size ≤ s.right)

/-- Whether the left end is a multiple of twice the width. -/
def isLeftChild (s : Span) : Bool := s.left &&& s.width == 0

/-- The span of twice the width around this one. -/
def parent (s : Span) : Span :=
  if s.isLeftChild then ⟨s.left, s.right + s.width⟩ else ⟨s.left - s.width, s.right⟩

/-- The other half of the parent. -/
def sibling (s : Span) : Span :=
  if s.isLeftChild then ⟨s.right, s.right + s.width⟩ else ⟨s.left - s.width, s.left⟩

/-- No path to a root has more steps than this. -/
def maxHeight : Nat := 64

/-- The spans from `s` up to, but not including, the root of a tree with `size` leaves; at most `n`. -/
def pathWithin : (n : Nat) → (s : Span) → (size : UInt64) → List Span
  | 0, _, _ => []
  | n + 1, s, size => if s.isRoot size then [] else s :: pathWithin n s.parent size

/-- The spans from a leaf up to, but not including, the root. -/
def path (index size : UInt64) : List Span := pathWithin maxHeight (leaf index) size

/-- Where the path from a leaf ends. -/
def pathEnd (index size : UInt64) : Span := ((path index size).map parent).getLastD (leaf index)

end Span

end OwnershipLog
