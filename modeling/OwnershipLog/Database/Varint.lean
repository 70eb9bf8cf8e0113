import OwnershipLog.Database.Block

/-!
# Numbers of variable length

A number is written in groups of seven bits, most significant first; every byte
but the last has its high bit set, and a ninth byte is always the last and gives
all its eight bits. So every number below 2^64 has a form, and `varint` is the
shortest one.
-/

namespace OwnershipLog

namespace Block

/-- The number from a place on whose groups so far spell `high`, and how many bytes it takes
after the `count` bytes already read. Of the next bytes `left` may announce another. -/
def varintOnto (b : Block) (i : Nat) : (left : Nat) → (high count : Nat) → Nat × Nat
  | 0, high, count => (high * 256 + byte b i, count + 1)
  | left + 1, high, count =>
    let value := high * 128 + byte b i % 128
    if byte b i < 128 then (value, count + 1)
    else varintOnto b (i + 1) left value (count + 1)

/-- The number written from a place on, and how many bytes it takes. -/
def varint (b : Block) (i : Nat) : Nat × Nat := varintOnto b i 8 0 0

/-- The same, with a number of more than 32 bits cut down to the greatest of 32 bits. -/
def varint32 (b : Block) (i : Nat) : Nat × Nat :=
  let (value, width) := varint b i
  (min value 0xFFFFFFFF, width)

end Block

/-- The lowest `count` groups of seven bits of a number, put before those in `found`; all of them
announce another. -/
def groupsOnto : (count n : Nat) → (found : Bytes) → Bytes
  | 0, _, found => found
  | count + 1, n, found => groupsOnto count (n / 128) ((n % 128 + 128).toUInt8 :: found)

/-- The shortest form of a number below 2^64. -/
def varintBytes (n : Nat) : Bytes :=
  if n < 128 then [n.toUInt8]
  else if n < 2 ^ 56 then groupsOnto (Nat.log2 (n / 128) / 7 + 1) (n / 128) [(n % 128).toUInt8]
  else groupsOnto 8 (n / 256) [(n % 256).toUInt8]

/-- The number below 2^64 as a signed one. -/
def signed64 (n : Nat) : Int := if n < 2 ^ 63 then n else (n : Int) - 2 ^ 64

/-- The number below 2^64 that a signed one is written as. -/
def unsigned64 (n : Int) : Nat := (n % 2 ^ 64).toNat

theorem signed64_unsigned64 {n : Int} (low : -2 ^ 63 ≤ n) (high : n < 2 ^ 63) :
    signed64 (unsigned64 n) = n := by
  unfold signed64 unsigned64
  split <;> omega

end OwnershipLog
