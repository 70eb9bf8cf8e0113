import OwnershipLog.Bytes

/-!
# Blocks

A block is a stretch of bytes that is read and changed in place, such as a page of
a database file. A place past its end reads as zero, and writing there changes
nothing, so no reader and no writer can fail.
-/

namespace OwnershipLog

/-- Bytes that are addressed by their place. -/
abbrev Block := ByteArray

namespace Block

/-- A block of `n` zero bytes. -/
def zeros (n : Nat) : Block := ⟨Array.replicate n 0⟩

/-- The block that holds the bytes of a byte string. -/
def ofBytes (bytes : Bytes) : Block := ⟨bytes.toArray⟩

/-- The bytes of a block. -/
def toBytes (b : Block) : Bytes := b.data.toList

/-- The byte at a place. -/
def byte (b : Block) (i : Nat) : Nat := if h : i < b.size then b[i].toNat else 0

/-- The number that two bytes spell, most significant first. -/
def pair (b : Block) (i : Nat) : Nat := byte b i * 256 + byte b (i + 1)

/-- The number that four bytes spell, most significant first. -/
def word (b : Block) (i : Nat) : Nat := pair b i * 65536 + pair b (i + 2)

/-- The block with another byte at a place. -/
def setByte (b : Block) (i v : Nat) : Block := if h : i < b.size then b.set i v.toUInt8 h else b

/-- The block with another number in two bytes. -/
def setPair (b : Block) (i v : Nat) : Block := setByte (setByte b i (v / 256)) (i + 1) v

/-- The block with another number in four bytes. -/
def setWord (b : Block) (i v : Nat) : Block := setPair (setPair b i (v / 65536)) (i + 2) v

/-- `n` bytes from a place on. -/
def part (b : Block) (i n : Nat) : Block :=
  let found := b.extract i (i + n)
  if found.size < n then found ++ zeros (n - found.size) else found

/-- The block with the bytes of another one laid over it from a place on. -/
def overlay (b : Block) (i : Nat) (source : Block) : Block :=
  source.copySlice 0 b i (min source.size (b.size - i))

/-- The block with `n` bytes copied from one place to another; the two stretches may overlap. -/
def move (b : Block) (target source n : Nat) : Block := overlay b target (part b source n)

/-- The block with `n` bytes from a place on set to zero. -/
def clear (b : Block) (i n : Nat) : Block := overlay b i (zeros n)

/-- The block cut or filled up with zero bytes to `n` bytes. -/
def resize (b : Block) (n : Nat) : Block := part b 0 n

@[simp] theorem size_zeros (n : Nat) : (zeros n).size = n := by
  simp [zeros, ByteArray.size]

theorem byte_lt (b : Block) (i : Nat) : byte b i < 256 := by
  unfold byte
  split
  · exact UInt8.toNat_lt _
  · omega

theorem pair_lt (b : Block) (i : Nat) : pair b i < 65536 := by
  have := byte_lt b i
  have := byte_lt b (i + 1)
  unfold pair
  omega

theorem byte_of_le {b : Block} {i : Nat} (h : b.size ≤ i) : byte b i = 0 :=
  dif_neg (Nat.not_lt.2 h)

@[simp] theorem size_setByte (b : Block) (i v : Nat) : (setByte b i v).size = b.size := by
  unfold setByte
  split
  · exact Array.size_set _
  · rfl

@[simp] theorem size_setPair (b : Block) (i v : Nat) : (setPair b i v).size = b.size := by
  simp [setPair]

@[simp] theorem size_setWord (b : Block) (i v : Nat) : (setWord b i v).size = b.size := by
  simp [setWord]

theorem setByte_of_le {b : Block} {i : Nat} (h : b.size ≤ i) (v : Nat) : setByte b i v = b :=
  dif_neg (Nat.not_lt.2 h)

end Block

end OwnershipLog
