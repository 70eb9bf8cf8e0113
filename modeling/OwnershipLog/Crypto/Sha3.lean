import OwnershipLog.Bytes

/-!
# The hash of the log

SHA3-256: a sponge over a state of twenty-five 64-bit lanes. A message is taken
in blocks of 136 bytes, each mixed into the state and followed by the
permutation; the digest is the first four lanes of the final state.
-/

namespace OwnershipLog.Sha3

/-- The lanes of the sponge; lane `(x, y)` stands at `x + 5 * y`. -/
abbrev State := Vector UInt64 25

/-- The lane at column `x` and row `y`, both taken modulo five. -/
def lane (s : State) (x y : Nat) : UInt64 := s[x % 5 + 5 * (y % 5)]

/-- The state whose lane `(x, y)` is `f x y`. -/
def build (f : (x y : Nat) → UInt64) : State := Vector.ofFn fun i => f (i.val % 5) (i.val / 5)

/-- The word turned left by `n` places. -/
def rotate (w n : UInt64) : UInt64 := w <<< n ||| w >>> (64 - n)

/-- How far each lane is turned, in the order of the lanes. -/
def turns : Vector UInt64 25 := #v[
  0, 1, 62, 28, 27,
  36, 44, 6, 55, 20,
  3, 10, 43, 25, 39,
  41, 45, 15, 21, 8,
  18, 2, 61, 56, 14]

/-- What is added to the first lane in each of the twenty-four rounds. -/
def roundConstants : List UInt64 := [
  0x0000000000000001, 0x0000000000008082, 0x800000000000808A, 0x8000000080008000,
  0x000000000000808B, 0x0000000080000001, 0x8000000080008081, 0x8000000000008009,
  0x000000000000008A, 0x0000000000000088, 0x0000000080008009, 0x000000008000000A,
  0x000000008000808B, 0x800000000000008B, 0x8000000000008089, 0x8000000000008003,
  0x8000000000008002, 0x8000000000000080, 0x000000000000800A, 0x800000008000000A,
  0x8000000080008081, 0x8000000000008080, 0x0000000080000001, 0x8000000080008008]

/-- Add to each lane the parities of two neighbouring columns. -/
def theta (s : State) : State :=
  let parity : Vector UInt64 5 := Vector.ofFn fun x =>
    lane s x 0 ^^^ lane s x 1 ^^^ lane s x 2 ^^^ lane s x 3 ^^^ lane s x 4
  let mix : Vector UInt64 5 := Vector.ofFn fun x =>
    parity[(x.val + 4) % 5] ^^^ rotate parity[(x.val + 1) % 5] 1
  build fun x y => lane s x y ^^^ mix[x % 5]

/-- Turn each lane by its own amount and move it to its new place. -/
def rhoPi (s : State) : State :=
  build fun x y => rotate (lane s (x + 3 * y) x) (lane turns (x + 3 * y) x)

/-- Mix each lane with the two that follow it in its row. -/
def chi (s : State) : State :=
  build fun x y => lane s x y ^^^ (~~~ lane s (x + 1) y &&& lane s (x + 2) y)

/-- Add a round constant to the first lane. -/
def iota (s : State) (constant : UInt64) : State := s.set 0 (s[0] ^^^ constant)

/-- All rounds of the permutation. -/
def permute (s : State) : State :=
  roundConstants.foldl (fun s constant => iota (chi (rhoPi (theta s))) constant) s

/-- Bytes as lanes, least significant byte first; fewer than eight at the end are dropped. -/
def lanesOf : Bytes → List UInt64
  | a :: b :: c :: d :: e :: f :: g :: h :: rest =>
    (a.toUInt64 ||| b.toUInt64 <<< 8 ||| c.toUInt64 <<< 16 ||| d.toUInt64 <<< 24 |||
      e.toUInt64 <<< 32 ||| f.toUInt64 <<< 40 ||| g.toUInt64 <<< 48 ||| h.toUInt64 <<< 56)
      :: lanesOf rest
  | _ => []

/-- The bytes that enter the state at a time. -/
def rate : Nat := 136

/-- Mix one block into the state. -/
def absorbBlock (s : State) (block : Bytes) : State :=
  let lanes := (lanesOf block).toArray
  permute (Vector.ofFn fun i => s[i] ^^^ lanes.getD i 0)

/-- The last block: what is left of the message, a mark after it, and a mark in the last byte. -/
def lastBlock (tail : Bytes) : Bytes :=
  if tail.length + 1 = rate then tail ++ [0x86]
  else tail ++ 0x06 :: List.replicate (rate - 2 - tail.length) 0 ++ [0x80]

/-- Mix a whole message into the state, block by block. -/
def absorb (s : State) (message : Bytes) : State :=
  let block := message.take rate
  if _full : block.length = rate then absorb (absorbBlock s block) (message.drop rate)
  else absorbBlock s (lastBlock block)
termination_by message.length
decreasing_by
  simp only [block, List.length_take, rate] at _full
  simp only [List.length_drop, rate]
  omega

/-- The eight bytes of a lane, least significant first. -/
def laneBytes (w : UInt64) : Bytes := littleEndian 8 w.toNat

/-- The SHA3-256 digest of a message. -/
def digest (message : Bytes) : Digest :=
  let s := absorb (Vector.replicate 25 0) message
  ⟨laneBytes s[0] ++ laneBytes s[1] ++ laneBytes s[2] ++ laneBytes s[3], by
    simp [laneBytes, littleEndian]⟩

end OwnershipLog.Sha3
