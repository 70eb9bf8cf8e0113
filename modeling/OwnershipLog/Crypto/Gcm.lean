import OwnershipLog.Crypto.Aes256

/-!
# Authenticated encryption

The block cipher in Galois counter mode with 12-byte nonces and 16-byte tags.
Blocks are numbers below `2¹²⁸`, first byte most significant. The text is added
to the encryptions of consecutive counters; the tag is a polynomial hash of the
associated data, the sealed text and both lengths, added to the encryption of
the first counter.
-/

namespace OwnershipLog.Gcm

open Aes256 (Block)

/-- The longest text that one nonce can seal, in bytes. -/
def maxText : Nat := 2 ^ 36

/-- A number below `2¹²⁸` as a block. -/
def blockOf (n : Nat) : Block := Vector.ofFn fun i => (n / 256 ^ (15 - i.val)).toUInt8

/-- Encrypt a block given as a number. -/
def encrypt (keys : List Block) (n : Nat) : Nat :=
  ofBigEndian (Aes256.encrypt keys (blockOf n)).toList

/-- Half an element of the field of `2¹²⁸` elements; the first bit is the least power. -/
def shift (v : Nat) : Nat :=
  if v % 2 = 1 then v / 2 ^^^ (0xE1 * 2 ^ 120) else v / 2

/-- The product of `x` and `v` over the top `n` bits of `x`. -/
def timesBits : (n : Nat) → (x v : Nat) → Nat
  | 0, _, _ => 0
  | n + 1, x, v => (if x.testBit n then v else 0) ^^^ timesBits n x (shift v)

/-- The product in the field of `2¹²⁸` elements. -/
def times (x y : Nat) : Nat := timesBits 128 x y

/-- The bytes as blocks, the last one filled up with zeros, added to those in `found`, which are
in reverse order. -/
def blocksOnto (found : List Nat) (bytes : Bytes) : List Nat :=
  if _done : bytes.isEmpty then found.reverse
  else
    let block := bytes.take 16
    blocksOnto (ofBigEndian block * 256 ^ (16 - block.length) :: found) (bytes.drop 16)
termination_by bytes.length
decreasing_by
  have hpos : 0 < bytes.length := by
    cases bytes with
    | nil => simp at _done
    | cons b bs => simp
  simp only [List.length_drop]
  omega

/-- The bytes as blocks, the last one filled up with zeros. -/
def blocks (bytes : Bytes) : List Nat := blocksOnto [] bytes

/-- The polynomial hash of the associated data and the sealed text under `h`. -/
def hash (h : Nat) (associated sealed : Bytes) : Nat :=
  let lengths := 8 * associated.length * 2 ^ 64 + 8 * sealed.length
  (blocks associated ++ blocks sealed ++ [lengths]).foldl (fun y x => times (y ^^^ x) h) 0

/-- The counter that follows: its low 32 bits count and wrap around. -/
def next (counter : Nat) : Nat :=
  counter / 2 ^ 32 * 2 ^ 32 + (counter + 1) % 2 ^ 32

/-- The first counter of a nonce. -/
def firstCounter (nonce : Nonce) : Nat := ofBigEndian nonce.toBytes * 2 ^ 32 + 1

/-- The bytes added to a text of `n` blocks, from the block `counter` on, put after those in
`found`, which are in reverse order. -/
def keystreamOnto (keys : List Block) : (n : Nat) → (counter : Nat) → (found : Bytes) → Bytes
  | 0, _, found => found.reverse
  | n + 1, counter, found =>
    keystreamOnto keys n (next counter)
      ((bigEndian 16 (encrypt keys counter)).reverse ++ found)

/-- Add the keystream to a text; done twice it gives the text back. -/
def mask (keys : List Block) (nonce : Nonce) (text : Bytes) : Bytes :=
  let stream := keystreamOnto keys ((text.length + 15) / 16) (next (firstCounter nonce)) []
  List.zipWith (fun a b => a ^^^ b) text stream

/-- The tag of a sealed text. -/
def tag (keys : List Block) (nonce : Nonce) (associated sealed : Bytes) : Bytes :=
  bigEndian 16 (hash (encrypt keys 0) associated sealed ^^^ encrypt keys (firstCounter nonce))

/-- The sealed text followed by its tag; a text above the limit is refused. -/
def encryptText (key : SealingKey) (nonce : Nonce) (associated text : Bytes) : Option Bytes :=
  if text.length ≤ maxText then
    let keys := Aes256.roundKeys key
    let sealed := mask keys nonce text
    some (sealed ++ tag keys nonce associated sealed)
  else none

/-- The text that was sealed, if the tag at the end is right. -/
def decryptText (key : SealingKey) (nonce : Nonce) (associated body : Bytes) : Option Bytes :=
  if body.length < 16 then none
  else
    let keys := Aes256.roundKeys key
    let sealed := body.take (body.length - 16)
    if tag keys nonce associated sealed = body.drop (body.length - 16) then
      some (mask keys nonce sealed)
    else none

end OwnershipLog.Gcm
