import OwnershipLog.Bytes

/-!
# The block cipher

AES with a 32-byte key: a block of sixteen bytes, read as four columns of four,
goes through fourteen rounds of substitution, row shifts, column mixing and key
addition. The substitution is the inverse in the field of 256 elements followed
by an affine map.
-/

namespace OwnershipLog.Aes256

/-- A block; the byte in row `r` of column `c` stands at `r + 4 * c`. -/
abbrev Block := Vector UInt8 16

/-- Twice an element of the byte field. -/
def double (b : UInt8) : UInt8 := (b <<< 1) ^^^ (if b < 0x80 then 0 else 0x1B)

/-- The product of two elements of the byte field, over the low `n` bits of the second. -/
def timesBits : (n : Nat) → (a b : UInt8) → UInt8
  | 0, _, _ => 0
  | n + 1, a, b => (if b &&& 1 = 1 then a else 0) ^^^ timesBits n (double a) (b >>> 1)

/-- The product of two elements of the byte field. -/
def times (a b : UInt8) : UInt8 := timesBits 8 a b

/-- The inverse of a byte in the field, zero for zero: its 254th power. -/
def inverse (b : UInt8) : UInt8 :=
  let square (a : UInt8) : UInt8 := times a a
  let p3 := times (square b) b
  let p7 := times (square p3) b
  let p15 := times (square p7) b
  let p31 := times (square p15) b
  let p63 := times (square p31) b
  let p127 := times (square p63) b
  square p127

/-- The byte turned left by `n` places. -/
def rotate (b n : UInt8) : UInt8 := b <<< n ||| b >>> (8 - n)

/-- The substitute of a byte, by definition. -/
def substituteOf (b : UInt8) : UInt8 :=
  let i := inverse b
  i ^^^ rotate i 1 ^^^ rotate i 2 ^^^ rotate i 3 ^^^ rotate i 4 ^^^ 0x63

/-- The substitutes of all bytes. -/
def substitutes : Array UInt8 := (Array.range 256).map fun n => substituteOf n.toUInt8

/-- The substitute of a byte. -/
def substitute (b : UInt8) : UInt8 := substitutes.getD b.toNat 0

/-- Four bytes of a key schedule. -/
abbrev Word := Vector UInt8 4

/-- Byte by byte addition of two words. -/
def addWord (a b : Word) : Word := Vector.ofFn fun i => a[i] ^^^ b[i]

/-- The word after those of the schedule, whose `i`th it is; `constant` is used at every eighth. -/
def nextWord (schedule : Array Word) (i : Nat) (constant : UInt8) : Word :=
  let zero : Word := #v[0, 0, 0, 0]
  let last := schedule.getD (i - 1) zero
  let mixed : Word :=
    if i % 8 = 0 then
      #v[substitute last[1] ^^^ constant, substitute last[2], substitute last[3], substitute last[0]]
    else if i % 8 = 4 then last.map substitute
    else last
  addWord (schedule.getD (i - 8) zero) mixed

/-- The first eight words of the schedule: the key itself. -/
def keyWords : Bytes → List Word
  | a :: b :: c :: d :: rest => #v[a, b, c, d] :: keyWords rest
  | _ => []

/-- The sixty words of the key schedule. -/
def schedule (key : Octets 32) : Array Word :=
  let grow (state : Array Word × UInt8) (i : Nat) : Array Word × UInt8 :=
    let (words, constant) := state
    (words.push (nextWord words i constant), if i % 8 = 0 then double constant else constant)
  ((List.range' 8 52).foldl grow ((keyWords key.toBytes).toArray, 1)).1

/-- The key added in round `n`. -/
def roundKey (words : Array Word) (n : Nat) : Block :=
  Vector.ofFn fun i => (words.getD (4 * n + i.val / 4) #v[0, 0, 0, 0])[i.val % 4]

/-- The keys of all fifteen additions. -/
def roundKeys (key : Octets 32) : List Block :=
  let words := schedule key
  (List.range 15).map (roundKey words)

/-- Add a round key. -/
def addKey (s key : Block) : Block := Vector.ofFn fun i => s[i] ^^^ key[i]

/-- Substitute every byte and shift row `r` by `r` columns. -/
def substituteShift (s : Block) : Block :=
  Vector.ofFn fun i => substitute s[(i.val + 4 * (i.val % 4)) % 16]

/-- Mix the four bytes of each column. -/
def mixColumns (s : Block) : Block :=
  Vector.ofFn fun i =>
    let below (k : Nat) : UInt8 := s[i.val / 4 * 4 + (i.val + k) % 4]
    double (below 0) ^^^ (double (below 1) ^^^ below 1) ^^^ below 2 ^^^ below 3

/-- The rounds after the first key addition; the last of them does not mix columns. -/
def rounds (s : Block) : List Block → Block
  | [] => s
  | [key] => addKey (substituteShift s) key
  | key :: keys => rounds (addKey (mixColumns (substituteShift s)) key) keys

/-- Encrypt one block under the keys of a schedule. -/
def encrypt (keys : List Block) (block : Block) : Block :=
  match keys with
  | [] => block
  | key :: keys => rounds (addKey block key) keys

end OwnershipLog.Aes256
