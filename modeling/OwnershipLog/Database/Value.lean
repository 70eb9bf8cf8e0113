import OwnershipLog.Database.Block

/-!
# Values

A value in a row is nothing, a number, a text or a byte string. Values of all
kinds are ordered: nothing comes first, then numbers, texts and byte strings.
Texts are kept in the encoding of their database and compared by a collation.
-/

namespace OwnershipLog

/-- A value in a row. -/
inductive Value where
  /-- No value. -/
  | null
  /-- A signed integer of 64 bits. -/
  | integer (n : Int)
  /-- A floating point number. -/
  | real (x : Float)
  /-- A text in the encoding of its database. -/
  | text (bytes : Block)
  /-- A byte string. -/
  | blob (bytes : Block)

/-- How a database writes its texts. -/
inductive TextEncoding where
  | utf8
  | utf16Little
  | utf16Big
deriving DecidableEq, Repr

/-- How texts are compared. -/
inductive Collation where
  /-- Byte by byte. -/
  | binary
  /-- Letters from A to Z count as small ones. -/
  | noCase
  /-- Blanks at the end do not count. -/
  | trimmed
  /-- By a rule that is not known here. -/
  | unknown
deriving DecidableEq, Repr, Inhabited

namespace TextEncoding

/-- The units of a text: bytes, or pairs of bytes. A last byte without a partner is dropped. -/
def units (encoding : TextEncoding) (text : Block) : List Nat :=
  match encoding with
  | utf8 => text.toBytes.map UInt8.toNat
  | utf16Little => (List.range (text.size / 2)).map fun i =>
      Block.byte text (2 * i + 1) * 256 + Block.byte text (2 * i)
  | utf16Big => (List.range (text.size / 2)).map fun i => Block.pair text (2 * i)

/-- The code point that the low bits of the following bytes of a character complete. -/
def continued : (n value : Nat) → List Nat → Nat × List Nat
  | 0, value, rest => (value, rest)
  | n + 1, value, unit :: rest =>
    if unit / 64 = 2 then continued n (value * 64 + unit % 64) rest else (value, unit :: rest)
  | _, value, [] => (value, [])

/-- The code points that units spell. At most `fuel` are read. -/
def codes (encoding : TextEncoding) : (fuel : Nat) → List Nat → List Nat
  | 0, _ => []
  | _, [] => []
  | fuel + 1, unit :: rest =>
    match encoding with
    | utf8 =>
      let (code, rest) :=
        if unit < 0xC0 then (unit, rest)
        else if unit < 0xE0 then continued 1 (unit % 32) rest
        else if unit < 0xF0 then continued 2 (unit % 16) rest
        else continued 3 (unit % 8) rest
      code :: codes encoding fuel rest
    | _ =>
      match rest with
      | low :: rest' =>
        if unit / 0x400 = 0x36 && low / 0x400 = 0x37 then
          (0x10000 + unit % 0x400 * 0x400 + low % 0x400) :: codes encoding fuel rest'
        else unit :: codes encoding fuel rest
      | [] => [unit]

/-- The code points of a text. -/
def codesOf (encoding : TextEncoding) (text : Block) : List Nat :=
  let units := encoding.units text
  encoding.codes units.length units

/-- The bytes of a code point. -/
def bytesOf (encoding : TextEncoding) (code : Nat) : Bytes :=
  let pair (n : Nat) : Bytes :=
    match encoding with
    | utf16Little => [n.toUInt8, (n / 256).toUInt8]
    | _ => [(n / 256).toUInt8, n.toUInt8]
  match encoding with
  | utf8 =>
    if code < 0x80 then [code.toUInt8]
    else if code < 0x800 then [(0xC0 + code / 64).toUInt8, (0x80 + code % 64).toUInt8]
    else if code < 0x10000 then
      [(0xE0 + code / 4096).toUInt8, (0x80 + code / 64 % 64).toUInt8, (0x80 + code % 64).toUInt8]
    else
      [(0xF0 + code / 262144 % 8).toUInt8, (0x80 + code / 4096 % 64).toUInt8,
        (0x80 + code / 64 % 64).toUInt8, (0x80 + code % 64).toUInt8]
  | _ =>
    if code < 0x10000 then pair code
    else pair (0xD800 + (code - 0x10000) / 0x400 % 0x400) ++ pair (0xDC00 + code % 0x400)

/-- The text that code points spell. -/
def ofCodes (encoding : TextEncoding) (codes : List Nat) : Block :=
  Block.ofBytes (codes.flatMap encoding.bytesOf)

end TextEncoding

/-- A letter from A to Z as a small one. -/
def smallLetter (code : Nat) : Nat := if 65 ≤ code && code ≤ 90 then code + 32 else code

/-- Which of two byte strings comes first, by their first bytes that differ, then by length. -/
def compareBytes : List Nat → List Nat → Ordering
  | [], [] => .eq
  | [], _ :: _ => .lt
  | _ :: _, [] => .gt
  | a :: as, b :: bs => (compare a b).then (compareBytes as bs)

namespace Block

/-- Which of two blocks comes first, looking at their bytes from a place on. -/
def compareFrom (a b : Block) : (left i : Nat) → Ordering
  | 0, _ => compare a.size b.size
  | left + 1, i =>
    if i < a.size && i < b.size then
      (compare (byte a i) (byte b i)).then (compareFrom a b left (i + 1))
    else compare a.size b.size

/-- Which of two blocks comes first. -/
def order (a b : Block) : Ordering := compareFrom a b (min a.size b.size) 0

end Block

/-- Which of two texts comes first. -/
def Collation.compare (collation : Collation) (encoding : TextEncoding) (a b : Block) : Ordering :=
  match collation with
  | noCase => compareBytes ((encoding.codesOf a).map smallLetter) ((encoding.codesOf b).map smallLetter)
  | trimmed =>
    let cut (text : Block) : List Nat :=
      ((encoding.codesOf text).reverse.dropWhile (· = 32)).reverse
    compareBytes (cut a) (cut b)
  | _ => Block.order a b

/-- A finite float as `(m, e)` for `m * 2 ^ e`. -/
def Float.parts (x : Float) : Int × Int :=
  let bits := x.toBits.toNat
  let sign : Int := if bits / 2 ^ 63 = 1 then -1 else 1
  let exponent : Nat := bits / 2 ^ 52 % 2048
  let fraction : Nat := bits % 2 ^ 52
  if exponent = 0 then (sign * (fraction : Int), -1074)
  else (sign * ((2 ^ 52 + fraction : Nat) : Int), (exponent : Int) - 1075)

/-- Which of an integer and a float is smaller; infinities lie beyond all integers. -/
def compareToReal (n : Int) (x : Float) : Ordering :=
  if x.isInf then if x > 0 then .lt else .gt
  else
    let (m, e) := Float.parts x
    if 0 ≤ e then compare n (m * 2 ^ e.toNat) else compare (n * 2 ^ (-e).toNat) m

/-- Which of two floats is smaller. -/
def compareReals (x y : Float) : Ordering := if x < y then .lt else if x > y then .gt else .eq

namespace Value

/-- The kinds of values in their order. -/
def rank : Value → Nat
  | null => 0
  | integer _ => 1
  | real _ => 1
  | text _ => 2
  | blob _ => 3

/-- Which of two values comes first. -/
def compare (collation : Collation) (encoding : TextEncoding) : Value → Value → Ordering
  | null, null => .eq
  | integer m, integer n => Ord.compare m n
  | integer m, real y => compareToReal m y
  | real x, integer n => (compareToReal n x).swap
  | real x, real y => compareReals x y
  | text a, text b => collation.compare encoding a b
  | blob a, blob b => Block.order a b
  | v, w => Ord.compare v.rank w.rank

/-- Whether there is no value. -/
def isNull : Value → Bool
  | null => true
  | _ => false

end Value

end OwnershipLog
