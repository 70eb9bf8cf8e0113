import OwnershipLog.Database.Value

/-!
# Numbers in texts

A text may begin with a number, or be one between blanks. `Numeral.read` finds it;
`Value.asText` writes a number out, a float with at most fifteen digits.
-/

namespace OwnershipLog

namespace Numeral

/-- Whether a code point is blank. -/
def isBlank (code : Nat) : Bool := code = 32 || (9 ≤ code && code ≤ 13)

/-- Whether a code point is a digit. -/
def isDigit (code : Nat) : Bool := 48 ≤ code && code ≤ 57

/-- The number that digits spell. -/
def ofDigits (codes : List Nat) : Nat := codes.foldl (fun n code => 10 * n + (code - 48)) 0

/-- The float nearest to `mantissa * 10 ^ exponent`. -/
def scaled (mantissa : Nat) (exponent : Int) : Float :=
  if exponent < 0 then Float.ofScientific mantissa true (-exponent).toNat
  else Float.ofScientific mantissa false exponent.toNat

/-- The sign at the front, and the rest. -/
def sign : List Nat → Bool × List Nat
  | 43 :: rest => (false, rest)
  | 45 :: rest => (true, rest)
  | codes => (false, codes)

/-- A number at the front of a text. -/
structure Found where
  value : Value
  /-- Whether nothing but blanks follows it. -/
  whole : Bool
  /-- Whether it has a digit. -/
  any : Bool

/-- The number at the front of some code points. Without a digit it is zero. -/
def read (codes : List Nat) : Found :=
  let (negative, codes) := sign (codes.dropWhile isBlank)
  let digits := codes.takeWhile isDigit
  let rest := codes.dropWhile isDigit
  let (fraction, rest, pointed) : List Nat × List Nat × Bool :=
    match rest with
    | 46 :: tail =>
      if digits.isEmpty && (tail.takeWhile isDigit).isEmpty then ([], rest, false)
      else (tail.takeWhile isDigit, tail.dropWhile isDigit, true)
    | _ => ([], rest, false)
  let any := !(digits.isEmpty && fraction.isEmpty)
  let (power, rest, scaled') : Int × List Nat × Bool :=
    match rest with
    | e :: tail =>
      if any && (e = 101 || e = 69) then
        let (below, tail) := sign tail
        let found := tail.takeWhile isDigit
        if found.isEmpty then (0, rest, false)
        else
          let n : Nat := min 100000 (ofDigits (found.take 20))
          (if below then -(n : Int) else n, tail.dropWhile isDigit, true)
      else (0, rest, false)
    | [] => (0, rest, false)
  let whole := (rest.dropWhile isBlank).isEmpty
  let magnitude := ofDigits digits
  let exact := !pointed && !scaled' &&
    (magnitude < 2 ^ 63 || (negative && magnitude = 2 ^ 63))
  if exact then ⟨.integer (if negative then -(magnitude : Int) else magnitude), whole, any⟩
  else
    let x := scaled (ofDigits (digits ++ fraction)) (power - fraction.length)
    ⟨.real (if negative then -x else x), whole, any⟩

/-- The integer at the front of some code points, within 64 bits. -/
def integer (codes : List Nat) : Int :=
  let (negative, codes) := sign (codes.dropWhile isBlank)
  let n : Int := ofDigits (codes.takeWhile isDigit)
  if negative then max (-2 ^ 63) (-n) else min (2 ^ 63 - 1) n

/-- The code points of a text in this library. -/
def codesOf (text : String) : List Nat := text.toList.map Char.toNat

/-- The `count` leading digits of a positive rational, rounded, and the power of ten of the first
one. -/
def leadingDigits (count : Nat) (numerator denominator : Nat) : Nat × Int :=
  let size (n : Nat) : Int := ((Nat.toDigits 10 n).length : Nat)
  let guess : Int := size numerator - size denominator
  let at' (e : Int) : Nat :=
    let shift := (count : Int) - 1 - e
    let top := if 0 ≤ shift then numerator * 10 ^ shift.toNat else numerator
    let bottom := if 0 ≤ shift then denominator else denominator * 10 ^ (-shift).toNat
    (2 * top + bottom) / (2 * bottom)
  let e := if at' guess < 10 ^ (count - 1) then guess - 1 else guess
  let digits := at' e
  if 10 ^ count ≤ digits then (digits / 10, e + 1) else (digits, e)

/-- A float as text: fifteen digits at most, with a point, and with an exponent if it is far from
one. -/
def ofReal (x : Float) : String :=
  if x.isNaN then "NULL"
  else if x.isInf then if x > 0 then "Inf" else "-Inf"
  else
    let (m, e) := Float.parts x
    let sign := if m < 0 then "-" else ""
    if m = 0 then "0.0"
    else
      let (digits, power) :=
        if 0 ≤ e then leadingDigits 15 (m.natAbs * 2 ^ e.toNat) 1
        else leadingDigits 15 m.natAbs (2 ^ (-e).toNat)
      let text := ((Nat.toDigits 10 digits).reverse.dropWhile (· = '0')).reverse
      let whole (k : Nat) : String := String.ofList ((text ++ List.replicate 20 '0').take k)
      let fraction (cs : List Char) : String := if cs.isEmpty then "0" else String.ofList cs
      if power < -4 || 15 ≤ power then
        let n := power.natAbs
        let exponent := if n < 10 then "0" ++ toString n else toString n
        sign ++ whole 1 ++ "." ++ fraction (text.drop 1) ++ "e" ++
          (if power < 0 then "-" else "+") ++ exponent
      else if power < 0 then
        sign ++ "0." ++ String.ofList (List.replicate (power.natAbs - 1) '0' ++ text)
      else sign ++ whole (power.toNat + 1) ++ "." ++ fraction (text.drop (power.toNat + 1))

end Numeral

namespace Value

/-- A text of this library as a value. -/
def ofString (encoding : TextEncoding) (text : String) : Value :=
  .text (encoding.ofCodes (Numeral.codesOf text))

/-- The code points of a value taken as a text. -/
def codes (encoding : TextEncoding) : Value → List Nat
  | null => []
  | integer n => Numeral.codesOf (toString n)
  | real x => Numeral.codesOf (Numeral.ofReal x)
  | text bytes => encoding.codesOf bytes
  | blob bytes => encoding.codesOf bytes

/-- A value as a text of this library, one character for each byte of its UTF-8 form. -/
def spelled (encoding : TextEncoding) (v : Value) : String :=
  let bytes := match encoding, v with
    | .utf8, .text bytes => bytes
    | .utf8, .blob bytes => bytes
    | _, v => TextEncoding.utf8.ofCodes (v.codes encoding)
  String.ofList (bytes.toBytes.map fun b => Char.ofNat b.toNat)

/-- A value as a text; no value stays none. -/
def asText (encoding : TextEncoding) : Value → Value
  | null => null
  | text bytes => text bytes
  | blob bytes => text bytes
  | v => text (encoding.ofCodes (v.codes encoding))

/-- A value as a byte string; no value stays none. -/
def asBlob (encoding : TextEncoding) (v : Value) : Value :=
  match v.asText encoding with
  | text bytes => blob bytes
  | w => w

/-- A value as a number; a text counts as the number that it begins with. -/
def asNumber (encoding : TextEncoding) : Value → Value
  | null => null
  | integer n => integer n
  | real x => real x
  | v => (Numeral.read (v.codes encoding)).value

/-- The number nearest to an integer. -/
def floatOfInt (n : Int) : Float := Float.ofInt n

/-- A value as a float; no value counts as zero. -/
def toFloat (encoding : TextEncoding) (v : Value) : Float :=
  match v.asNumber encoding with
  | integer n => floatOfInt n
  | real x => x
  | _ => 0

/-- The integer that a float is cut down to, within 64 bits. -/
def intOfFloat (x : Float) : Int :=
  if x.isNaN then 0
  else if x.isInf then if x > 0 then 2 ^ 63 - 1 else -2 ^ 63
  else
    let (m, e) := Float.parts x
    let n := if 0 ≤ e then m * 2 ^ e.toNat else Int.tdiv m (2 ^ (-e).toNat)
    max (-2 ^ 63) (min (2 ^ 63 - 1) n)

/-- A value as an integer; a text counts as the integer that it begins with, no value as zero. -/
def toInt (encoding : TextEncoding) (v : Value) : Int :=
  match v with
  | null => 0
  | integer n => n
  | real x => intOfFloat x
  | v => Numeral.integer (v.codes encoding)

/-- Whether a value counts as true; none if there is no value. -/
def truth (encoding : TextEncoding) (v : Value) : Option Bool :=
  match v.asNumber encoding with
  | null => none
  | integer n => some (n ≠ 0)
  | real x => some (x != 0)
  | _ => some false

/-- A truth as a value. -/
def ofBool (b : Bool) : Value := integer (if b then 1 else 0)

/-- A truth that may be unknown as a value. -/
def ofTruth : Option Bool → Value
  | none => null
  | some b => ofBool b

/-- A text that is a number as that number; a float without a fraction as an integer. -/
def numeral (encoding : TextEncoding) (v : Value) : Value :=
  match v with
  | text bytes =>
    let found := Numeral.read (encoding.codesOf bytes)
    if found.whole && found.any then whole found.value else v
  | v => v
where
  /-- A float that is an integer within 64 bits, their ends apart, as that integer. -/
  whole : Value → Value
    | real x =>
      let n := intOfFloat x
      if floatOfInt n == x && -2 ^ 63 < n && n < 2 ^ 63 - 1 then integer n else real x
    | v => v

end Value

end OwnershipLog
