import OwnershipLog.Bytes
import OwnershipLog.Toml.Scan

/-!
# Numbers

Integers are written in base ten with a sign, or in base sixteen, eight or two
after a mark, and must fit a signed word of 64 bits. A float has a fraction or an
exponent, or is infinite or not a number by name; a written number that the doubles
would round to positive infinity is refused. Single underscores may stand between digits.
-/

namespace OwnershipLog.Toml

/-! ## Digits -/

/-- The value of a digit up to base sixteen. -/
def digit? (c : Char) : Option Nat :=
  if '0' ≤ c ∧ c ≤ '9' then some (c.toNat - '0'.toNat)
  else if 'a' ≤ c ∧ c ≤ 'f' then some (c.toNat - 'a'.toNat + 10)
  else if 'A' ≤ c ∧ c ≤ 'F' then some (c.toNat - 'A'.toNat + 10)
  else none

/-- Whether a character is a digit of a base. -/
def isDigit (base : Nat) (c : Char) : Bool := (digit? c).any fun d => decide (d < base)

/-- The number that digits spell in a base. -/
def ofDigits (base : Nat) (digits : List Char) : Nat :=
  digits.foldl (fun n c => base * n + (digit? c).getD 0) 0

/-- Digits of a base, with single underscores between them if need be. -/
def digits (base : Nat) : Scan (List Char) := do
  let first ← Scan.one (isDigit base)
  return first :: (← Scan.many (Scan.attempt (Scan.exactly "_") *> Scan.one (isDigit base)))

/-- Digits of base ten that do not start with a zero, or a zero alone. -/
def plainDigits : Scan (List Char) := (Scan.exactly "0" *> pure ['0']) <|> digits 10

/-- A sign, or none: whether it is a minus. -/
def sign : Scan Bool :=
  (Scan.exactly "-" *> pure true) <|> (Scan.exactly "+" *> pure false) <|> pure false

/-! ## Integers -/

/-- The signed number of 64 bits that digits spell in a base, if it is one. Those after the
leading zeros cannot be more than 64. -/
def word? (base : Nat) (negative : Bool) (digits : List Char) : Option Int :=
  let significant := digits.dropWhile (· == '0')
  let magnitude : Int := ofDigits base (significant.take 65)
  let n := if negative then -magnitude else magnitude
  if significant.length ≤ 64 ∧ -2 ^ 63 ≤ n ∧ n < 2 ^ 63 then some n else none

/-- An integer of base ten: its base, its sign and its digits. -/
def decimal : Scan (Nat × Bool × List Char) := do
  let negative ← sign
  return (10, negative, ← plainDigits)

/-- An integer of another base after its mark: its base, no sign and its digits. -/
def marked (mark : String) (base : Nat) : Scan (Nat × Bool × List Char) := do
  Scan.exactly mark
  return (base, false, ← digits base)

/-- An integer of 64 bits. -/
def integer : Scan Int := do
  let (base, negative, digits) ← marked "0x" 16 <|> marked "0o" 8 <|> marked "0b" 2 <|> decimal
  match word? base negative digits with
  | some n => return n
  | none => failure

/-! ## Floats -/

/-- A float as it is written. -/
inductive Scientific where
  /-- The number that `digits` spell, times `10 ^ exponent`, or its negative. -/
  | finite (negative : Bool) (digits : List Char) (exponent : Int)
  | infinite (negative : Bool)
  | notANumber
deriving DecidableEq, Repr

/-- The least number that is nearer to infinity than to the largest double. It has `309` digits. -/
def overflowBound : Nat := 2 ^ 1024 - 2 ^ 970

/-- Whether the number of some digits, times `10 ^ exponent`, reaches the bound. How many digits
stand before the point decides unless they are as many as the bound has; then those digits do. -/
def reachesBound (digits : List Char) (exponent : Int) : Bool :=
  let significant := digits.dropWhile (· == '0')
  let places := (significant.length : Int) + exponent
  if significant.isEmpty ∨ places < 309 then false
  else if 309 < places then true
  else decide (overflowBound ≤ ofDigits 10 ((significant.take 309).rightpad 309 '0'))

/-- A fraction: its digits. -/
def fraction : Scan (List Char) := Scan.exactly "." *> digits 10

/-- The number that the digits of an exponent spell. Digits after those that spell `65536` or more
do not count. -/
def exponentOf (digits : List Char) : Nat :=
  digits.foldl (fun n c => if n < 65536 then 10 * n + (digit? c).getD 0 else n) 0

/-- An exponent. -/
def exponent : Scan Int := do
  let _ ← Scan.one fun c => c == 'e' || c == 'E'
  let negative ← sign
  let magnitude := exponentOf (← digits 10)
  return if negative then -magnitude else magnitude

/-- What follows the whole part of a float: the digits of its fraction, and its exponent. -/
def floatTail : Scan (List Char × Int) :=
  (do return ([], ← exponent)) <|> (do return (← fraction, (← Scan.attempt exponent).getD 0))

/-- A float that is written with digits. -/
def writtenFloat : Scan Scientific := do
  let negative ← sign
  let whole ← plainDigits
  let (places, scale) ← floatTail
  let scale := scale - places.length
  guard (negative ∨ ¬ reachesBound (whole ++ places) scale)
  return .finite negative (whole ++ places) scale

/-- A float that is written by name. -/
def namedFloat : Scan Scientific := do
  let negative ← sign
  (Scan.exactly "inf" *> pure (.infinite negative)) <|> (Scan.exactly "nan" *> pure .notANumber)

/-- A float. -/
def float : Scan Scientific := writtenFloat <|> namedFloat

end OwnershipLog.Toml
