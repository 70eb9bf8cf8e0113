import OwnershipLog.Database.Literal
import OwnershipLog.Database.Sql.Expr

/-!
# Operators

What the operators of expressions compute. An operand that is no value makes the
result no value, except where the operator asks about just that. Integers have 64
bits; a result that needs more is computed with floats.
-/

namespace OwnershipLog

namespace Value

/-- Whether an integer has 64 bits. -/
def fits (n : Int) : Bool := -2 ^ 63 ≤ n && n < 2 ^ 63

/-- A float as a value; what is no number is no value. -/
def ofFloat (x : Float) : Value := if x.isNaN then .null else .real x

/-- What an operator of numbers computes, from integers if both are and it can be, else from
floats. -/
def combined (encoding : TextEncoding) (exact : Int → Int → Option Int)
    (near : Float → Float → Float) (a b : Value) : Value :=
  match a.asNumber encoding, b.asNumber encoding with
  | .null, _ => .null
  | _, .null => .null
  | .integer m, .integer n =>
    match exact m n with
    | some k => .integer k
    | none => ofFloat (near (floatOfInt m) (floatOfInt n))
  | v, w => ofFloat (near (v.toFloat encoding) (w.toFloat encoding))

/-- A quotient cut down to an integer; none by zero. -/
def quotient (encoding : TextEncoding) (a b : Value) : Value :=
  match a.asNumber encoding, b.asNumber encoding with
  | .integer m, .integer n =>
    if n = 0 then .null
    else if fits (Int.tdiv m n) then .integer (Int.tdiv m n)
    else ofFloat (floatOfInt m / floatOfInt n)
  | v, w =>
    if v.isNull || w.isNull || w.toFloat encoding == 0 then .null
    else ofFloat (v.toFloat encoding / w.toFloat encoding)

/-- A remainder of two values taken as integers; none by zero. -/
def remainder (encoding : TextEncoding) (a b : Value) : Value :=
  let v := a.asNumber encoding
  let w := b.asNumber encoding
  if v.isNull || w.isNull then .null
  else
    let n := b.toInt encoding
    if n = 0 then .null
    else
      let rest := Int.tmod (a.toInt encoding) n
      match v, w with
      | .integer _, .integer _ => .integer rest
      | _, _ => ofFloat (floatOfInt rest)

/-- An operator on the bits of two values taken as integers. -/
def ofBits (encoding : TextEncoding) (op : Nat → Nat → Nat) (a b : Value) : Value :=
  if a.isNull || b.isNull then .null
  else .integer (signed64 (op (unsigned64 (a.toInt encoding)) (unsigned64 (b.toInt encoding))))

/-- A value taken as an integer whose bits are moved to the left, or to the right where `by'` is
negative; the sign stays. -/
def shifted (encoding : TextEncoding) (a : Value) (by' : Int) : Value :=
  let n := a.toInt encoding
  if 0 ≤ by' then
    .integer (if 64 ≤ by' then 0 else signed64 (unsigned64 n * 2 ^ by'.toNat % 2 ^ 64))
  else
    .integer (if by' ≤ -64 then (if n < 0 then -1 else 0) else n / 2 ^ (-by').toNat)

/-- Two texts one after the other. -/
def joined (encoding : TextEncoding) (a b : Value) : Value :=
  match a.asText encoding, b.asText encoding with
  | .text x, .text y => .text (x ++ y)
  | _, _ => .null

/-- What an operator with one operand computes. -/
def unary (encoding : TextEncoding) (op : UnaryOp) (v : Value) : Value :=
  match op with
  | .minus => v.negated encoding
  | .plus => v
  | .not => ofTruth ((v.truth encoding).map (!·))
  | .bitNot => if v.isNull then .null else .integer (-(v.toInt encoding) - 1)
  | .isNull => ofBool v.isNull
  | .notNull => ofBool !v.isNull

/-- What an operator of two operands computes, if it does not compare them; none if it is not
computed here. -/
def binary (encoding : TextEncoding) (op : BinaryOp) (a b : Value) : Option Value :=
  let within (n : Int) : Option Int := if fits n then some n else none
  match op with
  | .add => some (combined encoding (fun m n => within (m + n)) (· + ·) a b)
  | .subtract => some (combined encoding (fun m n => within (m - n)) (· - ·) a b)
  | .multiply => some (combined encoding (fun m n => within (m * n)) (· * ·) a b)
  | .divide => some (quotient encoding a b)
  | .remainder => some (remainder encoding a b)
  | .bitAnd => some (ofBits encoding (· &&& ·) a b)
  | .bitOr => some (ofBits encoding (· ||| ·) a b)
  | .shiftLeft =>
    some (if a.isNull || b.isNull then .null else shifted encoding a (b.toInt encoding))
  | .shiftRight =>
    some (if a.isNull || b.isNull then .null else shifted encoding a (-(b.toInt encoding)))
  | .concat => some (joined encoding a b)
  | _ => none

/-- What an order of two values means for an operator that compares them. -/
def holds (op : BinaryOp) (order : Ordering) : Bool :=
  match op with
  | .ne => order ≠ .eq
  | .isNot => order ≠ .eq
  | .lt => order = .lt
  | .le => order ≠ .gt
  | .gt => order = .gt
  | .ge => order ≠ .lt
  | _ => order = .eq

/-- Two values made comparable. -/
def comparable (encoding : TextEncoding) (affinity : Affinity) (a b : Value) : Value × Value :=
  let isText : Value → Bool
    | .text _ => true
    | _ => false
  if affinity.isNumeric then (a.numeral encoding, b.numeral encoding)
  else if affinity = .text && (isText a || isText b) then
    (a.preferring encoding .text, b.preferring encoding .text)
  else (a, b)

/-- The conjunction of two truths that may be unknown. -/
def both : Option Bool → Option Bool → Option Bool
  | some false, _ => some false
  | _, some false => some false
  | some true, some true => some true
  | _, _ => none

/-- The disjunction of two truths that may be unknown. -/
def either (a b : Option Bool) : Option Bool := (both (a.map (!·)) (b.map (!·))).map (!·)

end Value

end OwnershipLog
