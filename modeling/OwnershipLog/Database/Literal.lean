import OwnershipLog.Database.Schema.Basic
import OwnershipLog.Database.Numeral
import OwnershipLog.Database.Varint

/-!
# Literals and conversions

What a literal is worth in a database of some encoding, what becomes of a value in
a column that prefers values of some kind, and what a cast makes of it. A record
that was written before a column was added has no value for it; `Column.missing`
is what such a record is read to hold.
-/

namespace OwnershipLog

namespace Value

/-- The value of a text whose characters are the bytes of its UTF-8 form. -/
def ofSpelled (encoding : TextEncoding) (text : String) : Value :=
  let bytes := Block.ofBytes (text.toList.map fun c => c.toNat.toUInt8)
  match encoding with
  | .utf8 => .text bytes
  | _ => .text (encoding.ofCodes (TextEncoding.utf8.codesOf bytes))

/-- The value of an unsigned number without a point or an exponent. One in base sixteen wraps round,
one that is too great becomes a float. -/
def ofWhole (digits : String) : Value :=
  match digits.toList with
  | '0' :: 'x' :: rest =>
    let value (c : Char) : Nat :=
      if Token.isDigit c then c.toNat - 48 else (smallLetter c.toNat) - 87
    .integer (signed64 (rest.foldl (fun n c => 16 * n + value c) 0 % 2 ^ 64))
  | cs => (Numeral.read (cs.map Char.toNat)).value

/-- The value of a number with a point or an exponent. -/
def ofDecimal (digits : String) : Value := (Numeral.read (Numeral.codesOf digits)).value

/-- The bytes that pairs of hexadecimal digits spell. -/
def ofHex (digits : String) : Value :=
  let value (c : Char) : Nat :=
    if Token.isDigit c then c.toNat - 48 else (smallLetter c.toNat) - 87
  let rec go : List Char → Bytes
    | a :: b :: rest => (16 * value a + value b).toUInt8 :: go rest
    | _ => []
  .blob (Block.ofBytes (go digits.toList))

/-- A value less another one taken from zero. -/
def negated (encoding : TextEncoding) (v : Value) : Value :=
  match v.asNumber encoding with
  | .integer n => if n = -2 ^ 63 then .real (2 ^ 63) else .integer (-n)
  | .real x => .real (-x)
  | w => w

/-- What becomes of a value where values of some kind are preferred. -/
def preferring (encoding : TextEncoding) (affinity : Affinity) (v : Value) : Value :=
  match affinity, v with
  | .none, v => v
  | .blob, v => v
  | .text, .integer n => (integer n).asText encoding
  | .text, .real x => (real x).asText encoding
  | .text, v => v
  | .real, v => match number v with
    | .integer n => .real (floatOfInt n)
    | w => w
  | _, v => number v
where
  /-- A numeral as a number, a float without a fraction as an integer. -/
  number (v : Value) : Value :=
    match v with
    | .real x => numeral.whole (real x)
    | v => v.numeral encoding

/-- A value as it is stored in a column of floats: integers of up to six bytes stay integers. -/
def compact : Value → Value
  | .real x =>
    match numeral.whole (real x) with
    | .integer n => if n.natAbs ≤ 140737488355327 then .integer n else .real x
    | v => v
  | v => v

/-- What a cast makes of a value. -/
def cast (encoding : TextEncoding) (affinity : Affinity) (v : Value) : Value :=
  if v.isNull then .null
  else match affinity with
    | .blob => v.asBlob encoding
    | .text => v.asText encoding
    | .integer => .integer (v.toInt encoding)
    | .real => .real (v.toFloat encoding)
    | _ => match v with
      | .integer n => .integer n
      | .real x => .real x
      | v => numeral.whole (v.asNumber encoding)

end Value

/-- The value of an expression that is a literal. -/
def Expr.literal? (encoding : TextEncoding) : Expr → Option Value
  | .null => some .null
  | .whole digits => some (.ofWhole digits)
  | .decimal digits => some (.ofDecimal digits)
  | .text written => some (.ofSpelled encoding written)
  | .blob digits => some (.ofHex digits)
  | .column none name false =>
    match Token.lowered name with
    | "true" => some (.integer 1)
    | "false" => some (.integer 0)
    | _ => none
  | _ => none

/-- The value of an unsigned or a negative literal. -/
def Expr.constant? (encoding : TextEncoding) : Expr → Option Value
  | .unary .plus e => Expr.constant? encoding e
  | .unary .minus (.whole digits) => some (Numeral.read (45 :: Numeral.codesOf digits)).value
  | .unary .minus e => (Expr.constant? encoding e).map (·.negated encoding)
  | e => e.literal? encoding

namespace Column

/-- What a record without a value for the column is read to hold. -/
def missing (column : Column) (encoding : TextEncoding) : Value :=
  match column.default.bind (Expr.constant? encoding) with
  | some v => v.preferring encoding column.affinity
  | none => .null

/-- A stored value as the column shows it. -/
def shown (column : Column) (v : Value) : Value :=
  match column.affinity, v with
  | .real, .integer n => .real (Value.floatOfInt n)
  | _, v => v

end Column

end OwnershipLog
