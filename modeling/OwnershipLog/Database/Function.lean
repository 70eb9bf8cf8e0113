import OwnershipLog.Database.Numeral

/-!
# Functions

The functions that expressions can call. `Function.arity?` says which there are and
with how many arguments; `Function.apply` computes one. A function of a group of
rows, such as a sum, is computed by `Function.aggregate`.
-/

namespace OwnershipLog

namespace Function

/-- The functions of one row, each with the fewest and the most arguments. -/
def scalars : List (String × Nat × Nat) :=
  [("abs", 1, 1), ("changes", 0, 0), ("char", 0, 100), ("coalesce", 2, 100), ("concat", 1, 100),
    ("concat_ws", 2, 100), ("date", 0, 100), ("datetime", 0, 100), ("format", 0, 100),
    ("glob", 2, 2), ("hex", 1, 1), ("ifnull", 2, 2), ("iif", 3, 3), ("instr", 2, 2),
    ("json", 1, 1), ("json_array", 0, 100), ("json_extract", 1, 100), ("json_object", 0, 100),
    ("json_quote", 1, 1), ("json_type", 1, 2), ("json_valid", 1, 2), ("julianday", 0, 100),
    ("last_insert_rowid", 0, 0), ("length", 1, 1), ("like", 2, 3), ("likelihood", 2, 2),
    ("likely", 1, 1), ("lower", 1, 1), ("ltrim", 1, 2), ("nullif", 2, 2),
    ("octet_length", 1, 1), ("printf", 0, 100), ("quote", 1, 1), ("random", 0, 0),
    ("randomblob", 1, 1), ("replace", 3, 3), ("round", 1, 2), ("rtrim", 1, 2), ("sign", 1, 1),
    ("soundex", 1, 1), ("sqlite_version", 0, 0), ("strftime", 1, 100), ("substr", 2, 3),
    ("substring", 2, 3), ("time", 0, 100), ("total_changes", 0, 0), ("trim", 1, 2),
    ("typeof", 1, 1), ("unhex", 1, 2), ("unicode", 1, 1), ("unixepoch", 0, 100),
    ("unlikely", 1, 1), ("upper", 1, 1), ("zeroblob", 1, 1), ("max", 2, 100), ("min", 2, 100)]

/-- The functions of a group of rows. -/
def aggregates : List (String × Nat × Nat) :=
  [("avg", 1, 1), ("count", 0, 1), ("group_concat", 1, 2), ("max", 1, 1), ("min", 1, 1),
    ("string_agg", 2, 2), ("sum", 1, 1), ("total", 1, 1), ("json_group_array", 1, 1),
    ("json_group_object", 2, 2)]

/-- The functions whose value may differ from call to call. -/
def changing : List String :=
  ["changes", "last_insert_rowid", "random", "randomblob", "total_changes"]

/-- Whether a list of functions has one of a name for so many arguments. -/
def allows (functions : List (String × Nat × Nat)) (name : String) (count : Nat) : Bool :=
  functions.any fun (found, low, high) => found = name && low ≤ count && count ≤ high

/-- Whether a name is that of a function at all. -/
def isKnown (name : String) : Bool := (scalars ++ aggregates).any (·.1 = name)

/-- Whether a call is one of a function of a group of rows. -/
def isAggregate (name : String) (count : Nat) : Bool :=
  allows aggregates name count && !allows scalars name count

/-- Whether a text has the form of a pattern. `any` stands for any characters, `one` for one. -/
def matchesPattern (any one : Nat) (escape : Option Nat) (same : Nat → Nat → Bool) :
    (fuel : Nat) → (pattern text : List Nat) → Bool
  | 0, _, _ => false
  | _, [], text => text.isEmpty
  | fuel + 1, p :: ps, text =>
    if escape = some p then
      match ps, text with
      | q :: ps, c :: text => same q c && matchesPattern any one escape same fuel ps text
      | _, _ => false
    else if p = any then
      matchesPattern any one escape same fuel ps text ||
        match text with
        | _ :: text => matchesPattern any one escape same fuel (p :: ps) text
        | [] => false
    else
      match text with
      | c :: text => (p = one || same p c) && matchesPattern any one escape same fuel ps text
      | [] => false

/-- The characters that a set between brackets names, whether it names the others, and what
follows it. -/
def bracketed (pattern : List Nat) : Option ((Nat → Bool) × List Nat) :=
  let (negated, pattern) := match pattern with
    | 94 :: rest => (true, rest)
    | _ => (false, pattern)
  let rec go : (fuel : Nat) → (first : Bool) → List Nat → (Nat → Bool) →
      Option ((Nat → Bool) × List Nat)
    | 0, _, _, _ => none
    | _, _, [], _ => none
    | fuel + 1, first, c :: rest, found =>
      if c = 93 && !first then some (fun x => found x != negated, rest)
      else match rest with
        | 45 :: high :: tail =>
          if high = 93 then go fuel false rest (fun x => found x || x = c)
          else go fuel false tail (fun x => found x || (c ≤ x && x ≤ high))
        | _ => go fuel false rest (fun x => found x || x = c)
  go (pattern.length + 1) true pattern (fun _ => false)

/-- Whether a text has the form of a pattern with stars, question marks and sets. -/
def matchesGlob : (fuel : Nat) → (pattern text : List Nat) → Bool
  | 0, _, _ => false
  | _, [], text => text.isEmpty
  | fuel + 1, p :: ps, text =>
    if p = 42 then
      matchesGlob fuel ps text ||
        match text with
        | _ :: text => matchesGlob fuel (p :: ps) text
        | [] => false
    else match text with
      | [] => false
      | c :: text =>
        if p = 63 then matchesGlob fuel ps text
        else if p = 91 then
          match bracketed ps with
          | some (includes, ps) => includes c && matchesGlob fuel ps text
          | none => false
        else p = c && matchesGlob fuel ps text

/-- Every place where `part` stands in a text is given to `other`. -/
def replaced (part other : List Nat) : (fuel : Nat) → List Nat → List Nat
  | 0, text => text
  | _, [] => []
  | fuel + 1, c :: rest =>
    if part.isPrefixOf (c :: rest) then
      other ++ replaced part other fuel ((c :: rest).drop part.length)
    else c :: replaced part other fuel rest

/-- Where a part of a list begins, counted from one, or zero. -/
def place (part : List Nat) : (text : List Nat) → (i : Nat) → Nat
  | [], i => if part.isEmpty then i else 0
  | c :: rest, i => if part.isPrefixOf (c :: rest) then i else place part rest (i + 1)

/-- The part of a list from place `start` on, counted from one or from the end, of a length that may
reach back. -/
def part {α : Type} (text : List α) (start : Int) (length : Option Int) : List α :=
  let size : Int := (text.length : Nat)
  let length := length.getD size
  let (start, length) : Int × Int :=
    if start < 0 then
      let start := start + size
      if start < 0 then (0, if 0 < length then max 0 (length + start) else length)
      else (start, length)
    else if 0 < start then (start - 1, length)
    else (0, if 0 < length then length - 1 else length)
  let (start, length) : Int × Int :=
    if length < 0 then
      if start + length < 0 then (0, start) else (start + length, -length)
    else (start, length)
  (text.drop start.toNat).take length.toNat

/-- The hexadecimal digits of bytes. -/
def hexOf (bytes : Bytes) : String :=
  String.ofList (bytes.flatMap fun b =>
    [Nat.digitChar (b.toNat / 16), Nat.digitChar (b.toNat % 16)].map Char.toUpper)

/-- The value of a hexadecimal digit. -/
def hexValue? (code : Nat) : Option Nat :=
  if 48 ≤ code && code ≤ 57 then some (code - 48)
  else if 65 ≤ code && code ≤ 70 then some (code - 55)
  else if 97 ≤ code && code ≤ 102 then some (code - 87)
  else none

/-- A number rounded to a count of places, halves away from zero. -/
def rounded (x : Float) (places : Nat) : Float :=
  let (m, e) := Float.parts x
  let (top, bottom) : Nat × Nat :=
    if 0 ≤ e then (m.natAbs * 2 ^ e.toNat, 1) else (m.natAbs, 2 ^ (-e).toNat)
  let n := (2 * top * 10 ^ places + bottom) / (2 * bottom)
  let y := Numeral.scaled n (-(places : Int))
  if m < 0 then -y else y

/-- The greatest or the least of some values. -/
def extreme (encoding : TextEncoding) (collation : Collation) (wanted : Ordering) :
    Value → List Value → Value
  | v, [] => v
  | v, w :: rest =>
    extreme encoding collation wanted (if w.compare collation encoding v = wanted then w else v)
      rest

/-- The length of a value, in characters for a text. -/
def lengthOf (encoding : TextEncoding) : Value → Value
  | .null => .null
  | .blob bytes => .integer bytes.size
  | .text bytes => .integer (((encoding.codesOf bytes).takeWhile (· ≠ 0)).length : Nat)
  | v => .integer ((v.codes encoding).length : Nat)

/-- The kind of a value. -/
def typeOf : Value → String
  | .null => "null"
  | .integer _ => "integer"
  | .real _ => "real"
  | .text _ => "text"
  | .blob _ => "blob"

/-- A text without the characters of a set at its beginning or its end. -/
def trimmed (front back : Bool) (set text : List Nat) : List Nat :=
  let text := if front then text.dropWhile set.contains else text
  if back then (text.reverse.dropWhile set.contains).reverse else text

/-- A letter from A to Z as a capital. -/
def capital (code : Nat) : Nat := if 97 ≤ code && code ≤ 122 then code - 32 else code

/-- The bytes that pairs of hexadecimal digits spell, with other characters allowed between them. -/
def unhexed? (allowed : List Nat) : List Nat → Option Bytes
  | [] => some []
  | a :: rest =>
    if allowed.contains a && (hexValue? a).isNone then unhexed? allowed rest
    else match rest with
      | b :: rest => do
        let high ← hexValue? a
        let low ← hexValue? b
        return (16 * high + low).toUInt8 :: (← unhexed? allowed rest)
      | [] => none

/-- The part of a value: of a byte string, or of what comes before the first zero of a text. -/
def partOf (encoding : TextEncoding) (v start : Value) (rest : List Value) : Value :=
  let length := rest.head?.map (Value.toInt encoding)
  match v with
  | .blob bytes => .blob (Block.ofBytes (part bytes.toBytes (start.toInt encoding) length))
  | v => .text (encoding.ofCodes
      (part ((v.codes encoding).takeWhile (· ≠ 0)) (start.toInt encoding) length))

/-- The sound of a word: its first letter, then digits for the consonants after it. -/
def soundOf (codes : List Nat) : List Nat :=
  let sound (code : Nat) : Nat :=
    ([0, 1, 2, 3, 0, 1, 2, 0, 0, 2, 2, 4, 5, 5, 0, 1, 2, 6, 2, 3, 0, 1, 0, 2, 0, 2] : List Nat).getD
      (smallLetter (code % 128) - 97) 0
  let isLetter (code : Nat) : Bool := 97 ≤ smallLetter code && smallLetter code ≤ 122
  match (codes.takeWhile (· ≠ 0)).dropWhile (!isLetter ·) with
  | [] => [63, 48, 48, 48]
  | first :: rest =>
    let heard := if isLetter first then sound first else 0
    let (digits, _) := rest.foldl (fun (found, previous) code =>
      let digit := if isLetter (code % 128) then sound code else 0
      if digit ≠ 0 && digit ≠ previous then (found ++ [48 + digit], digit)
      else (found, digit)) (([] : List Nat), heard)
    capital first :: (digits ++ [48, 48, 48]).take 3

/-- A function of one row; none if it is not computed here. `collation` is how its arguments are
compared. -/
def apply (encoding : TextEncoding) (collation : Collation) (name : String)
    (arguments : List Value) : Option Value :=
  let codes (v : Value) : List Nat := v.codes encoding
  /- The characters before the first zero. -/
  let word (v : Value) : List Nat := (codes v).takeWhile (· ≠ 0)
  let text (codes : List Nat) : Value := .text (encoding.ofCodes codes)
  let string (s : String) : Value := .ofString encoding s
  let anyNull := arguments.any Value.isNull
  match name, arguments with
  | "abs", [v] => match v with
    | .null => some .null
    | .integer n => if n = -2 ^ 63 then none else some (.integer n.natAbs)
    | v => some (.real (v.toFloat encoding).abs)
  | "char", vs => some (text (vs.map fun v =>
      let n := v.toInt encoding
      if n < 0 || 0x10ffff < n then 0xfffd else n.toNat))
  | "coalesce", vs => some ((vs.find? (!·.isNull)).getD .null)
  | "ifnull", vs => some ((vs.find? (!·.isNull)).getD .null)
  | "concat", vs => some (text (vs.flatMap codes))
  | "concat_ws", v :: vs =>
    if v.isNull then some .null
    else some (text ((codes v).intercalate ((vs.filter (!·.isNull)).map codes)))
  | "glob", [p, v] =>
    if anyNull then some .null
    else some (.ofBool (matchesGlob (4 * (codes p).length + 4 * (codes v).length + 8)
      (word p) (word v)))
  | "hex", [v] => match v.asBlob encoding with
    | .blob bytes => some (string (hexOf bytes.toBytes))
    | _ => some (string "")
  | "iif", [c, a, b] => some (if c.truth encoding = some true then a else b)
  | "instr", [v, w] =>
    if anyNull then some .null
    else match v, w with
      | .blob a, .blob b =>
        some (.integer (place (b.toBytes.map (·.toNat)) (a.toBytes.map (·.toNat)) 1))
      | _, _ => some (.integer (place (codes w) (codes v) 1))
  | "length", [v] => some (lengthOf encoding v)
  | "octet_length", [v] => match v.asBlob encoding with
    | .blob bytes => some (.integer bytes.size)
    | w => some w
  | "like", p :: v :: rest =>
    if anyNull then some .null
    else if rest.any fun w => (word w).length ≠ 1 then none
    else
      let escape := rest.head?.bind fun w => (word w).head?
      some (.ofBool (matchesPattern 37 95 escape (fun a b => smallLetter a = smallLetter b)
        (4 * (codes p).length + 4 * (codes v).length + 8) (word p) (word v)))
  | "likelihood", [v, _] => some v
  | "likely", [v] => some v
  | "unlikely", [v] => some v
  | "lower", [v] => some (if anyNull then .null else text ((codes v).map smallLetter))
  | "upper", [v] => some (if anyNull then .null else text ((codes v).map capital))
  | "ltrim", v :: rest => some (if anyNull then .null
      else text (trimmed true false ((rest.head?.map codes).getD [32]) (codes v)))
  | "rtrim", v :: rest => some (if anyNull then .null
      else text (trimmed false true ((rest.head?.map codes).getD [32]) (codes v)))
  | "trim", v :: rest => some (if anyNull then .null
      else text (trimmed true true ((rest.head?.map codes).getD [32]) (codes v)))
  | "nullif", [v, w] => some (if v.compare collation encoding w = .eq then .null else v)
  | "max", v :: vs => some (if anyNull then .null else extreme encoding collation .gt v vs)
  | "min", v :: vs => some (if anyNull then .null else extreme encoding collation .lt v vs)
  | "quote", [v] => match v with
    | .null => some (string "NULL")
    | .blob bytes => some (string ("X'" ++ hexOf bytes.toBytes ++ "'"))
    | .text _ => some (text (39 :: (word v).flatMap (fun c => if c = 39 then [39, 39] else [c])
        ++ [39]))
    | v => some (text (codes v))
  | "random", [] => some (.integer 4611686018427387904)
  | "randomblob", [v] => some (.blob (Block.zeros (max 1 (v.toInt encoding)).toNat))
  | "zeroblob", [v] => some (.blob (Block.zeros (v.toInt encoding).toNat))
  | "replace", [v, a, b] =>
    if anyNull then some .null
    else if (word a).isEmpty then some (v.asText encoding)
    else some (text (replaced (codes a) (codes b) ((codes v).length + 1) (codes v)))
  | "round", v :: rest =>
    if anyNull then some .null
    else
      let places := (rest.head?.map (Value.toInt encoding)).getD 0
      some (.real (rounded (v.toFloat encoding) (min 30 places.toNat)))
  | "sign", [v] => match v.numeral encoding with
    | .integer n => some (.integer (if n < 0 then -1 else if n = 0 then 0 else 1))
    | .real x => some (.integer (if x < 0 then -1 else if x > 0 then 1 else 0))
    | _ => some .null
  | "soundex", [v] => some (text (soundOf (codes v)))
  | "substr", v :: start :: rest =>
    some (if anyNull then .null else partOf encoding v start rest)
  | "substring", v :: start :: rest =>
    some (if anyNull then .null else partOf encoding v start rest)
  | "typeof", [v] => some (string (typeOf v))
  | "unhex", v :: rest =>
    if anyNull then some .null
    else some (((unhexed? ((rest.head?.map codes).getD []) (codes v)).map fun bytes =>
      Value.blob (Block.ofBytes bytes)).getD .null)
  | "unicode", [v] => some (((word v).head?.map fun c => Value.integer (c : Nat)).getD .null)
  | "sqlite_version", [] => some (string "3.46.0")
  | "changes", [] => some (.integer 0)
  | "total_changes", [] => some (.integer 0)
  | "last_insert_rowid", [] => some (.integer 0)
  | _, _ => none

/-- The sum of values: an integer as long as all are. -/
def sum (encoding : TextEncoding) (values : List Value) : Value :=
  let numbers := values.map (Value.numeral encoding)
  if numbers.all fun | .integer _ => true | _ => false then
    .integer (numbers.foldl (fun n v => n + v.toInt encoding) 0)
  else .real (values.foldl (fun x v => x + v.toFloat encoding) 0)

/-- A function of a group of rows; each row gives the values of its arguments. -/
def aggregate (encoding : TextEncoding) (name : String) (distinct : Bool)
    (rows : List (List Value)) : Option Value :=
  let firsts := (rows.map fun row => row.headD (.integer 1)).filter (!·.isNull)
  let firsts :=
    if distinct then
      (firsts.foldl (fun found v =>
        if found.any (fun w => v.compare .binary encoding w = .eq) then found else v :: found)
        []).reverse
    else firsts
  match name with
  | "count" => some (.integer (firsts.length : Nat))
  | "sum" => some (if firsts.isEmpty then .null else sum encoding firsts)
  | "total" => some (.real (firsts.foldl (fun x v => x + v.toFloat encoding) 0))
  | "avg" =>
    some (if firsts.isEmpty then .null
      else .real (firsts.foldl (fun x v => x + v.toFloat encoding) 0 / firsts.length.toFloat))
  | "max" => some (match firsts with
    | [] => .null
    | v :: vs => extreme encoding .binary .gt v vs)
  | "min" => some (match firsts with
    | [] => .null
    | v :: vs => extreme encoding .binary .lt v vs)
  | "group_concat" => some (joined firsts)
  | "string_agg" => some (joined firsts)
  | _ => none
where
  /-- Texts with a separator between them. -/
  joined (values : List Value) : Value :=
    let separator := match rows.head?.bind (·[1]?) with
      | some v => v.codes encoding
      | none => [44]
    if values.isEmpty then .null
    else .text (encoding.ofCodes (separator.intercalate (values.map (Value.codes encoding))))

end Function

end OwnershipLog
