import OwnershipLog.Database.Value

/-!
# Tokens of a declaration

A database says in words what it holds. The words are bytes; here each byte is the
character of its number, so that a name can have any bytes. `tokens` cuts a text
into words, quoted names, literals and marks, and leaves out blanks and comments.
-/

namespace OwnershipLog

/-- A word, a literal or a mark. -/
inductive Token where
  /-- A bare word, in small letters, and as it was written. -/
  | word (small written : String)
  /-- A name in quotes, brackets or accents. -/
  | quoted (name : String)
  /-- A text in single quotes. -/
  | text (value : String)
  /-- A byte string in hexadecimal digits. -/
  | blob (digits : String)
  /-- A number without a point or an exponent. -/
  | whole (digits : String)
  /-- A number with a point or an exponent. -/
  | decimal (digits : String)
  /-- The place of a value that is given later. -/
  | parameter
  | mark (text : String)
  /-- What is no token. -/
  | illegal
deriving DecidableEq, Repr, Inhabited

namespace Token

/-- A letter from A to Z as a small one. -/
def lowered (s : String) : String := String.ofList (s.toList.map fun c =>
  Char.ofNat (smallLetter c.toNat))

/-- Whether a character is blank. -/
def isBlank (c : Char) : Bool := c = ' ' || c = '\t' || c = '\n' || c.toNat = 12 || c = '\r'

/-- Whether a character is a digit. -/
def isDigit (c : Char) : Bool := '0' ≤ c && c ≤ '9'

/-- Whether a character is a hexadecimal digit. -/
def isHex (c : Char) : Bool := isDigit c || ('a' ≤ c && c ≤ 'f') || ('A' ≤ c && c ≤ 'F')

/-- Whether a character may begin a word. -/
def startsWord (c : Char) : Bool :=
  ('a' ≤ c && c ≤ 'z') || ('A' ≤ c && c ≤ 'Z') || c = '_' || 128 ≤ c.toNat

/-- Whether a character may stand in a word. -/
def isWord (c : Char) : Bool := startsWord c || isDigit c || c = '$'

/-- What stands between quotes of a kind, doubled ones counting as one, and the rest; none if the
closing quote is missing. -/
def unquoted (quote : Char) : List Char → (found : List Char) → Option (List Char × List Char)
  | [], _ => none
  | c :: d :: rest, found =>
    if c = quote then
      if d = quote then unquoted quote rest (c :: found) else some (found.reverse, d :: rest)
    else unquoted quote (d :: rest) (c :: found)
  | [c], found => if c = quote then some (found.reverse, []) else none

/-- What follows the end of a comment between slashes and stars. -/
def afterComment : List Char → List Char
  | '*' :: '/' :: rest => rest
  | _ :: rest => afterComment rest
  | [] => []

/-- Digits, with single underscores between them, and the rest. -/
def digits (isDigit : Char → Bool) : (fuel : Nat) → List Char → List Char × List Char
  | 0, cs => ([], cs)
  | fuel + 1, cs =>
    let found := cs.takeWhile isDigit
    match cs.dropWhile isDigit with
    | '_' :: c :: rest =>
      if !found.isEmpty && isDigit c then
        let (more, rest) := digits isDigit fuel (c :: rest)
        (found ++ more, rest)
      else (found, '_' :: c :: rest)
    | rest => (found, rest)

/-- The number at the front of some characters, and the rest. A word must not follow at once. -/
def number (cs : List Char) : Token × List Char :=
  let count := cs.length
  let close (token : Token) (rest : List Char) : Token × List Char :=
    if (rest.head?.any isWord) then (illegal, rest.dropWhile isWord) else (token, rest)
  let exponent (rest : List Char) : Option (List Char × List Char) :=
    match rest with
    | 'e' :: tail => power tail
    | 'E' :: tail => power tail
    | _ => none
  match cs with
  | '0' :: x :: h :: rest =>
    if (x = 'x' || x = 'X') && isHex h then
      let (found, rest) := digits isHex count (h :: rest)
      close (whole (String.ofList ('0' :: 'x' :: found))) rest
    else decimals count cs exponent close
  | _ => decimals count cs exponent close
where
  /-- The digits of an exponent after its letter. -/
  power (cs : List Char) : Option (List Char × List Char) :=
    let (sign, cs) : List Char × List Char :=
      match cs with
      | '+' :: rest => ([], rest)
      | '-' :: rest => (['-'], rest)
      | _ => ([], cs)
    let (found, rest) := digits isDigit cs.length cs
    if found.isEmpty then none else some ('e' :: sign ++ found, rest)
  /-- A number of base ten. -/
  decimals (count : Nat) (cs : List Char)
      (exponent : List Char → Option (List Char × List Char))
      (close : Token → List Char → Token × List Char) : Token × List Char :=
    let (whole', rest) := digits isDigit count cs
    let (fraction, rest, pointed) : List Char × List Char × Bool :=
      match rest with
      | '.' :: tail =>
        let (found, rest) := digits isDigit count tail
        (found, rest, true)
      | _ => ([], rest, false)
    match exponent rest with
    | some (power, rest) =>
      close (decimal (String.ofList (whole' ++ '.' :: fraction ++ power))) rest
    | none =>
      if pointed then close (decimal (String.ofList (whole' ++ '.' :: fraction))) rest
      else close (whole (String.ofList whole')) rest

/-- The token at the front of some characters that begin with `c`, if any, and the rest. -/
def next (c : Char) (rest : List Char) : Option Token × List Char :=
  let one (text : String) := (some (mark text), rest)
  let two (text : String) := (some (mark text), rest.drop 1)
  let after := rest.head?.getD ' '
  let inQuotes (build : String → Token) :=
    match unquoted c rest [] with
    | some (found, rest) => (some (build (String.ofList found)), rest)
    | none => (some illegal, [])
  if isBlank c then (none, rest)
  else if c = '-' then
    if after = '-' then (none, rest.dropWhile (· ≠ '\n'))
    else if after = '>' then
      if (rest.drop 1).head? = some '>' then (some (mark "->>"), rest.drop 2) else two "->"
    else one "-"
  else if c = '/' then
    if after = '*' && !(rest.drop 1).isEmpty then (none, afterComment (rest.drop 1)) else one "/"
  else if c = '=' then if after = '=' then two "=" else one "="
  else if c = '<' then
    if after = '=' then two "<=" else if after = '>' then two "<>"
    else if after = '<' then two "<<" else one "<"
  else if c = '>' then if after = '=' then two ">=" else if after = '>' then two ">>" else one ">"
  else if c = '!' then if after = '=' then two "<>" else (some illegal, rest)
  else if c = '|' then if after = '|' then two "||" else one "|"
  else if c = '\'' then inQuotes text
  else if c = '"' || c.toNat = 96 then inQuotes quoted
  else if c = '[' then
    match rest.dropWhile (· ≠ ']') with
    | _ :: tail => (some (quoted (String.ofList (rest.takeWhile (· ≠ ']')))), tail)
    | [] => (some illegal, [])
  else if c = '.' && !isDigit after then one "."
  else if isDigit c || c = '.' then
    let (token, rest) := number (c :: rest)
    (some token, rest)
  else if c = '?' then (some parameter, rest.dropWhile isDigit)
  else if c = '$' || c = '@' || c = '#' || c = ':' then
    if rest.head?.any isWord then (some parameter, rest.dropWhile isWord) else (some illegal, rest)
  else if (c = 'x' || c = 'X') && after = '\'' then
    let found := (rest.drop 1).takeWhile isHex
    match (rest.drop 1).dropWhile isHex with
    | '\'' :: tail =>
      (some (if found.length % 2 = 0 then blob (String.ofList found) else illegal), tail)
    | _ => (some illegal, [])
  else if startsWord c then
    let found := String.ofList (c :: rest.takeWhile isWord)
    (some (word (lowered found) found), rest.dropWhile isWord)
  else if "();+*%,&~".contains c then one (String.singleton c)
  else (some illegal, rest)

/-- The tokens of a text after those in `found`, which are newest first. -/
def scan : (fuel : Nat) → List Char → (found : List Token) → List Token
  | 0, _, found => found.reverse
  | _, [], found => found.reverse
  | fuel + 1, c :: rest, found =>
    match next c rest with
    | (none, rest) => scan fuel rest found
    | (some token, rest) => scan fuel rest (token :: found)

/-- The tokens of a text. -/
def tokens (text : String) : List Token :=
  let cs := text.toList
  let cs := if cs.take 3 = [Char.ofNat 239, Char.ofNat 187, Char.ofNat 191] then cs.drop 3 else cs
  scan cs.length cs []

end Token

end OwnershipLog
