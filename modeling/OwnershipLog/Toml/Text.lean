import OwnershipLog.Toml.Number

/-!
# Strings, keys and blanks

A string is basic, in double quotes and with escapes, or literal, in single
quotes and without; each kind may also span lines between triple quotes. A key is
one or more parts with dots between them, each bare or a string of one line.
-/

namespace OwnershipLog.Toml

/-! ## Blanks, newlines and comments -/

/-- A space or a tab. -/
def isBlank (c : Char) : Bool := c == ' ' || c == '\t'

/-- A character that may stand in a line: no control character but the tab. -/
def isPlain (c : Char) : Bool := c == '\t' || (decide (' ' ≤ c) && c != '\x7f')

/-- Blanks, or nothing. -/
def blanks : Scan Unit := Scan.run isBlank *> pure ()

/-- The end of a line: a line feed, perhaps after a carriage return. -/
def newline : Scan Unit := Scan.exactly "\n" <|> Scan.exactly "\r\n"

/-- A comment, up to the end of its line. -/
def comment : Scan Unit := Scan.exactly "#" *> Scan.run isPlain *> pure ()

/-- Blanks, comments and newlines, or nothing. -/
def gap : Scan Unit :=
  Scan.many (Scan.run1 isBlank *> pure () <|> newline <|> comment *> newline) *> pure ()

/-! ## Strings -/

/-- The character whose number is written in exactly `n` hexadecimal digits. -/
def scalarValue (n : Nat) : Scan Char := fun cs =>
  let text := cs.take n
  let value := ofDigits 16 text
  if text.length = n ∧ text.all (isDigit 16) ∧ value.isValidChar then
    some (Char.ofNat value, cs.drop n)
  else none

/-- The character that an escape stands for. -/
def escape : Scan Char := do
  Scan.exactly "\\"
  match ← Scan.one fun _ => true with
  | 'b' => return '\x08'
  | 't' => return '\t'
  | 'n' => return '\n'
  | 'f' => return '\x0c'
  | 'r' => return '\r'
  | '"' => return '"'
  | '\\' => return '\\'
  | 'u' => scalarValue 4
  | 'U' => scalarValue 8
  | _ => failure

/-- A backslash at the end of a line: it and the blanks and newlines after it stand for nothing. -/
def continuation : Scan Unit :=
  Scan.exactly "\\" *> blanks *> newline
    *> Scan.many (Scan.run1 isBlank *> pure () <|> newline) *> pure ()

/-- Characters of a basic string that stand for themselves. -/
def basicRun : Scan (List Char) := Scan.run1 fun c => isPlain c && c != '"' && c != '\\'

/-- A piece of a basic string. -/
def basicPiece : Scan (List Char) := basicRun <|> List.singleton <$> escape

/-- Characters of a literal string. -/
def literalRun : Scan (List Char) := Scan.run1 fun c => isPlain c && c != '\''

/-- A basic string of one line. -/
def basic : Scan String := do
  Scan.exactly "\""
  let pieces ← Scan.many basicPiece
  Scan.exactly "\""
  return String.ofList pieces.flatten

/-- A literal string of one line. -/
def literal : Scan String := do
  Scan.exactly "'"
  let text ← Scan.many literalRun
  Scan.exactly "'"
  return String.ofList text.flatten

/-- One or two quotes inside a string that ends with three. -/
def innerQuotes (quote : Char) : Scan (List Char) := fun cs =>
  let quotes := cs.takeWhile (· == quote)
  if quotes.length = 1 ∨ quotes.length = 2 then some (quotes, cs.drop quotes.length) else none

/-- The three quotes that end a string. Up to two more before them belong to the string. -/
def closingQuotes (quote : Char) : Scan (List Char) := fun cs =>
  let quotes := cs.takeWhile (· == quote)
  if quotes.length < 3 then none
  else
    let inner := min (quotes.length - 3) 2
    some (List.replicate inner quote, cs.drop (inner + 3))

/-- The inside of a string over several lines. A newline right at its start does not count, and the
others count as line feeds. -/
def lines (quote : Char) (piece : Scan (List Char)) : Scan String := do
  let _ ← Scan.attempt newline
  let pieces ← Scan.many (piece <|> newline *> pure ['\n'] <|> innerQuotes quote)
  return String.ofList (pieces.flatten ++ (← closingQuotes quote))

/-- A basic string over several lines. -/
def basicLines : Scan String :=
  Scan.exactly "\"\"\"" *> lines '"' (basicRun <|> continuation *> pure [] <|> basicPiece)

/-- A literal string over several lines. -/
def literalLines : Scan String := Scan.exactly "'''" *> lines '\'' literalRun

/-- A string of any kind. -/
def string : Scan String := basicLines <|> basic <|> literalLines <|> literal

/-! ## Keys -/

/-- A key: the names of the tables on the way, and the name in the last of them. -/
structure Key where
  parents : List String
  last : String
deriving DecidableEq, Repr

namespace Key

/-- Every name of a key, from the first on. -/
def path (key : Key) : List String := key.parents ++ [key.last]

/-- The most parts that a key may have. -/
def maxParts : Nat := 79

/-- A character of a bare part. -/
def isBare (c : Char) : Bool := c.isAlphanum || c == '_' || c == '-'

/-- One part of a key. -/
def part : Scan String := basic <|> literal <|> String.ofList <$> Scan.run1 isBare

/-- A key, with the blanks around it. -/
def scan : Scan Key := do
  let parts ← Scan.separated (blanks *> part <* blanks) (Scan.exactly ".")
  guard (parts.length ≤ maxParts)
  return ⟨parts.dropLast, ← parts.getLast?⟩

end Key

end OwnershipLog.Toml
