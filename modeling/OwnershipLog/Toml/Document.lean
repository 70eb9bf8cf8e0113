import OwnershipLog.Toml.Item
import OwnershipLog.Toml.Text

/-!
# Documents

A document is a list of lines: headers of tables, headers of elements of arrays
of tables, and assignments, each of which belongs to the header before it. The
table that a document describes is built statement by statement.
-/

namespace OwnershipLog.Toml

/-! ## Values -/

/-- How deep brackets and braces may nest. -/
def maxNesting : Nat := 79

/-- A value without brackets. -/
def scalar : Scan Item :=
  .string <$> string
    <|> .moment <$> Moment.scan
    <|> .float <$> float
    <|> .integer <$> integer
    <|> (Scan.exactly "true" *> pure (.boolean true))
    <|> (Scan.exactly "false" *> pure (.boolean false))

/-- An array. A comma may follow its last element. -/
def array (element : Scan Item) : Scan Item := do
  Scan.exactly "["
  let items ← Scan.attempt
    (Scan.separated (gap *> element <* gap) (Scan.exactly ",") <* Scan.attempt (Scan.exactly ","))
  gap
  Scan.exactly "]"
  return .array (items.getD [])

/-- A key and the value that it is given. -/
def assignment (element : Scan Item) : Scan (Key × Item) := do
  let key ← Key.scan
  Scan.exactly "="
  blanks
  return (key, ← element)

/-- An inline table. It stands in one line, and no comma follows its last assignment. -/
def inlineTable (element : Scan Item) : Scan Item := do
  Scan.exactly "\x7b"
  let pairs ← Scan.attempt (Scan.separated (assignment element <* blanks) (Scan.exactly ","))
  blanks
  Scan.exactly "\x7d"
  let entries ← (pairs.getD []).foldlM
    (fun (entries : Table) (key, item) => entries.assign key.last item key.parents) []
  return .table .inline entries

/-- A value with at most `n` brackets and braces open at a time. -/
def value : (n : Nat) → Scan Item
  | 0 => scalar
  | n + 1 => scalar <|> array (value n) <|> inlineTable (value n)

/-! ## Statements -/

/-- A line that says something. -/
inductive Statement where
  /-- The header of a table. -/
  | table (key : Key)
  /-- The header of one more element of an array of tables. -/
  | element (key : Key)
  /-- A value for a key. -/
  | assign (key : Key) (item : Item)

namespace Statement

/-- A statement. -/
def scan : Scan Statement :=
  (Scan.exactly "[[" *> (element <$> Key.scan) <* Scan.exactly "]]")
    <|> (Scan.exactly "[" *> (table <$> Key.scan) <* Scan.exactly "]")
    <|> (fun (key, item) => assign key item) <$> assignment (value maxNesting)

/-- The end of a line, or of the document. -/
def lineEnd : Scan Unit := newline <|> Scan.finish

/-- A line: a statement and a comment, either of which may be missing. -/
def scanLine : Scan (Option Statement) := do
  blanks
  (some <$> scan <* blanks <* Scan.attempt comment <* lineEnd)
    <|> (comment *> lineEnd *> pure none)
    <|> (newline *> pure none)

/-- The table of a document so far with the names of the current header, after one more statement. -/
def apply : Table × List String → Statement → Option (Table × List String)
  | (root, _), table key => do
    return (← root.within (Table.openTable key.last) key.parents, key.path)
  | (root, _), element key => do
    return (← root.within (Table.addElement key.last) key.parents, key.path)
  | (root, names), assign key item => do
    return (← root.within (Table.assign key.last item key.parents) names, names)

end Statement

/-- The statements of a document. A byte order mark may stand at its very start. -/
def statements : Scan (List Statement) := do
  let _ ← Scan.attempt (Scan.exactly "\ufeff")
  let lines ← Scan.many Statement.scanLine
  blanks
  Scan.finish
  return lines.filterMap id

/-- The table that a document describes. -/
def parse? (text : String) : Option Table := do
  let (found, _) ← statements text.toList
  let (root, _) ← found.foldlM Statement.apply ([], [])
  return root

end OwnershipLog.Toml
