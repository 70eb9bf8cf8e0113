import OwnershipLog.Database.Sql.Grammar

/-!
# Declarations

A declaration creates a table, an index, a view or a trigger, or a table that
another program keeps. `Declaration.ofText?` reads the first one in a text; what
follows it after a semicolon does not matter.
-/

namespace OwnershipLog

/-- What to do about a row that breaks a constraint. -/
inductive Conflict where
  | unspecified
  | rollback
  | abort
  | fail
  | ignore
  | replace
deriving DecidableEq, Repr, Inhabited

/-- What becomes of rows that refer to a row that goes. -/
inductive ReferenceAction where
  | none
  | restrict
  | setNull
  | setDefault
  | cascade
deriving DecidableEq, Repr, Inhabited

/-- A reference to another table as it is declared. -/
structure ReferenceClause where
  parent : String
  parentColumns : List String
  onDelete : ReferenceAction
  onUpdate : ReferenceAction
  deferred : Bool

/-- What a column or a table is declared to obey. -/
inductive Constraint where
  /-- No name twice; each key may descend. For a column there are no keys. -/
  | primaryKey (keys : List (Expr × Bool)) (descending auto : Bool) (conflict : Conflict)
  | unique (keys : List (Expr × Bool)) (conflict : Conflict)
  | notNull (conflict : Conflict)
  | check (e : Expr)
  | default (e : Expr)
  | collate (collation : String)
  | generated (e : Expr) (stored : Bool)
  | references (columns : List String) (clause : ReferenceClause)
  /-- When the reference before it is checked. -/
  | deferred (value : Bool)

/-- A column as it is declared. -/
structure ColumnDeclaration where
  name : String
  type : String
  constraints : List Constraint

/-- What a trigger does. -/
inductive Step where
  | insert (conflict : Conflict) (table : String) (columns : List String) (rows : Selection)
      (upsert : Bool)
  | update (conflict : Conflict) (table : String) (changes : List (List String × Expr))
      (sources : List Joined) (condition : Option Expr)
  | delete (table : String) (condition : Option Expr)
  | select (q : Selection)

/-- When a trigger acts. -/
inductive TriggerTime where
  | before
  | after
  | instead
deriving DecidableEq, Repr

/-- What sets a trigger off. -/
inductive TriggerEvent where
  | insert
  | delete
  | update (columns : List String)
deriving DecidableEq, Repr

/-- What a text declares. -/
inductive Declaration where
  | table (name : String) (columns : List ColumnDeclaration) (constraints : List Constraint)
      (withoutRowid strict : Bool)
  | index (name table : String) (unique : Bool) (keys : List (Expr × Bool))
      (condition : Option Expr)
  | view (name : String) (columns : List String) (q : Selection)
  | trigger (name table : String) (time : TriggerTime) (event : TriggerEvent)
      (condition : Option Expr) (steps : List Step)
  | external (name : String)

namespace Phrase

/-- The word of a resolution. -/
def resolution : Phrase Conflict := do
  if ← takes ["rollback"] then return .rollback
  if ← takes ["abort"] then return .abort
  if ← takes ["fail"] then return .fail
  if ← takes ["ignore"] then return .ignore
  demand ["replace"]
  return .replace

/-- What to do on a conflict, if that is said. -/
def onConflict : Phrase Conflict := do
  if ← takes ["on", "conflict"] then resolution else return .unspecified

/-- A literal, perhaps with a sign. -/
def defaultValue : Phrase Expr := do
  match ← peek with
  | some (.mark "(") => parens anyExpr
  | some (.mark "+") =>
    skip
    return .unary .plus (← term)
  | some (.mark "-") =>
    skip
    return .unary .minus (← term)
  | _ => term
where
  /-- A literal without a sign; a bare word is a text. -/
  term : Phrase Expr := do
    match ← peek with
    | some (.whole digits) =>
      skip
      return .whole digits
    | some (.decimal digits) =>
      skip
      return .decimal digits
    | some (.text value) =>
      skip
      return .text value
    | some (.blob digits) =>
      skip
      return .blob digits
    | some (.quoted value) =>
      skip
      return .text value
    | some (.word small written) =>
      if small = "null" then
        skip
        return .null
      else if ["current_time", "current_date", "current_timestamp"].contains small then
        skip
        return .moment small
      else if reserved.contains small || joinWords.contains small then failure
      else
        skip
        return if small = "true" then .whole "1" else if small = "false" then .whole "0"
          else .text written
    | _ => failure

/-- Columns to be indexed, each with whether it descends. -/
def keys : Phrase (List (Expr × Bool)) := commas (do
  let e ← anyExpr
  return (e, ← descends)) 32768

/-- Names of columns in parentheses, or none. -/
def columnNames : Phrase (List String) := do
  if !(← seesMark "(") then return []
  parens (commas (do
    let found ← name
    if ← takes ["collate"] then
      let _ ← name
    let _ ← descends
    return found) 32768)

/-- What becomes of rows that refer to a row that goes. -/
def referenceAction : Phrase ReferenceAction := do
  if ← takes ["set", "null"] then return .setNull
  if ← takes ["set", "default"] then return .setDefault
  if ← takes ["cascade"] then return .cascade
  if ← takes ["restrict"] then return .restrict
  demand ["no", "action"]
  return .none

/-- What is said of a reference after its table and columns; at most `fuel` times. -/
def referenceArguments : (fuel : Nat) → ReferenceClause → Phrase ReferenceClause
  | 0, clause => return clause
  | fuel + 1, clause => do
    if ← takes ["on", "insert"] then
      let _ ← referenceAction
      referenceArguments fuel clause
    else if ← takes ["on", "delete"] then
      referenceArguments fuel { clause with onDelete := ← referenceAction }
    else if ← takes ["on", "update"] then
      referenceArguments fuel { clause with onUpdate := ← referenceAction }
    else if ← takes ["match"] then
      let _ ← name
      referenceArguments fuel clause
    else return clause

/-- A reference after its first word. -/
def reference : Phrase ReferenceClause := do
  let parent ← name
  let parentColumns ← columnNames
  referenceArguments 100 ⟨parent, parentColumns, .none, .none, false⟩

/-- Whether a reference is checked at the end of the transaction, if that is said. -/
def deferral : Phrase (Option Bool) := do
  match ← announced [(["not", "deferrable"], pure true), (["deferrable"], pure false)] with
  | none => return none
  | some negated =>
    let deferred ← takes ["initially", "deferred"]
    if !deferred then
      let _ ← takes ["initially", "immediate"]
    return some (deferred && !negated)

/-- How a column is computed, after the words that announce it. -/
def computation : Phrase (List Constraint) := do
  let e ← parens anyExpr
  let kind ← announced [(["stored"], pure true), (["virtual"], pure false)]
  return [.generated e (kind.getD false)]

/-- One thing that is said of a column, if any. A name is nothing. -/
def columnConstraint : Phrase (Option (List Constraint)) := do
  let found ← announced [
    (["constraint"], do
      let _ ← name
      return []),
    (["default"], do return [.default (← defaultValue)]),
    (["null"], do
      let _ ← onConflict
      return []),
    (["not", "null"], do return [.notNull (← onConflict)]),
    (["primary", "key"], do
      let descending ← descends
      let conflict ← onConflict
      return [.primaryKey [] descending (← takes ["autoincrement"]) conflict]),
    (["unique"], do return [.unique [] (← onConflict)]),
    (["check"], do return [.check (← parens anyExpr)]),
    (["references"], do return [.references [] (← reference)]),
    (["collate"], do return [.collate (← name)]),
    (["generated", "always", "as"], computation),
    (["as"], computation)]
  if found.isSome then return found
  return (← deferral).map fun deferred => [.deferred deferred]

/-- What is said of a column after its type; at most `fuel` things. -/
def columnConstraints : (fuel : Nat) → Phrase (List Constraint)
  | 0 => failure
  | fuel + 1 => do
    match ← columnConstraint with
    | none => return []
    | some found => return found ++ (← columnConstraints fuel)

/-- A column of a table. The words that announce what is computed may have been read as its type. -/
def column : Phrase ColumnDeclaration := do
  let found ← name
  let (words, size) ← typeName
  let small := words.map Token.lowered
  let count := words.length
  let words :=
    if size = "" && small.drop (count - 2) = ["generated", "always"] then words.take (count - 2)
    else words
  let constraints ← columnConstraints 1000
  return ⟨found, " ".intercalate words ++ size, constraints⟩

/-- One thing that a table obeys as a whole, if any. A name is nothing. -/
def tableConstraint : Phrase (Option (List Constraint)) := announced [
  (["constraint"], do
    let _ ← name
    return []),
  (["primary", "key"], do
    demandMark "("
    let found ← keys
    let auto ← takes ["autoincrement"]
    demandMark ")"
    return [.primaryKey found false auto (← onConflict)]),
  (["unique"], do
    let found ← parens keys
    return [.unique found (← onConflict)]),
  (["check"], do
    let e ← parens anyExpr
    let _ ← onConflict
    return [.check e]),
  (["foreign", "key"], do
    let columns ← columnNames
    guard !columns.isEmpty
    demand ["references"]
    let clause ← reference
    return [.references columns { clause with deferred := (← deferral).getD false }])]

/-- What a table obeys as a whole; at most `fuel` things. -/
def tableConstraints : (fuel : Nat) → Phrase (List Constraint)
  | 0 => failure
  | fuel + 1 => do
    let more ← takesMark ","
    match ← tableConstraint with
    | none =>
      guard !more
      return []
    | some found => return found ++ (← tableConstraints fuel)

/-- Whether the next token begins what a table obeys as a whole. -/
def seesTableConstraint : Phrase Bool := do
  return (← sees ["constraint"]) || (← sees ["primary"]) || (← sees ["unique"]) ||
    (← sees ["check"]) || (← sees ["foreign"])

/-- The columns of a table and what it obeys; at most `fuel` columns. -/
def tableBody : (fuel : Nat) → Phrase (List ColumnDeclaration × List Constraint)
  | 0 => failure
  | fuel + 1 => do
    let found ← column
    if ← takesMark "," then
      if ← seesTableConstraint then return ([found], ← tableConstraints 32768)
      let (columns, constraints) ← tableBody fuel
      return (found :: columns, constraints)
    return ([found], [])

/-- An option after the body of a table: whether it says that rows have no numbers; else it says that
types are strict. -/
def tableOption : Phrase Bool := do
  if ← takes ["without"] then
    guard (Token.lowered (← name) = "rowid")
    return true
  guard (Token.lowered (← name) = "strict")
  return false

/-- The options after the body of a table: whether its rows have no numbers, and whether its types
are strict. -/
def tableOptions : Phrase (Bool × Bool) := do
  if (← get).isEmpty || (← seesMark ";") then return (false, false)
  let found ← commas tableOption 100
  return (found.contains true, found.contains false)

/-- The resolution after the first word of a step, if any. -/
def stepConflict : Phrase Conflict := do
  if ← takes ["or"] then resolution else return .unspecified

/-- What a changed row is given in place of a conflict. -/
def changes : Phrase (List (List String × Expr)) := commas (do
  let targets ← if ← seesMark "(" then parens (commas name 32768) else (fun n => [n]) <$> name
  demandMark "="
  return (targets, ← anyExpr)) 32768

/-- What to do instead of an insertion that would break a constraint; at most `fuel` clauses:
whether there are. -/
def upserts : (fuel : Nat) → Phrase Bool
  | 0 => return false
  | fuel + 1 => do
    if !(← takes ["on", "conflict"]) then return false
    if ← seesMark "(" then
      let _ ← parens keys
      if ← takes ["where"] then
        let _ ← anyExpr
    demand ["do"]
    if !(← takes ["nothing"]) then
      demand ["update", "set"]
      let _ ← changes
      if ← takes ["where"] then
        let _ ← anyExpr
    let _ ← upserts fuel
    return true

/-- The condition of a step, if any. -/
def stepCondition : Phrase (Option Expr) := do
  if ← takes ["where"] then some <$> anyExpr else return none

/-- A step of a trigger. -/
def step : Phrase Step := do
  if ← takes ["update"] then
    let conflict ← stepConflict
    let table ← name
    guard !(← seesMark ".")
    demand ["set"]
    let found ← changes
    let from' ← if ← takes ["from"] then sources (fuelFor (← get)) else pure []
    return .update conflict table found from' (← stepCondition)
  else if ← takes ["delete", "from"] then
    let table ← name
    guard !(← seesMark ".")
    return .delete table (← stepCondition)
  else if (← sees ["insert"]) || (← sees ["replace"]) then
    let conflict ←
      if ← takes ["replace"] then pure Conflict.replace
      else
        skip
        stepConflict
    demand ["into"]
    let table ← name
    guard !(← seesMark ".")
    let columns ← if ← seesMark "(" then parens (commas name 32768) else pure []
    let rows ← anySelection
    return .insert conflict table columns rows (← upserts 100)
  else return .select (← anySelection)

/-- The steps of a trigger; at most `fuel`. -/
def steps : (fuel : Nat) → Phrase (List Step)
  | 0 => failure
  | fuel + 1 => do
    let found ← step
    demandMark ";"
    if ← takes ["end"] then return [found] else return found :: (← steps fuel)

/-- The name of what is declared. Its database must not be named. -/
def declaredName : Phrase String := do
  let _ ← takes ["if", "not", "exists"]
  let found ← name
  guard !(← seesMark ".")
  return found

/-- A trigger after its first words. -/
def trigger : Phrase Declaration := do
  let found ← declaredName
  let time ← announced [
    (["before"], pure .before),
    (["after"], pure .after),
    (["instead", "of"], pure .instead)]
  let event ← announced [
    (["insert"], pure .insert),
    (["delete"], pure .delete),
    (["update"], do
      if ← takes ["of"] then return .update (← commas name 32768) else return .update [])]
  demand ["on"]
  let first ← name
  let table ← if ← takesMark "." then name else pure first
  let _ ← takes ["for", "each", "row"]
  let condition ← if ← takes ["when"] then some <$> anyExpr else pure none
  demand ["begin"]
  match event with
  | none => failure
  | some event =>
    return .trigger found table (time.getD .before) event condition (← steps 32768)

/-- A table after its first words. -/
def table : Phrase Declaration := do
  let found ← declaredName
  let (columns, constraints) ← parens (tableBody 32768)
  let (withoutRowid, strict) ← tableOptions
  return .table found columns constraints withoutRowid strict

/-- A table that something else keeps, after its first words. -/
def external : Phrase Declaration := do
  let found ← declaredName
  demand ["using"]
  let _ ← name
  if ← takesMark "(" then skipParens (← get).length 1
  return .external found

/-- A view after its first words. -/
def view : Phrase Declaration := do
  let found ← declaredName
  let columns ← columnNames
  demand ["as"]
  guard !((← get).contains .parameter)
  return .view found columns (← anySelection)

/-- An index after its first words. -/
def index (unique : Bool) : Phrase Declaration := do
  let found ← declaredName
  demand ["on"]
  let table ← name
  let columns ← parens keys
  return .index found table unique columns (← stepCondition)

/-- Anything that a database can be said to hold. -/
def declaration : Phrase Declaration := do
  demand ["create"]
  let found ← announced [
    (["table"], table),
    (["virtual", "table"], external),
    (["view"], view),
    (["trigger"], trigger),
    (["unique", "index"], index true),
    (["index"], index false)]
  guard ((← get).isEmpty || (← seesMark ";"))
  match found with
  | some found => return found
  | none => failure

end Phrase

/-- What a text declares first. -/
def Declaration.ofText? (text : String) : Option Declaration :=
  (Phrase.declaration.run (Token.tokens text)).map (·.1)

end OwnershipLog
