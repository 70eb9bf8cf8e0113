import OwnershipLog.Database.Sql.Expr
import OwnershipLog.Database.Sql.Token

/-!
# Reading expressions and queries

A `Phrase` reads a form off the front of some tokens, or fails. Operators bind by
levels: an expression read at a level takes in all operators of that level or
above. Most words can also serve as names; only the reserved ones cannot.
-/

namespace OwnershipLog

/-- Reads a form off the front of some tokens, or fails. -/
abbrev Phrase := StateT (List Token) Option

namespace Phrase

/-- The words that are no names. -/
def reserved : List String :=
  ["add", "all", "alter", "and", "as", "autoincrement", "between", "case", "check", "collate",
    "commit", "constraint", "create", "default", "deferrable", "delete", "distinct", "drop",
    "else", "escape", "except", "exists", "foreign", "from", "group", "having", "in", "index",
    "insert", "intersect", "into", "is", "isnull", "join", "limit", "not", "nothing", "notnull",
    "null", "on", "or", "order", "primary", "references", "returning", "select", "set", "table",
    "then", "to", "transaction", "union", "unique", "update", "using", "values", "when", "where"]

/-- The next token. -/
def peek : Phrase (Option Token) := fun tokens => some (tokens.head?, tokens)

/-- Leave out a token. -/
def skip : Phrase Unit := fun tokens => some ((), tokens.drop 1)

/-- Whether the next tokens are these words. -/
def sees (words : List String) : Phrase Bool := fun tokens =>
  let found := tokens.take words.length
  some (found.length = words.length && (found.zip words).all fun
    | (.word small _, word) => small = word
    | _ => false, tokens)

/-- Take some words if they are next: whether they were. -/
def takes (words : List String) : Phrase Bool := do
  if ← sees words then
    modify (·.drop words.length)
    return true
  return false

/-- Take some words. -/
def demand (words : List String) : Phrase Unit := do guard (← takes words)

/-- The form that the next words announce, if they are those of one in a list: what comes after
the words. -/
def announced {α : Type} : List (List String × Phrase α) → Phrase (Option α)
  | [] => return none
  | (words, form) :: others => do
    if ← takes words then some <$> form else announced others

/-- Whether the next token is a mark. -/
def seesMark (text : String) : Phrase Bool := do return (← peek) == some (.mark text)

/-- Take a mark if it is next: whether it was. -/
def takesMark (text : String) : Phrase Bool := do
  if ← seesMark text then
    skip
    return true
  return false

/-- Take a mark. -/
def demandMark (text : String) : Phrase Unit := do guard (← takesMark text)

/-- The name that a token is. -/
def nameOf? : Token → Option String
  | .word small written => if reserved.contains small then none else some written
  | .quoted name => some name
  | .text value => some value
  | _ => none

/-- A name. -/
def name : Phrase String := do
  match (← peek).bind nameOf? with
  | some found =>
    skip
    return found
  | none => failure

/-- Values with commas between them; at most `fuel`. -/
def commas {α : Type} (phrase : Phrase α) : (fuel : Nat) → Phrase (List α)
  | 0 => failure
  | fuel + 1 => do
    let a ← phrase
    if ← takesMark "," then return a :: (← commas phrase fuel) else return [a]

/-- A value in parentheses. -/
def parens {α : Type} (phrase : Phrase α) : Phrase α := do
  demandMark "("
  let a ← phrase
  demandMark ")"
  return a

/-- Leave out tokens up to the closing parenthesis of the `depth` that are open. -/
def skipParens : (fuel depth : Nat) → Phrase Unit
  | 0, _ => failure
  | fuel + 1, depth => do
    match ← peek with
    | none => failure
    | some token =>
      skip
      if token = .mark "(" then skipParens fuel (depth + 1)
      else if token = .mark ")" then if depth ≤ 1 then return else skipParens fuel (depth - 1)
      else if token = .mark ";" || token = .illegal then failure
      else skipParens fuel depth

/-- A signed number, as in the length of a type. -/
def signedNumber : Phrase String := do
  let minus ← takesMark "-"
  if !minus then
    let _ ← takesMark "+"
  match ← peek with
  | some (.whole digits) =>
    skip
    return digits
  | some (.decimal digits) =>
    skip
    return digits
  | _ => failure

/-- The words of a type; at most `fuel`. -/
def typeWords : (fuel : Nat) → Phrase (List String)
  | 0 => return []
  | fuel + 1 => do
    match ← peek with
    | some token =>
      match nameOf? token with
      | some found =>
        skip
        return found :: (← typeWords fuel)
      | none => return []
    | none => return []

/-- A type, which may be empty: its words, then what stands in parentheses. -/
def typeName : Phrase (List String × String) := do
  let words ← typeWords 100
  if words.isEmpty || !(← seesMark "(") then return (words, "")
  else
    parens do
      let a ← signedNumber
      if ← takesMark "," then
        let b ← signedNumber
        return (words, "(" ++ a ++ "," ++ b ++ ")")
      return (words, "(" ++ a ++ ")")

/-- The operator of two operands that the next tokens are, and its level. -/
def binaryOp? : List Token → Option (BinaryOp × Nat × Nat)
  | .word "or" _ :: _ => some (.or, 1, 1)
  | .word "and" _ :: _ => some (.and, 2, 1)
  | .mark "=" :: _ => some (.eq, 4, 1)
  | .mark "==" :: _ => some (.eq, 4, 1)
  | .mark "<>" :: _ => some (.ne, 4, 1)
  | .word "is" _ :: .word "not" _ :: .word "distinct" _ :: .word "from" _ :: _ => some (.is, 4, 4)
  | .word "is" _ :: .word "distinct" _ :: .word "from" _ :: _ => some (.isNot, 4, 3)
  | .word "is" _ :: .word "not" _ :: _ => some (.isNot, 4, 2)
  | .word "is" _ :: _ => some (.is, 4, 1)
  | .mark "<" :: _ => some (.lt, 5, 1)
  | .mark "<=" :: _ => some (.le, 5, 1)
  | .mark ">" :: _ => some (.gt, 5, 1)
  | .mark ">=" :: _ => some (.ge, 5, 1)
  | .mark "&" :: _ => some (.bitAnd, 7, 1)
  | .mark "|" :: _ => some (.bitOr, 7, 1)
  | .mark "<<" :: _ => some (.shiftLeft, 7, 1)
  | .mark ">>" :: _ => some (.shiftRight, 7, 1)
  | .mark "+" :: _ => some (.add, 8, 1)
  | .mark "-" :: _ => some (.subtract, 8, 1)
  | .mark "*" :: _ => some (.multiply, 9, 1)
  | .mark "/" :: _ => some (.divide, 9, 1)
  | .mark "%" :: _ => some (.remainder, 9, 1)
  | .mark "||" :: _ => some (.concat, 10, 1)
  | .mark "->" :: _ => some (.extract, 10, 1)
  | .mark "->>" :: _ => some (.extractText, 10, 1)
  | _ => none

/-- The words that compare by a pattern. -/
def patternWords : List String := ["like", "glob", "regexp", "match"]

/-- The words that say how sources are joined. -/
def joinWords : List String := ["cross", "full", "inner", "left", "natural", "outer", "right"]

/-- Whether a key descends. -/
def descends : Phrase Bool := do
  let descending ← takes ["desc"]
  if !descending then
    let _ ← takes ["asc"]
  return descending

/-- Whether a key of the order of a query descends, and whether nulls come first if that is said. -/
def orderTerm : Phrase (Bool × Option Bool) := do
  let descending ← descends
  if ← takes ["nulls"] then
    if ← takes ["first"] then return (descending, some true)
    demand ["last"]
    return (descending, some false)
  return (descending, none)

/-- The name that a result or a source is given, if any. -/
def label : Phrase (Option String) := do
  if ← takes ["as"] then return some (← name)
  match ← peek with
  | some (.word small written) =>
    if reserved.contains small || joinWords.contains small || small = "window" ||
        small = "indexed" then
      return none
    skip
    return some written
  | some (.quoted found) =>
    skip
    return some found
  | some (.text found) =>
    skip
    return some found
  | _ => return none

mutual

/-- An expression whose operators have at least a level. -/
def expr : (fuel level : Nat) → Phrase Expr
  | 0, _ => failure
  | fuel + 1, level => do
    let left ← operand fuel
    operators fuel level left

/-- What follows an operand. -/
def operators : (fuel level : Nat) → Expr → Phrase Expr
  | 0, _, _ => failure
  | fuel + 1, level, left => do
    match binaryOp? (← get) with
    | some (op, own, width) =>
      if own < level then return left
      modify (·.drop width)
      let right ← expr fuel (own + 1)
      operators fuel level (.binary op left right)
    | none =>
      if (← sees ["collate"]) then
        if 11 < level then return left
        skip
        operators fuel level (.collate left (← name))
      else if 4 < level then return left
      else if (← takes ["isnull"]) then operators fuel level (.unary .isNull left)
      else if (← takes ["notnull"]) then operators fuel level (.unary .notNull left)
      else if (← takes ["not", "null"]) then operators fuel level (.unary .notNull left)
      else
        let before ← get
        let negated ← takes ["not"]
        let close (e : Expr) : Expr := if negated then .unary .not e else e
        if ← takes ["between"] then
          let low ← expr fuel 3
          demand ["and"]
          let high ← expr fuel 5
          operators fuel level (close (.between left low high))
        else if ← takes ["in"] then operators fuel level (close (← choices fuel left))
        else match ← peek with
          | some (.word small _) =>
            if patternWords.contains small then
              skip
              let pattern ← expr fuel 5
              let escape ← if ← takes ["escape"] then some <$> expr fuel 5 else pure none
              operators fuel level
                (close (.call small false (pattern :: left :: escape.toList)))
            else if negated then failure
            else
              set before
              return left
          | _ => if negated then failure else return left

/-- What an expression may be one of. -/
def choices : (fuel : Nat) → Expr → Phrase Expr
  | 0, _ => failure
  | fuel + 1, left => do
    if ← takesMark "(" then
      if ← takesMark ")" then return .inList left []
      if (← sees ["select"]) || (← sees ["values"]) || (← sees ["with"]) then
        let q ← selection fuel
        demandMark ")"
        return .inSelection left q
      let found ← commas (expr fuel 1) (fuel + 1)
      demandMark ")"
      return .inList left found
    else
      let table ← name
      if ← takesMark "." then
        let _ ← name
      if ← takesMark "(" then
        if !(← seesMark ")") then
          let _ ← commas (expr fuel 1) (fuel + 1)
        demandMark ")"
      return .inSelection left (.select false [.all] [.mk (.table table none) false false none []]
        none [] none)

/-- An operand with the operators before it. -/
def operand : (fuel : Nat) → Phrase Expr
  | 0 => failure
  | fuel + 1 => do
    match ← peek with
    | some (.mark "-") =>
      skip
      return .unary .minus (← expr fuel 12)
    | some (.mark "+") =>
      skip
      return .unary .plus (← expr fuel 12)
    | some (.mark "~") =>
      skip
      return .unary .bitNot (← expr fuel 12)
    | some (.mark "(") =>
      skip
      if (← sees ["select"]) || (← sees ["values"]) || (← sees ["with"]) then
        let q ← selection fuel
        demandMark ")"
        return .subquery q
      let found ← commas (expr fuel 1) (fuel + 1)
      demandMark ")"
      match found with
      | [e] => return e
      | es => return .row es
    | some (.whole digits) =>
      skip
      return .whole digits
    | some (.decimal digits) =>
      skip
      return .decimal digits
    | some (.blob digits) =>
      skip
      return .blob digits
    | some .parameter =>
      skip
      return .parameter
    | some (.text value) =>
      skip
      if ← takesMark "." then qualified value else return .text value
    | some (.quoted found) =>
      skip
      if ← takesMark "." then qualified found
      else if ← seesMark "(" then call fuel found
      else return .column none found true
    | some (.word "null" _) =>
      skip
      return .null
    | some (.word "not" _) =>
      skip
      return .unary .not (← expr fuel 3)
    | some (.word "exists" _) =>
      skip
      return .exists (← parens (selection fuel))
    | some (.word "case" _) =>
      skip
      let subject ← if ← sees ["when"] then pure none else some <$> expr fuel 1
      let found ← branches fuel
      let otherwise ← if ← takes ["else"] then some <$> expr fuel 1 else pure none
      demand ["end"]
      return .case subject found otherwise
    | some (.word "cast" _) =>
      skip
      parens do
        let e ← expr fuel 1
        demand ["as"]
        let (words, size) ← typeName
        return .cast e (" ".intercalate words ++ size)
    | some (.word "raise" _) =>
      skip
      parens do
        if ← takes ["ignore"] then return .raise "ignore"
        match ← peek with
        | some (.word way _) =>
          guard (["rollback", "abort", "fail"].contains way)
          skip
          demandMark ","
          let _ ← name
          return .raise way
        | _ => failure
    | some (.word small written) =>
      if ["current_time", "current_date", "current_timestamp"].contains small then
        skip
        return .moment small
      if reserved.contains small then failure
      skip
      if ← takesMark "." then qualified written
      else if ← seesMark "(" then call fuel written
      else return .column none written false
    | _ => failure

/-- A column after the name of its table, or of its database and its table. -/
def qualified (first : String) : Phrase Expr := do
  let second ← name
  if ← takesMark "." then return .column (some second) (← name) false
  return .column (some first) second false

/-- The branches of a case. -/
def branches : (fuel : Nat) → Phrase (List (Expr × Expr))
  | 0 => failure
  | fuel + 1 => do
    demand ["when"]
    let condition ← expr fuel 1
    demand ["then"]
    let value ← expr fuel 1
    if ← sees ["when"] then return (condition, value) :: (← branches fuel)
    else return [(condition, value)]

/-- A function with its arguments, after its name. -/
def call : (fuel : Nat) → String → Phrase Expr
  | 0, _ => failure
  | fuel + 1, written => do
    let small := Token.lowered written
    demandMark "("
    if ← takesMark "*" then
      demandMark ")"
      if ← window fuel then return .windowed small []
      return .callOfAll small
    let distinct ← takes ["distinct"]
    if !distinct then
      let _ ← takes ["all"]
    let arguments ←
      if ← seesMark ")" then pure [] else commas (expr fuel 1) (fuel + 1)
    if ← takes ["order", "by"] then
      let _ ← commas (do let _ ← expr fuel 1; orderTerm) (fuel + 1)
    demandMark ")"
    if ← window fuel then return .windowed small arguments
    return .call small distinct arguments

/-- The filter and the window after a function, if any: whether there are. -/
def window : (fuel : Nat) → Phrase Bool
  | 0 => failure
  | fuel + 1 => do
    let filtered ←
      match ← get with
      | .word "filter" _ :: .mark "(" :: _ =>
        skip
        parens do
          demand ["where"]
          let _ ← expr fuel 1
        pure true
      | _ => pure false
    match ← get with
    | .word "over" _ :: .mark "(" :: _ =>
      modify (·.drop 2)
      skipParens fuel 1
      return true
    | .word "over" _ :: token :: _ =>
      if (nameOf? token).isSome then
        modify (·.drop 2)
        return true
      return filtered
    | _ => return filtered

/-- A query. -/
def selection : (fuel : Nat) → Phrase Selection
  | 0 => failure
  | fuel + 1 => do
    if ← takes ["with"] then
      let _ ← takes ["recursive"]
      let names ← commas (do
        let found ← name
        let columns ← if ← seesMark "(" then parens (commas name 1000) else pure []
        demand ["as"]
        if !(← takes ["materialized"]) then
          let _ ← takes ["not", "materialized"]
        return (found, columns, ← parens (selection fuel))) (fuel + 1)
      return .naming names (← compound fuel (← core fuel))
    compound fuel (← core fuel)

/-- What follows the first part of a query. -/
def compound : (fuel : Nat) → Selection → Phrase Selection
  | 0, _ => failure
  | fuel + 1, left => do
    let op ← announced [
      (["union", "all"], pure .unionAll),
      (["union"], pure .union),
      (["except"], pure .except),
      (["intersect"], pure .intersect)]
    match op with
    | some op =>
      let right ← core fuel
      compound fuel (.compound op left right)
    | none =>
      let keys ←
        if ← takes ["order", "by"] then
          commas (do
            let e ← expr fuel 1
            let (descending, nullsFirst) ← orderTerm
            return ⟨e, descending, nullsFirst.getD (!descending)⟩) (fuel + 1)
        else pure []
      let limit ← if ← takes ["limit"] then some <$> expr fuel 1 else pure none
      let second ←
        if limit.isSome then
          if ← takes ["offset"] then some <$> expr fuel 1 else pure none
        else pure none
      let third ←
        if limit.isSome && second.isNone then
          if ← takesMark "," then some <$> expr fuel 1 else pure none
        else pure none
      if keys.isEmpty && limit.isNone then return left
      else if third.isSome then return .ordered left keys third limit
      else return .ordered left keys limit second

/-- One part of a query. -/
def core : (fuel : Nat) → Phrase Selection
  | 0 => failure
  | fuel + 1 => do
    if ← takes ["values"] then
      return .values (← commas (parens (commas (expr fuel 1) (fuel + 1))) (fuel + 1))
    demand ["select"]
    let distinct ← takes ["distinct"]
    if !distinct then
      let _ ← takes ["all"]
    let results ← commas (result fuel) (fuel + 1)
    let sources ← if ← takes ["from"] then sources fuel else pure []
    let condition ← if ← takes ["where"] then some <$> expr fuel 1 else pure none
    let grouping ←
      if ← takes ["group", "by"] then commas (expr fuel 1) (fuel + 1) else pure []
    let having ← if ← takes ["having"] then some <$> expr fuel 1 else pure none
    if ← takes ["window"] then
      let _ ← commas (do
        let _ ← name
        demand ["as"]
        demandMark "("
        skipParens fuel 1) (fuel + 1)
    return .select distinct results sources condition grouping having

/-- A column of a result. -/
def result : (fuel : Nat) → Phrase Result
  | 0 => failure
  | fuel + 1 => do
    match ← get with
    | .mark "*" :: _ =>
      skip
      return .all
    | token :: .mark "." :: .mark "*" :: _ =>
      match nameOf? token with
      | some found =>
        modify (·.drop 3)
        return .allOf found
      | none => failure
    | _ =>
      let e ← expr fuel 1
      return .expr e (← label)

/-- The sources of a query. -/
def sources : (fuel : Nat) → Phrase (List Joined)
  | 0 => failure
  | fuel + 1 => do
    let source ← source fuel
    let (on, shared) ← constraint fuel
    return .mk source false false on shared :: (← moreSources fuel)

/-- The sources after the first one, each after a word or a comma that joins it. -/
def moreSources : (fuel : Nat) → Phrase (List Joined)
  | 0 => failure
  | fuel + 1 => do
    let words := (← get).takeWhile fun
      | .word small _ => joinWords.contains small
      | _ => false
    let has (word : String) : Bool := words.any fun
      | .word small _ => small = word
      | _ => false
    let joined ←
      if words.isEmpty then
        if ← takesMark "," then pure true else takes ["join"]
      else
        modify (·.drop words.length)
        demand ["join"]
        pure true
    if !joined then return []
    let source ← source fuel
    let (on, shared) ← constraint fuel
    let outer := has "left" || has "outer" || has "full" || has "right"
    return .mk source outer (has "natural") on shared :: (← moreSources fuel)

/-- What sources are joined by. -/
def constraint : (fuel : Nat) → Phrase (Option Expr × List String)
  | 0 => failure
  | fuel + 1 => do
    if ← takes ["on"] then return (some (← expr fuel 1), [])
    if ← takes ["using"] then return (none, ← parens (commas name 1000))
    return (none, [])

/-- A source of a query. -/
def source : (fuel : Nat) → Phrase Source
  | 0 => failure
  | fuel + 1 => do
    if ← takesMark "(" then
      if (← sees ["select"]) || (← sees ["values"]) || (← sees ["with"]) then
        let q ← selection fuel
        demandMark ")"
        return .selection q (← label)
      let found ← sources fuel
      demandMark ")"
      return .group found (← label)
    let first ← name
    let found ← if ← takesMark "." then name else pure first
    if ← takesMark "(" then
      let arguments ← if ← seesMark ")" then pure [] else commas (expr fuel 1) (fuel + 1)
      demandMark ")"
      return .call found arguments (← label)
    let shown ← label
    if ← takes ["indexed", "by"] then
      let _ ← name
    else
      let _ ← takes ["not", "indexed"]
    return .table found shown

end

/-- How deep the forms in some tokens can lie. -/
def fuelFor (tokens : List Token) : Nat := 8 * tokens.length + 64

/-- An expression. -/
def anyExpr : Phrase Expr := do expr (fuelFor (← get)) 1

/-- A query. -/
def anySelection : Phrase Selection := do selection (fuelFor (← get))

end Phrase

end OwnershipLog
