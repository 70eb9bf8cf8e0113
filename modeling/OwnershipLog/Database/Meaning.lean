import OwnershipLog.Database.Scope

/-!
# What queries mean

A query can be refused before any row is read: a name may mean nothing, a function
may not be known, a part may have too many columns. `Setting.kindOf` finds that out
for an expression and tells what values it prefers and how they are compared;
`Setting.columnsOf` does so for a query and lists its columns. `Conversion` says
how two values are made comparable.
-/

namespace OwnershipLog

/-- What is known of an expression without its value. -/
structure Kind where
  affinity : Affinity
  /-- How its values are compared, and whether the expression says so itself. -/
  collation : Option (Collation × Bool)
deriving Inhabited

namespace Kind

/-- The kind of an expression that has none of its own. -/
def plain : Kind := ⟨.none, none⟩

/-- The collation that an expression asks for itself, among those of its parts. -/
def ofParts (kinds : List Kind) : Kind :=
  ⟨.none, kinds.findSome? fun kind => kind.collation.filter (·.2)⟩

/-- How values of two kinds are compared. -/
def collationWith (a b : Kind) : Collation :=
  let said (kind : Kind) : Option (Collation × Bool) := kind.collation.filter (·.2)
  (((said a).or (said b)).or (a.collation.or b.collation)).elim .binary (·.1)

/-- What both of two values are made to prefer before they are compared. -/
def affinityWith (a b : Kind) : Affinity :=
  if a.affinity.isSome && b.affinity.isSome then
    if a.affinity.isNumeric || b.affinity.isNumeric then .numeric else .blob
  else if a.affinity.isSome then a.affinity
  else b.affinity

end Kind

/-- What a query is asked in. -/
structure Setting where
  schema : Schema
  /-- Queries that can be used by their names. -/
  named : List (String × List String × Selection)
  /-- The views that are being looked into. -/
  opened : List String
  /-- The value that is given later. -/
  parameter : Value
  /-- Whether a trigger asks. -/
  inTrigger : Bool
  /-- Whether one row is put that can change no other one. -/
  single : Bool

/-- The affinity that a cast asks for. -/
def castAffinity (type : String) : Affinity :=
  (Affinity.scan (Token.lowered type).toList .numeric none).1

/-- Whether an expression computes something from a group of rows. -/
def Expr.isOfGroup (e : Expr) : Bool := !e.everywhere fun
  | .call name _ arguments => !Function.isAggregate name arguments.length
  | .callOfAll name => !Function.isAggregate name 0
  | _ => true

namespace Result

/-- The name and the expression of a result that was given a name. -/
def named? : Result → Option (String × Expr)
  | expr e (some name) => some (Token.lowered name, e)
  | _ => none

/-- Whether a result computes something from a group of rows. -/
def isOfGroup : Result → Bool
  | expr e _ => e.isOfGroup
  | _ => false

/-- What a result is called. -/
def name (e : Expr) (label : Option String) : String :=
  match label, e with
  | some name, _ => Token.lowered name
  | none, .column _ name _ => Token.lowered name
  | none, _ => ""

end Result

/-- The expression that a key of an order or a group stands for: a result by its place or by its
name, or itself. -/
def resultKey (results : List Result) (byName : Bool) (e : Expr) : Expr :=
  match e with
  | .whole digits =>
    match results[digits.toNat?.getD 0 - 1]? with
    | some (.expr found _) => found
    | _ => e
  | .column none name _ =>
    if byName then
      ((results.filterMap Result.named?).find? (·.1 = Token.lowered name)).elim e (·.2)
    else e
  | _ => e

/-- The columns that two rows in sight share. -/
def sharedColumns (natural : Bool) (shared : List String) (before : List Sight)
    (rows : List Sight) : List String :=
  if natural then
    (rows.flatMap fun row => row.columns.map (·.name)).filter fun name =>
      before.any fun row => row.columns.any (·.name = name)
  else shared.map Token.lowered

/-- The columns of a query under other names, if they are given. -/
def renamed (names : List String) (columns : List Shown) : Option (List Shown) :=
  if names.isEmpty then some columns
  else if names.length ≠ columns.length then none
  else some ((names.zip columns).map fun (name, shown) =>
    { shown with name := Token.lowered name })

/-- The columns of rows in sight that a star stands for. -/
def starColumns (rows : List Sight) : List Shown :=
  rows.flatMap fun row => row.columns.filter fun shown => !row.hidden.contains shown.name

namespace Setting

mutual

/-- The kind of an expression; none if it is refused. Only where `group` is set may it compute
something from a group of rows. -/
def kindOf : (fuel : Nat) → Setting → Scope → (group : Bool) → Expr → Option Kind
  | 0, _, _, _, _ => none
  | fuel + 1, s, scope, group, e =>
    let ofParts := do return Kind.ofParts (← e.parts.mapM (kindOf fuel s scope group))
    let compared (a b : Expr) : Option Kind := do
      let left ← kindOf fuel s scope group a
      let right ← kindOf fuel s scope group b
      if left.collationWith right = .unknown then none
      return Kind.ofParts [left, right]
    match e with
    | .column table name inQuotes =>
      match scope.resolve table name with
      | .column _ affinity collation => some ⟨affinity, some (collation, false)⟩
      | .result e scope => kindOf fuel s scope group e
      | .manifold => none
      | .nothing =>
        if table.isNone && (inQuotes || ["true", "false"].contains (Token.lowered name)) then
          some .plain
        else none
    | .cast e type => do
      let kind ← kindOf fuel s scope group e
      return { kind with affinity := castAffinity type }
    | .collate e name => do
      let kind ← kindOf fuel s scope group e
      let collation := Collation.ofName name
      if collation = .unknown then none
      return { kind with collation := some (collation, true) }
    | .unary .plus e => do
      let kind ← kindOf fuel s scope group e
      return { kind with affinity := .none }
    | .binary op a b =>
      if [BinaryOp.eq, .ne, .is, .isNot, .lt, .le, .gt, .ge].contains op then compared a b
      else ofParts
    | .subquery q => do
      match ← columnsOf fuel s scope q with
      | [shown] => return ⟨shown.affinity, none⟩
      | _ => none
    | .exists q => do
      let _ ← columnsOf fuel s scope q
      return .plain
    | .inSelection e q => do
      let _ ← kindOf fuel s scope group e
      match ← columnsOf fuel s scope q with
      | [_] => return .plain
      | _ => none
    | .call name distinct arguments =>
      if Function.isAggregate name arguments.length then do
        if !group || (distinct && arguments.length ≠ 1) then none
        let _ ← arguments.mapM (kindOf fuel s scope false)
        return .plain
      else if Function.allows Function.scalars name arguments.length then ofParts
      else none
    | .callOfAll name =>
      if Function.isAggregate name 0 then if group then some .plain else none
      else if Function.allows Function.scalars name 0 then some .plain
      else none
    | .windowed _ _ => none
    | .row _ => none
    | .raise _ => if s.inTrigger then some .plain else none
    | _ => ofParts

/-- The columns of a query; none if it is refused. -/
def columnsOf : (fuel : Nat) → Setting → Scope → Selection → Option (List Shown)
  | 0, _, _, _ => none
  | fuel + 1, s, scope, q =>
    match q with
    | .values rows => do
      let kinds ← rows.mapM fun row => row.mapM (kindOf fuel s scope false)
      match kinds with
      | [] => none
      | first :: rest =>
        if rest.any (·.length ≠ first.length) then none
        return first.mapIdx fun i kind =>
          ⟨"column" ++ toString (i + 1), kind.affinity, kind.collation.elim .binary (·.1)⟩
    | .select _ results sources condition grouping having => do
      let rows ← sightsOf fuel s scope sources []
      let inner := ⟨rows, results.filterMap Result.named?⟩ :: scope
      let _ ← condition.toList.mapM (kindOf fuel s inner false)
      let _ ← grouping.mapM fun e => kindOf fuel s inner false (resultKey results true e)
      let _ ← having.toList.mapM (kindOf fuel s inner true)
      if having.isSome && grouping.isEmpty && !results.any Result.isOfGroup &&
          !having.any Expr.isOfGroup then none
      let columns ← results.mapM fun
        | .expr e label => do
          let kind ← kindOf fuel s inner true e
          return [⟨Result.name e label, kind.affinity, kind.collation.elim .binary (·.1)⟩]
        | .all => if rows.isEmpty then none else some (starColumns rows)
        | .allOf table =>
          match rows.filter (·.answersTo (some table)) with
          | [] => none
          | found => some (found.flatMap (·.columns))
      return columns.flatten
    | .compound _ a b => do
      let left ← columnsOf fuel s scope a
      let right ← columnsOf fuel s scope b
      if left.length ≠ right.length then none
      return left
    | .ordered q keys limit offset => do
      let columns ← columnsOf fuel s scope q
      let outermost := scope.drop (scope.length - 1)
      let _ ← (limit.toList ++ offset.toList).mapM (kindOf fuel s outermost false)
      match q with
      | .select _ results sources _ _ _ =>
        let rows ← sightsOf fuel s scope sources []
        let inner := ⟨rows, results.filterMap Result.named?⟩ :: scope
        let _ ← keys.mapM fun ⟨e, _, _⟩ => kindOf fuel s inner true (resultKey results true e)
      | _ =>
        let row : Sight := ⟨[], columns, [], false, none, []⟩
        let _ ← keys.mapM fun ⟨e, _, _⟩ => kindOf fuel s [⟨[row], []⟩] false e
      return columns
    | .naming names q => columnsOf fuel { s with named := names.reverse ++ s.named } scope q

/-- The rows that sources put in sight, without what they hold, after those `before` them; none if
they are refused. -/
def sightsOf : (fuel : Nat) → Setting → Scope → List Joined → (before : List Sight) →
    Option (List Sight)
  | 0, _, _, _, _ => none
  | _, _, _, [], before => some before
  | fuel + 1, s, scope, .mk source _ natural on shared :: rest, before => do
    let rows ← sourceOf fuel s scope source
    let hidden := sharedColumns natural shared before rows
    let rows := rows.map fun row => { row with hidden := row.hidden ++ hidden }
    let found := before ++ rows
    let _ ← on.toList.mapM (kindOf fuel s (⟨found, []⟩ :: scope) false)
    sightsOf fuel s scope rest found

/-- The rows that a source puts in sight, without what they hold; none if it is refused. -/
def sourceOf : (fuel : Nat) → Setting → Scope → Source → Option (List Sight)
  | 0, _, _, _ => none
  | fuel + 1, s, scope, source =>
    let ofColumns (name : String) (columns : List Shown) : List Sight :=
      [⟨[Token.lowered name], columns, [], false, none, []⟩]
    match source with
    | .table name label =>
      let shown := label.getD name
      match s.named.findIdx? (Token.lowered ·.1 = Token.lowered name) with
      | some i => do
        let (_, names, q) ← s.named[i]?
        let columns ← columnsOf fuel { s with named := s.named.drop (i + 1) } [] q
        return ofColumns shown (← renamed names columns)
      | none => do
        let table ← s.schema.table? name
        match table.kind with
        | .ordinary => return [table.sight [Token.lowered shown] false none []]
        | .external => none
        | .view names q =>
          if s.opened.contains table.name then none
          let columns ← columnsOf fuel
            { s with opened := table.name :: s.opened, named := [], inTrigger := false } [] q
          return ofColumns shown (← renamed names columns)
    | .selection q label => do return ofColumns (label.getD "") (← columnsOf fuel s scope q)
    | .group sources label => if label.isSome then none else sightsOf fuel s scope sources []
    | .call _ _ _ => none

end

end Setting

/-- How deep the forms of a statement may lie in one another. -/
def depthBound : Nat := 3000

end OwnershipLog
