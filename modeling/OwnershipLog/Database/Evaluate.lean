import OwnershipLog.Database.Field
import OwnershipLog.Database.Meaning
import OwnershipLog.Database.Operator

/-!
# Evaluating expressions and queries

An expression is evaluated in a scope, a query against the database. Both have been
found to mean something before, so the kinds of their parts are known. A query
takes every combination of the rows of its sources, in the order of the sources.
-/

namespace OwnershipLog

namespace Table

/-- Where a column stands in the records of the table's rows. -/
def placeOf? (table : Table) (i : Nat) : Option Nat :=
  if table.withoutRowid then
    table.primaryKey?.bind fun index => index.all.findIdx? (·.field.column? = some i)
  else table.stored.idxOf? i

/-- A cursor for the rows of the table. -/
def cursor (table : Table) : Cursor := .unplaced table.root !table.withoutRowid

end Table

/-- Values that are computed from groups of rows are computed from these levels. -/
abbrev Group := Option (List Level)

/-- The text of a moment. The time is not read, so it is always the same. -/
def momentText : String → String
  | "current_date" => "1970-01-01"
  | "current_time" => "00:00:00"
  | _ => "1970-01-01 00:00:00"

/-- The words that ask for the moment by a function. -/
def momentOf? (encoding : TextEncoding) (name : String) (arguments : List Value) : Option Value :=
  let isNow := match arguments with
    | [] => true
    | [v] => v.codes encoding = Numeral.codesOf "now"
    | _ => false
  if !isNow then none
  else match name with
    | "date" => some (.ofString encoding (momentText "current_date"))
    | "time" => some (.ofString encoding (momentText "current_time"))
    | "datetime" => some (.ofString encoding (momentText ""))
    | "julianday" => some (.real 2440587.5)
    | "unixepoch" => some (.integer 0)
    | _ => none

/-- The truth that an expression names, unless it names a column. -/
def truthName? (scope : Scope) : Expr → Option Bool
  | .column none name false =>
    match scope.resolve none name, Token.lowered name with
    | .nothing, "true" => some true
    | .nothing, "false" => some false
    | _, _ => none
  | _ => none

/-- Whether two rows are equal. -/
def sameRow (encoding : TextEncoding) : List Collation → List Value → List Value → Bool
  | collation :: rest, v :: vs, w :: ws =>
    v.compare collation encoding w = .eq && sameRow encoding rest vs ws
  | _, _, _ => true

/-- Whether a value is among others, if that is known. -/
def Value.isAmong (encoding : TextEncoding) (affinity : Affinity) (collation : Collation)
    (v : Value) (choices : List Value) : Option Bool :=
  if choices.isEmpty then some false
  else if v.isNull then none
  else
    let same (w : Value) : Bool :=
      let (v, w) := v.comparable encoding affinity w
      !w.isNull && v.compare collation encoding w = .eq
    if choices.any same then some true
    else if choices.any Value.isNull then none
    else some false

/-- Whether rows that are joined agree on a column that they share. -/
def agreesOn (encoding : TextEncoding) (left right : List Sight) (name : String) : Bool :=
  let found (rows : List Sight) : Option Meaning :=
    rows.findSome? fun row => ({ row with hidden := [] } : Sight).column? none name
  match found left, found right with
  | some (.column v a c), some (.column w b d) =>
    let first : Kind := ⟨a, some (c, false)⟩
    let second : Kind := ⟨b, some (d, false)⟩
    let (v, w) := v.comparable encoding (first.affinityWith second) w
    !v.isNull && !w.isNull && v.compare (first.collationWith second) encoding w = .eq
  | _, _ => false

/-- Rows in groups of equal keys, in the order of the keys. -/
def grouped (encoding : TextEncoding) (collations : List Collation)
    (rows : List (Level × List Value)) : List (List Level) :=
  let rec order : List Collation → List Value → List Value → Ordering
    | collation :: rest, v :: vs, w :: ws =>
      (v.compare collation encoding w).then (order rest vs ws)
    | _, _, _ => .eq
  let sorted := rows.mergeSort fun a b => order collations a.2 b.2 ≠ .gt
  (sorted.splitBy fun a b => order collations a.2 b.2 = .eq).map (·.map (·.1))

/-- Values without those that equal an earlier one. -/
def distinctRows (same : List Value → List Value → Bool) (rows : List (List Value × List Value)) :
    List (List Value × List Value) :=
  (rows.foldl (fun found row => if found.any (same row.1 ·.1) then found else row :: found)
    []).reverse

namespace Paging

/-- The stored value of a column in the row under a cursor; none for one that is computed. -/
def storedColumn (encoding : TextEncoding) (table : Table) (c : Cursor) (i : Nat) :
    Paging Value := do
  if table.rowidColumn = some i then return .integer (← keyAt c)
  let column := table.column i
  match table.placeOf? i with
  | some place => return column.shown (← field c place (column.missing encoding))
  | none => return .null

/-- Values ordered by their keys. -/
def inOrder (encoding : TextEncoding) (keys : List (OrderTerm × Kind))
    (rows : List (List Value × List Value)) : List (List Value × List Value) :=
  let compareKey (key : OrderTerm × Kind) (a b : Value) : Ordering :=
    match key.1 with
    | .mk _ descending nullsFirst =>
      if a.isNull && b.isNull then .eq
      else if a.isNull then if nullsFirst then .lt else .gt
      else if b.isNull then if nullsFirst then .gt else .lt
      else
        let order := a.compare (key.2.collationWith .plain) encoding b
        if descending then order.swap else order
  let rec order : List (OrderTerm × Kind) → List Value → List Value → Ordering
    | key :: keys, a :: as, b :: bs => (compareKey key a b).then (order keys as bs)
    | _, _, _ => .eq
  rows.mergeSort fun a b => order keys a.2 b.2 ≠ .gt

/-- The value in an option, or a refusal. -/
def orRefused {α : Type} : Option α → Paging α
  | some a => return a
  | none => throw .refused

/-- What an action finds at a cursor and at all entries after it; at most `left` of them. -/
def walked {α : Type} (action : Cursor → Paging α) : (left : Nat) → Cursor → Paging (List α)
  | 0, _ => throw .corrupt
  | left + 1, c => do
    if !c.valid then return []
    let a ← action c
    return a :: (← walked action left (← next c))

mutual

/-- The value of an expression. -/
def eval : (fuel : Nat) → Setting → Scope → Group → Expr → Paging Value
  | 0, _, _, _, _ => throw .refused
  | fuel + 1, s, scope, group, e => do
    let encoding := s.schema.encoding
    let kind (e : Expr) : Kind := (s.kindOf fuel scope true e).getD .plain
    let truth (e : Expr) : Paging (Option Bool) := do
      return (← eval fuel s scope group e).truth encoding
    let ordered (a b : Expr) (v w : Value) : Ordering :=
      let left := kind a
      let right := kind b
      let (v, w) := v.comparable encoding (left.affinityWith right) w
      v.compare (left.collationWith right) encoding w
    let compared (op : BinaryOp) (a b : Expr) (v w : Value) : Option Bool :=
      if v.isNull || w.isNull then none else some (Value.holds op (ordered a b v w))
    match e with
    | .parameter => return s.parameter
    | .moment word => return .ofString encoding (momentText word)
    | .column table name inQuotes =>
      match scope.resolve table name with
      | .column v _ _ => return v
      | .result e scope => eval fuel s scope group e
      | _ =>
        if inQuotes then return .ofSpelled encoding name
        else orRefused (e.literal? encoding)
    | .unary .minus (.whole digits) =>
      return (Numeral.read (45 :: Numeral.codesOf digits)).value
    | .unary op e => return Value.unary encoding op (← eval fuel s scope group e)
    | .binary .and a b =>
      let left ← truth a
      if left = some false then return .ofBool false
      return .ofTruth (Value.both left (← truth b))
    | .binary .or a b =>
      let left ← truth a
      if left = some true then return .ofBool true
      return .ofTruth (Value.either left (← truth b))
    | .binary op a b =>
      let v ← eval fuel s scope group a
      if [BinaryOp.is, .isNot].contains op then
        match truthName? scope b with
        | some wanted =>
          return .ofBool ((v.truth encoding = some wanted) == (op matches .is))
        | none => pure ()
      let w ← eval fuel s scope group b
      if [BinaryOp.is, .isNot].contains op then
        return .ofBool (Value.holds op (ordered a b v w))
      else if [BinaryOp.eq, .ne, .lt, .le, .gt, .ge].contains op then
        return .ofTruth (compared op a b v w)
      else orRefused (Value.binary encoding op v w)
    | .between e low high =>
      let v ← eval fuel s scope group e
      let least := compared .ge e low v (← eval fuel s scope group low)
      let most := compared .le e high v (← eval fuel s scope group high)
      return .ofTruth (Value.both least most)
    | .inList e choices =>
      let v ← eval fuel s scope group e
      let found ← choices.mapM (eval fuel s scope group)
      let left := kind e
      return .ofTruth (v.isAmong encoding left.affinity (left.collationWith .plain) found)
    | .inSelection e q =>
      let v ← eval fuel s scope group e
      let rows ← rowsOf fuel s scope q
      let left := kind e
      let right : Kind := match s.columnsOf fuel scope q with
        | some (shown :: _) => ⟨shown.affinity, some (shown.collation, false)⟩
        | _ => .plain
      return .ofTruth (v.isAmong encoding (left.affinityWith right) (left.collationWith right)
        (rows.filterMap List.head?))
    | .call name distinct arguments =>
      if Function.isAggregate name arguments.length then
        let levels ← orRefused group
        let rows ← levels.mapM fun level =>
          arguments.mapM (eval fuel s (level :: scope.drop 1) none)
        orRefused (Function.aggregate encoding name distinct rows)
      else if name = "coalesce" || name = "ifnull" then firstPresent fuel s scope group arguments
      else
        let found ← arguments.mapM (eval fuel s scope group)
        let collation := (arguments.findSome? fun e => (kind e).collation).elim .binary (·.1)
        orRefused ((Function.apply encoding collation name found).or
          (momentOf? encoding name found))
    | .callOfAll name =>
      if Function.isAggregate name 0 then
        let levels ← orRefused group
        orRefused (Function.aggregate encoding name false (levels.map fun _ => []))
      else orRefused ((Function.apply encoding .binary name []).or (momentOf? encoding name []))
    | .case subject branches otherwise =>
      let v ← match subject with
        | some e => eval fuel s scope group e
        | none => pure .null
      let chosen ← branches.findM? fun (condition, _) => do
        let w ← eval fuel s scope group condition
        return match subject with
          | some e => compared .eq e condition v w = some true
          | none => w.truth encoding = some true
      match chosen, otherwise with
      | some (_, e), _ => eval fuel s scope group e
      | none, some e => eval fuel s scope group e
      | none, none => return .null
    | .cast e type => return (← eval fuel s scope group e).cast encoding (castAffinity type)
    | .collate e _ => eval fuel s scope group e
    | .exists q => return .ofBool !(← rowsOf fuel s scope q).isEmpty
    | .subquery q => return ((← rowsOf fuel s scope q).head?.bind List.head?).getD .null
    | .raise "ignore" => throw .skipped
    | .raise "rollback" => throw .undone
    | .raise "fail" => throw .stopped
    | .raise _ => throw .refused
    | e => orRefused (e.literal? encoding)
/-- The value of the first expression that has one. -/
def firstPresent : (fuel : Nat) → Setting → Scope → Group → List Expr → Paging Value
  | 0, _, _, _, _ => throw .refused
  | _, _, _, _, [] => return .null
  | fuel + 1, s, scope, group, e :: rest => do
    let v ← eval fuel s scope group e
    if v.isNull then firstPresent fuel s scope group rest else return v

/-- The rows of a query. -/
def rowsOf : (fuel : Nat) → Setting → Scope → Selection → Paging (List (List Value))
  | 0, _, _, _ => throw .refused
  | fuel + 1, s, scope, q => do
    let encoding := s.schema.encoding
    match q with
    | .values rows => rows.mapM fun row => row.mapM (eval fuel s scope none)
    | .select _ _ _ _ _ _ => return (← selected fuel s scope q []).map (·.1)
    | .compound op a b =>
      let left ← rowsOf fuel s scope a
      let right ← rowsOf fuel s scope b
      let columns := (s.columnsOf fuel scope a).getD []
      let same (x y : List Value) : Bool := sameRow encoding (columns.map (·.collation)) x y
      let once (rows : List (List Value)) : List (List Value) :=
        (distinctRows same (rows.map (·, []))).map (·.1)
      let sorted (rows : List (List Value)) : List (List Value) :=
        let keys := columns.map fun shown =>
          (OrderTerm.mk .null false true, Kind.mk .none (some (shown.collation, false)))
        (inOrder encoding keys (rows.map fun row => (row, row))).map (·.1)
      return match op with
        | .unionAll => left ++ right
        | .union => sorted (once (left ++ right))
        | .except => sorted (once (left.filter fun x => !right.any (same x)))
        | .intersect => sorted (once (left.filter fun x => right.any (same x)))
    | .ordered q keys limit offset =>
      let rows ← match q with
        | .select _ _ _ _ _ _ => selected fuel s scope q keys
        | _ =>
          let rows ← rowsOf fuel s scope q
          let columns := (s.columnsOf fuel scope q).getD []
          let keyed ← rows.mapM fun row => do
            let level : Level := ⟨[⟨[], columns, [], false, none, row⟩], []⟩
            let found ← keys.mapM fun
              | .mk (.whole digits) _ _ => pure (row.getD (digits.toNat?.getD 0 - 1) .null)
              | .mk e _ _ => eval fuel s [level] none e
            return (row, found)
          let level : Level := ⟨[⟨[], columns, [], false, none, []⟩], []⟩
          let kinds := keys.map fun
            | .mk e d n => (OrderTerm.mk e d n, (s.kindOf fuel [level] false e).getD .plain)
          pure (inOrder encoding kinds keyed)
      let outermost := scope.drop (scope.length - 1)
      let number (e : Expr) : Paging Int := do
        match (← eval fuel s outermost none e).numeral encoding with
        | .integer n => return n
        | _ => throw .refused
      let skipped ← match offset with
        | some e => number e
        | none => pure 0
      let rows := rows.drop skipped.toNat
      let rows ← match limit with
        | some e => do
          let n ← number e
          pure (if n < 0 then rows else rows.take n.toNat)
        | none => pure rows
      return rows.map (·.1)
    | .naming names q => rowsOf fuel { s with named := names.reverse ++ s.named } scope q

/-- The rows of a simple query in an order, each with its keys. -/
def selected : (fuel : Nat) → Setting → Scope → Selection → List OrderTerm →
    Paging (List (List Value × List Value))
  | fuel + 1, s, scope, .select distinct results sources condition grouping having, keys => do
    let encoding := s.schema.encoding
    let named := results.filterMap Result.named?
    let bare ← orRefused (s.sightsOf fuel scope sources [])
    let levelOf (rows : List Sight) : Level := ⟨rows, named⟩
    let joined ← joinedRows fuel s scope sources [] [[]]
    let meets (group : Group) (level : Level) (e : Option Expr) : Paging Bool :=
      match e with
      | none => return true
      | some e => do
        return (← eval fuel s (level :: scope) group e).truth encoding = some true
    let levels ← (joined.map levelOf).filterM fun level => meets none level condition
    let isOfGroup := !grouping.isEmpty || results.any Result.isOfGroup || having.isSome ||
      keys.any fun
        | .mk e _ _ => e.isOfGroup
    let outputs (level : Level) (group : Group) : Paging (List Value × List Value) := do
      let values ← results.mapM fun
        | .expr e _ => do return [← eval fuel s (level :: scope) group e]
        | .all => return (level.rows.flatMap fun row =>
            (row.columns.zip row.values).filterMap fun (shown, v) =>
              if row.hidden.contains shown.name then none else some v)
        | .allOf table =>
          return ((level.rows.filter (·.answersTo (some table))).flatMap (·.values))
      let found ← keys.mapM fun
        | .mk e _ _ => eval fuel s (level :: scope) group (resultKey results true e)
      return (values.flatten, found)
    let rows ←
      if !isOfGroup then levels.mapM (outputs · none)
      else do
        let groups ←
          if grouping.isEmpty then pure [levels]
          else do
            let terms := grouping.map (resultKey results true)
            let keyed ← levels.mapM fun level => do
              return (level, ← terms.mapM (eval fuel s (level :: scope) none))
            let kinds := terms.map fun e =>
              (s.kindOf fuel (levelOf bare :: scope) false e).getD .plain
            pure (grouped encoding (kinds.map (·.collationWith .plain)) keyed)
        let outputs ← groups.mapM fun levels => do
          let level := levels.getLast?.getD (levelOf bare)
          if ← meets (some levels) level having then
            return some (← outputs level (some levels))
          else return none
        pure (outputs.filterMap id)
    let columns := (s.columnsOf (fuel + 1) scope
      (.select distinct results sources condition grouping having)).getD []
    let rows :=
      if distinct then distinctRows (sameRow encoding (columns.map (·.collation))) rows else rows
    let kinds := keys.map fun
      | .mk e d n => (OrderTerm.mk e d n,
          (s.kindOf fuel (levelOf bare :: scope) true (resultKey results true e)).getD .plain)
    return if keys.isEmpty then rows else inOrder encoding kinds rows
  | _, _, _, _, _ => throw .refused

/-- The combinations of the rows of sources; `before` are those of earlier ones. -/
def joinedRows : (fuel : Nat) → Setting → Scope → List Joined → (bare : List Sight) →
    (before : List (List Sight)) → Paging (List (List Sight))
  | 0, _, _, _, _, _ => throw .refused
  | _, _, _, [], _, before => return before
  | fuel + 1, s, scope, .mk source outer natural on shared :: rest, bare, before => do
    let encoding := s.schema.encoding
    let shape ← orRefused (s.sourceOf fuel scope source)
    let hidden := sharedColumns natural shared bare shape
    let hide (rows : List Sight) : List Sight :=
      rows.map fun row => { row with hidden := row.hidden ++ hidden }
    let rows ← sourceRows fuel s scope source
    let found ← before.mapM fun left => do
      let fits ← (rows.map hide).filterM fun right => do
        let agrees := hidden.all (agreesOn encoding left right)
        match on with
        | some e =>
          return agrees &&
            (← eval fuel s (⟨left ++ right, []⟩ :: scope) none e).truth encoding = some true
        | none => return agrees
      if fits.isEmpty && outer then return [left ++ hide (shape.map Sight.bare)]
      else return fits.map (left ++ ·)
    joinedRows fuel s scope rest (bare ++ hide shape) found.flatten

/-- The rows of a source. -/
def sourceRows : (fuel : Nat) → Setting → Scope → Source → Paging (List (List Sight))
  | 0, _, _, _ => throw .refused
  | fuel + 1, s, scope, source => do
    let shape ← orRefused (s.sourceOf fuel scope source)
    let ofRows (rows : List (List Value)) : List (List Sight) :=
      rows.map fun row => shape.map fun sight => { sight with values := row }
    match source with
    | .table name label =>
      match s.named.findIdx? (Token.lowered ·.1 = Token.lowered name) with
      | some i =>
        match s.named[i]? with
        | some (_, _, q) =>
          return ofRows (← rowsOf fuel { s with named := s.named.drop (i + 1) } [] q)
        | none => throw .refused
      | none =>
        let table ← orRefused (s.schema.table? name)
        match table.kind with
        | .view _ q =>
          return ofRows (← rowsOf fuel
            { s with opened := table.name :: s.opened, named := [], inTrigger := false } [] q)
        | _ =>
          let c ← first table.cursor
          let image ← get
          let rows ← walked (tableRow fuel s table) ((image.count + 1) * image.usable) c
          return rows.map fun (key, values) =>
            [table.sight [Token.lowered (label.getD name)] false key values]
    | .selection q _ => return ofRows (← rowsOf fuel s scope q)
    | .group sources _ => joinedRows fuel s scope sources [] [[]]
    | .call _ _ _ => throw .refused

/-- The row of a table under a cursor, with its number if it has one. -/
def tableRow : (fuel : Nat) → Setting → Table → Cursor → Paging (Option Value × List Value)
  | 0, _, _, _ => throw .refused
  | fuel + 1, s, table, c => do
    let key ← if table.withoutRowid then pure none else (some ∘ .integer) <$> keyAt c
    let values ← (List.range table.columns.length).mapM
      (storedColumn s.schema.encoding table c)
    return (key, ← computedColumns fuel s table key values (fun column => column.isVirtual))

/-- The values of a row with those columns computed that are computed and chosen. A column may be
computed from others that are. -/
def computedColumns : (fuel : Nat) → Setting → Table → (key : Option Value) → List Value →
    (chosen : Column → Bool) → Paging (List Value)
  | 0, _, _, _, _, _ => throw .refused
  | fuel + 1, s, table, key, values, chosen => do
    let computed := (List.range table.columns.length).filterMap fun i =>
      let column := table.column i
      if chosen column then column.generated.map fun (e, _) => (i, column, e) else none
    let pass (values : List Value) : Paging (List Value) :=
      computed.foldlM (fun values (i, column, e) => do
        let level : Level := ⟨[table.sight [table.name] false key values], []⟩
        let v ← eval fuel s [level] none e
        return values.set i (v.preferring s.schema.encoding column.affinity)) values
    computed.foldlM (fun values _ => pass values) values

end

end Paging

end OwnershipLog
