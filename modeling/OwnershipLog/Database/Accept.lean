import OwnershipLog.Database.Write

/-!
# What statements are accepted

A statement that changes rows is refused as a whole, before any row is read, if it
or a trigger that it can set off asks for what is not there. `accepts` says whether
rows of a table can be changed at all; `canAbort` whether a change can be given up
half way, so that what it has done must be undone.
-/

namespace OwnershipLog

namespace Table

/-- Whether all that a table computes from its rows can be computed. A statement may change some
columns only. -/
def isSound (table : Table) (s : Setting) (changed : Option (List String)) : Bool :=
  let scope : Scope := [⟨[table.sight [table.name] false none []], []⟩]
  let computed := table.checks ++ table.columns.filterMap (·.generated.map (·.1)) ++
    table.indexes.flatMap fun index =>
      index.condition.toList ++ index.all.filterMap fun key =>
        match key.field with
        | .expr e => some e
        | _ => none
  (computed.all fun e => (s.kindOf depthBound scope false e).isSome) &&
    table.indexes.all (!·.isUnordered) && s.schema.hasSoundReferences table changed s.single

/-- The column that a statement may set under a name; the number of the row is none. -/
def target? (table : Table) (name : String) : Option (Option Nat) :=
  match table.column? name with
  | some i => if (table.column i).generated.isSome then none else some (some i)
  | none => if table.isRowid name then some none else none

end Table

/-- Whether a row with a key and a value can be put into a table without any change of another row:
no trigger is set off, and the row takes no key from another one. -/
def Schema.keepsOthers (schema : Schema) (table : Table) : Bool :=
  !(schema.triggers.any fun trigger => trigger.table = table.name && Event.insert.setsOff trigger) &&
    !(table.indexes.any (·.unique)) &&
    !(table.rowidColumn.any fun i => ["key", "value"].contains (table.column i).name)

namespace Setting

/-- Whether rows of a table or a view can be changed. -/
def mayChange (s : Setting) (table : Table) (event : Event) : Bool :=
  match table.kind with
  | .external => false
  | .ordinary =>
    let changed := match event with
      | .update names => some names
      | _ => none
    table.root ≠ 1 && table.isSound s changed
  | .view _ _ => !(s.schema.triggersFor table event .instead).isEmpty

/-- The names of the columns of a table or a view. -/
def namesOf (s : Setting) (table : Table) : List String :=
  match s.sourceOf depthBound [] (.table table.name none) with
  | some rows => (rows.flatMap (·.columns)).map (·.name)
  | none => []

mutual

/-- Whether something can be done to rows of a table, as far as the triggers go that it sets off;
those in `seen` have been found to do. -/
def accepts : (fuel : Nat) → Setting → (seen : List String) → Table → Event → Bool
  | 0, _, _, _, _ => false
  | fuel + 1, s, seen, table, event =>
    let isInsertion := match event with
      | .insert => true
      | _ => false
    s.mayChange table event &&
      (!(isInsertion && table.autoincrement) || s.schema.sequences?.isSome) &&
      (s.schema.triggers.filter fun trigger =>
        trigger.table = table.name && event.setsOff trigger && !seen.contains trigger.name).all
          fun trigger =>
            let s := { s with inTrigger := true }
            let row (name : String) : Sight := match table.kind with
              | .view _ _ => ⟨[name], (s.namesOf table).map fun column =>
                  ⟨column, .none, .binary⟩, [], true, none, []⟩
              | _ => table.sight [name] true none []
            let rows := match event with
              | .insert => [row "new"]
              | .delete => [row "old"]
              | .update _ => [row "new", row "old"]
            let scope : Scope := [⟨rows, []⟩]
            (trigger.condition.all fun e => (s.kindOf depthBound scope false e).isSome) &&
              trigger.steps.all (acceptsStep fuel s (trigger.name :: seen) scope)

/-- Whether a step of a trigger can be done. -/
def acceptsStep : (fuel : Nat) → Setting → (seen : List String) → Scope → Step → Bool
  | 0, _, _, _, _ => false
  | fuel + 1, s, seen, scope, step =>
    let isKnown (scope : Scope) (e : Expr) : Bool := (s.kindOf depthBound scope false e).isSome
    match step with
    | .select q => (s.columnsOf depthBound scope q).isSome
    | .insert _ name columns q upsert =>
      match s.schema.table? name, s.columnsOf depthBound scope q with
      | some table, some found =>
        let open' := table.columns.filter (·.generated.isNone)
        let count :=
          if !columns.isEmpty then columns.length
          else if table.isView then (s.namesOf table).length
          else open'.length
        let named := columns.all fun name =>
          if table.isView then (s.namesOf table).contains (Token.lowered name)
          else (table.target? name).isSome
        !upsert && named && found.length = count && accepts fuel s seen table .insert
      | _, _ => false
    | .delete name condition =>
      match s.schema.table? name, s.sourceOf depthBound scope (.table name none) with
      | some table, some rows =>
        condition.all (isKnown (⟨rows, []⟩ :: scope)) && accepts fuel s seen table .delete
      | _, _ => false
    | .update _ name changes sources condition =>
      match s.schema.table? name, s.sourceOf depthBound scope (.table name none) with
      | some table, some rows =>
        let inner := ⟨rows, []⟩ :: scope
        let names := changes.flatMap (·.1)
        let named := names.all fun name =>
          if table.isView then (s.namesOf table).contains (Token.lowered name)
          else (table.target? name).isSome
        let sound := changes.all fun (targets, e) =>
          match targets, e with
          | [_], e => isKnown inner e
          | targets, .row es => targets.length = es.length && es.all (isKnown inner)
          | _, _ => false
        sources.isEmpty && named && sound && condition.all (isKnown inner) &&
          accepts fuel s seen table (.update (names.map Token.lowered))
      | _, _ => false

end

/-- Whether a value in an expression can end a statement and undo it. -/
def aborts (e : Expr) : Bool := !e.everywhere fun
  | .raise "abort" => false
  | _ => true

/-- Whether a row of a table can turn out not to be allowed. -/
def isBound (s : Setting) (table : Table) : Bool :=
  s.schema.isReferring table || !table.checks.isEmpty ||
    (List.range table.columns.length).any fun i =>
      (table.column i).notNull && table.rowidColumn ≠ some i

/-- Whether a change of rows of a table can be given up half way. -/
def canAbort (s : Setting) (table : Table) (event : Event) : Bool :=
  s.isBound table || (s.schema.triggers.any fun trigger =>
    trigger.table = table.name && event.setsOff trigger &&
      (trigger.condition.any aborts || trigger.steps.any fun
        | .select (.select _ results _ condition _ _) =>
          condition.any aborts || results.any fun
            | .expr e _ => aborts e
            | _ => false
        | .insert _ name _ _ _ => (s.schema.table? name).any s.isBound
        | .update _ name _ _ _ => (s.schema.table? name).any s.isBound
        | _ => false))

end Setting

namespace Paging

/-- Begin to write: the header must know how many pages there are. -/
def beginWriting : Paging Unit := do
  let image ← get
  if image.header 28 ≠ image.count then setHeader 28 image.count

/-- Run a statement that changes rows. If it is not allowed nothing stays of it; if the pages
contradict themselves, only what is `kept` stays. -/
def statement (undoing : Bool) (action : Paging Unit) : Paging Unit := do
  modify Image.atRest
  let before ← get
  let restore : Paging Unit := modify fun image => { image with
    pages := before.pages
    count := before.count
    owed := before.owed
    counted := image.counted.filter fun n _ => image.page n == before.page n }
  let run : Paging Unit := do
    action
    if 0 < (← get).due then throw .refused
  tryCatch run fun fault => do
    match fault with
    | .refused => restore
    | .corrupt => if undoing then restore
    | .entryMissing => if undoing then restore
    | _ => pure ()
    modify Image.atRest
    throw fault
  modify Image.atRest

/-- File a value under a key. -/
def put (schema : Schema) (key value : Value) : Paging Unit := do
  let table ← orRefused (schema.table? bindings)
  let s := { schema.setting with single := schema.keepsOthers table }
  let names := s.namesOf table
  let named := ["key", "value"].all fun name =>
    if table.isView then names.contains name else (table.target? name).isSome
  if !named || !s.accepts depthBound [] table .insert then throw .refused
  if (← get).readOnly then throw .refused
  let undoing := schema.isProgrammed table .insert && s.canAbort table .insert
  statement undoing do
    beginWriting
    insertInto depthBound ⟨s, [], true⟩ table ["key", "value"] [key, value]

end Paging

end OwnershipLog
