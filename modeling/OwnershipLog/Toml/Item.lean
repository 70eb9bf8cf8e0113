import OwnershipLog.Toml.Moment

/-!
# Items and tables

An item is a value, a table, or an array of tables. A table remembers how it came
about, since that decides who may still add to it: a table with a header of its
own is closed to dotted keys, one that only lay on the way to another may get its
header later, and an inline table is complete as it stands.
-/

namespace OwnershipLog.Toml

/-- How a table came about. -/
inductive Origin where
  /-- It has a header of its own. -/
  | header
  /-- A header lies below it. -/
  | implied
  /-- A dotted key leads through it. -/
  | dotted
  /-- It is written in braces. -/
  | inline
deriving DecidableEq, Repr

/-- What a key can hold. -/
inductive Item where
  | string (text : String)
  | integer (n : Int)
  | float (x : Scientific)
  | boolean (b : Bool)
  | moment (m : Moment)
  | array (items : List Item)
  | table (origin : Origin) (entries : List (String × Item))
  /-- The tables of an array, newest first. -/
  | tables (elements : List (List (String × Item)))

/-- Named items. No name occurs twice. -/
abbrev Table := List (String × Item)

namespace Table

/-- Put `f` of what a name holds under that name, unless `f` refuses. -/
def rework (name : String) (f : Option Item → Option Item) : Table → Option Table
  | [] => do return [(name, ← f none)]
  | (key, item) :: entries =>
    if key = name then do return (name, ← f (some item)) :: entries
    else do return (key, item) :: (← rework name f entries)

/-- Put an item under a name that is still free. -/
def insertNew (name : String) (item : Item) : Table → Option Table :=
  rework name fun held => if held.isSome then none else some item

/-- Change the newest table of an array. -/
def onNewest (f : Table → Option Table) : List Table → Option Item
  | [] => none
  | newest :: older => do return .tables ((← f newest) :: older)

/-- Assign an item along a dotted key. The tables on the way are made if need be, and the last of
them must belong to dotted keys alone. -/
def assign (last : String) (item : Item) : (parents : List String) → Table → Option Table
  | [], entries => insertNew last item entries
  | name :: parents, entries =>
    entries.rework name fun
      | none => .table .dotted <$> assign last item parents []
      | some (.table .dotted inner) => .table .dotted <$> assign last item parents inner
      | some (.table .implied inner) =>
        if parents.isEmpty then none else .table .implied <$> assign last item parents inner
      | some (.tables elements) =>
        if parents.isEmpty then none else onNewest (assign last item parents) elements
      | some _ => none

/-- Change the table that a header's names lead to. An array of tables leads on to its newest. -/
def within (f : Table → Option Table) : (names : List String) → Table → Option Table
  | [], entries => f entries
  | name :: names, entries =>
    entries.rework name fun
      | none => .table .implied <$> within f names []
      | some (.table .inline _) => none
      | some (.table origin inner) => .table origin <$> within f names inner
      | some (.tables elements) => onNewest (within f names) elements
      | some _ => none

/-- Give a table its header. -/
def openTable (name : String) : Table → Option Table :=
  rework name fun
    | none => some (.table .header [])
    | some (.table .implied inner) => some (.table .header inner)
    | some _ => none

/-- Add a table to an array of tables. -/
def addElement (name : String) : Table → Option Table :=
  rework name fun
    | none => some (.tables [[]])
    | some (.tables elements) => some (.tables ([] :: elements))
    | some _ => none

theorem lookup_rework_self {name : String} {f : Option Item → Option Item} {entries after : Table}
    (h : entries.rework name f = some after) : after.lookup name = f (entries.lookup name) := by
  induction entries generalizing after with
  | nil =>
    simp only [rework, Option.pure_def, Option.bind_eq_bind, Option.bind_eq_some_iff,
      Option.some.injEq] at h
    obtain ⟨item, hf, rfl⟩ := h
    simp [hf]
  | cons entry entries ih =>
    obtain ⟨key, held⟩ := entry
    by_cases hk : key = name
    · simp only [rework, hk, if_true, Option.pure_def, Option.bind_eq_bind,
        Option.bind_eq_some_iff, Option.some.injEq] at h
      obtain ⟨item, hf, rfl⟩ := h
      simp [hk, hf]
    · simp only [rework, hk, if_false, Option.pure_def, Option.bind_eq_bind,
        Option.bind_eq_some_iff, Option.some.injEq] at h
      obtain ⟨rest, hrest, rfl⟩ := h
      have hne : (name == key) = false := by simpa using fun e => hk e.symm
      simp [List.lookup_cons, hne, ih hrest]

end Table

end OwnershipLog.Toml
