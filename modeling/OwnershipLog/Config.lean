import OwnershipLog.Error
import OwnershipLog.Text.Utf8
import OwnershipLog.Toml.Document

/-!
# Configuration

A configuration file names the store, the longest page of entries and the log
filter. Each may be left out; anything else in the file is refused, but inside the
description of the store only what is needed is looked at.
-/

namespace OwnershipLog

/-- Where the log is kept. -/
inductive Storage where
  /-- In memory. -/
  | memory
  /-- In a database in a file. -/
  | database (path : String)
deriving DecidableEq, Repr

namespace Storage

/-- The storage that a table describes. -/
def ofTable? (table : Toml.Table) : Option Storage :=
  match table.lookup "backend", table.lookup "path" with
  | some (.string "memory"), _ => some memory
  | some (.string "sqlite"), some (.string path) => some (database path)
  | _, _ => none

/-- The storage that an item describes: a table, or an array of the backend and its fields. -/
def ofItem? : Toml.Item → Option Storage
  | .table _ entries => ofTable? entries
  | .array [.string "memory"] => some memory
  | .array [.string "sqlite", .string path] => some (database path)
  | _ => none

end Storage

/-- The settings of a log. -/
structure Config where
  storage : Storage := .memory
  /-- The most entries in one answer. -/
  maxPage : UInt64 := 16
  logFilter : String := "info"
deriving DecidableEq, Repr

namespace Config

/-- The names that a configuration may hold. -/
def names : List String := ["storage", "max_page_size", "log_filter"]

/-- A page length: an integer that is not negative. -/
def pageOf? : Toml.Item → Option UInt64
  | .integer n => if 0 ≤ n then some n.toNat.toUInt64 else none
  | _ => none

/-- A log filter: any string. -/
def filterOf? : Toml.Item → Option String
  | .string text => some text
  | _ => none

/-- What `read` makes of a setting, or the default where it is left out. -/
def setting? {α : Type} (table : Toml.Table) (name : String) (default : α)
    (read : Toml.Item → Option α) : Option α :=
  match table.lookup name with
  | none => some default
  | some item => read item

/-- The configuration that a table describes. -/
def ofTable? (table : Toml.Table) : Option Config :=
  if table.all fun (name, _) => names.contains name then do
    let storage ← setting? table "storage" .memory Storage.ofItem?
    let maxPage ← setting? table "max_page_size" 16 pageOf?
    let logFilter ← setting? table "log_filter" "info" filterOf?
    return ⟨storage, maxPage, logFilter⟩
  else none

/-- A configuration with empty pages is refused. -/
def validate (config : Config) : Except ConfigError Unit :=
  if config.maxPage = 0 then .error .zeroPage else .ok ()

/-- The configuration that a text spells. -/
def ofText (text : String) : Except ConfigError Config :=
  match Toml.parse? text >>= ofTable? with
  | none => .error .invalid
  | some config => config.validate.map fun _ => config

/-- The configuration in a file, given its bytes if there is such a file. -/
def ofFile (bytes : Option Bytes) : Except ConfigError Config :=
  match bytes >>= text? with
  | none => .error .unreadable
  | some text => ofText text

end Config

end OwnershipLog
