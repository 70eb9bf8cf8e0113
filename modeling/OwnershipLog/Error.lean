import OwnershipLog.Store.Error

/-!
# Errors of the log

`LogError` collects what an operation of the log can answer instead of a result:
a value with no byte form, a store that cannot answer, a request outside the log,
a payload that cannot be sealed, or a configuration that cannot be used.
-/

namespace OwnershipLog

/-- Why a range of entries is refused before the log is looked at. -/
inductive RangeFault where
  /-- The end does not lie after the start. -/
  | empty
  /-- The range is longer than a page. -/
  | exceedsPage
deriving DecidableEq, Repr

/-- The wording of each fault. -/
def RangeFault.message : RangeFault → String
  | empty => "end must be greater than start"
  | exceedsPage => "range exceeds page size"

/-- Why a configuration cannot be used. -/
inductive ConfigError where
  /-- The file cannot be read as text. -/
  | unreadable
  /-- The text is no configuration. -/
  | invalid
  /-- Pages would be empty. -/
  | zeroPage
deriving DecidableEq, Repr

/-- The wording of each cause. -/
def ConfigError.message : ConfigError → String
  | unreadable => "failed to read"
  | invalid => "invalid TOML"
  | zeroPage => "max_page_size must be positive"

/-- Why an operation of the log has no result. -/
inductive LogError where
  | codec (cause : WireError)
  | store (cause : StoreError)
  | indexOutOfRange (index size : UInt64)
  | invalidRange (start stop : UInt64) (fault : RangeFault)
  | invalidContentHash (length : Nat)
  | encryption
  | config (cause : ConfigError)
deriving DecidableEq, Repr

/-- The wording of each cause. -/
def LogError.message : LogError → String
  | codec cause => "malformed input: " ++ cause.message
  | store cause => "storage error: " ++ cause.message
  | indexOutOfRange index size =>
    s!"index out of range: {index.toNat} not in [0, {size.toNat})"
  | invalidRange start stop fault =>
    s!"invalid range [{start.toNat}, {stop.toNat}): {fault.message}"
  | invalidContentHash length => s!"invalid content hash: expected 32 bytes got {length}"
  | encryption => "payload encryption failed"
  | config cause => "config error: " ++ cause.message

end OwnershipLog
