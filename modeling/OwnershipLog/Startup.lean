import OwnershipLog.Config
import OwnershipLog.Service
import OwnershipLog.Store.Durable
import OwnershipLog.Store.Versioned

/-!
# Starting from a configuration

The configuration decides which store a log is kept in. It is checked before the
store is opened.
-/

namespace OwnershipLog

/-- Open the store that is asked for. A store in memory starts empty; a database is opened at what
stands at its path. -/
def Storage.openStore (storage : Storage) (site : Durable.Site) :
    Except StoreError (Versioned ⊕ Durable) :=
  match storage with
  | memory => .ok (.inl .empty)
  | database _ => (Durable.ofSite site).map .inr

/-- Serve the log that a configuration describes, given what stands at the database's path. -/
def Service.ofConfig (now : Timestamp) (keys : KeyMaterial) (config : Config)
    (site : Durable.Site) : Except LogError (Service Versioned ⊕ Service Durable) := do
  config.validate.mapError .config
  match ← (config.storage.openStore site).mapError .store with
  | .inl store => .inl <$> (Service.start now keys config.maxPage store).1
  | .inr store => .inr <$> (Service.start now keys config.maxPage store).1

end OwnershipLog
