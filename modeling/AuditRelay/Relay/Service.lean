import AuditRelay.Relay.Basic
import AuditRelay.Store.Assembly

/-!
# AuditRelay.Relay.Service — starting a relay from its settings

First the store of the settings is opened, then the metrics of the loop are registered. A start that
fails leaves what it has registered and created.
-/

namespace AuditRelay

/-- What a relay is started with. -/
structure Service where
  store : Store
  counters : RelayCounters
  deriving DecidableEq, Repr

namespace Service

/-- Opens the store and registers the metrics. -/
def start (own : Assembly) (settings : Settings) (r : Registry) (site : Site) :
    Except Fault Service × Registry × Site :=
  match own.build settings.store r site with
  | (.error f, r, site) => (.error f, r, site)
  | (.ok store, r, site) =>
    match RelayCounters.register r with
    | (.error f, r) => (.error f, r, site)
    | (.ok counters, r) => (.ok ⟨store, counters⟩, r, site)

end Service

end AuditRelay
