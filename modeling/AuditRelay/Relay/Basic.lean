import AuditRelay.Relay.Ticker
import AuditRelay.Relay.Courier
import AuditRelay.Settings

/-!
# AuditRelay.Relay.Basic — the relay loop

A free relay takes up what is ready, and the more urgent of two: a pass over the store that is due,
then a refresh of the metrics that is due, then an event at the intake. It stops only when it is
told to; when nobody can hand in more events it goes on with its passes.
-/

namespace AuditRelay

/-- A relay with its tickers. -/
structure Relay where
  courier : Courier
  drain : Ticker
  metrics : Ticker
  deriving DecidableEq, Repr

namespace Relay

/-- A relay that starts now; its periods must not be zero. -/
def start? (settings : RelaySettings) (counters : RelayCounters) (now : Nat) : Option Relay :=
  if settings.drainPeriod = 0 || settings.metricsPeriod = 0 then none
  else
    some ⟨.create settings.maxAge counters, .start now settings.drainPeriod,
      .start now settings.metricsPeriod⟩

/-- What a free relay takes up now, if anything is ready. -/
def select (r : Relay) (i : Intake) (now : Nat) : Option (Relay × Intake) :=
  if r.drain.isDue now then
    some ({ r with drain := r.drain.next now, courier := r.courier.beginPass }, i)
  else if r.metrics.isDue now then
    some ({ r with metrics := r.metrics.next now, courier := r.courier.beginRefresh }, i)
  else if r.courier.isReceiving then
    match i.take with
    | some (m, i) => some ({ r with courier := r.courier.receive m.event }, i)
    | none =>
      if i.isExhausted then some ({ r with courier := r.courier.stopReceiving }, i) else none
  else none

end Relay

end AuditRelay
