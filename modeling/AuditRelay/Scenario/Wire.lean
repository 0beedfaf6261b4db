import AuditRelay.Broker.Link
import AuditRelay.Broker.Local

/-!
# AuditRelay.Scenario.Wire — a watched line to the broker

Between a link and the broker stands a line that notes every call with its time, can be slow, and
can have a quota: a number of publishes after which all are refused before they reach the broker.
-/

namespace AuditRelay.Scenario

/-- A broker behind a watched line. Times are in milliseconds from the start. -/
structure Wire where
  broker : LocalBroker
  uri : String
  queue : String
  now : Nat
  quota : Option Nat
  /-- How long a publish takes. -/
  delay : Nat
  /-- The noted calls, last first. -/
  log : List String

namespace Wire

/-- A quiet line. -/
def start (broker : LocalBroker) (uri queue : String) (available : Bool) (quota : Option Nat) :
    Wire :=
  ⟨{ broker with available }, uri, queue, 0, quota, 0, []⟩

/-- Takes note of a call. -/
def note (w : Wire) (text : String) : Wire :=
  { w with log := ("@" ++ toString w.now ++ " " ++ text) :: w.log }

/-- How a result is noted. -/
def mark {α : Type} : Except Fault α → String
  | .ok _ => "ok"
  | .error _ => "err"

def connect (w : Wire) : Except Fault Nat × Wire :=
  let (r, broker) := w.broker.connect w.queue w.now
  (r, { w with broker }.note ("connect " ++ w.uri ++ " " ++ w.queue ++ " " ++ mark r))

/-- Publishes at once. -/
def publishNow (w : Wire) (c : Nat) (e : Event) : Except Fault Unit × Wire :=
  let (r, w) : Except Fault Unit × Wire :=
    if w.quota = some 0 then (.error (.broker (.other "publish quota exhausted")), w)
    else
      let (r, broker) := w.broker.publish c e
      (r, { w with broker, quota := w.quota.map (· - 1) })
  (r, w.note ("publish " ++ e.id ++ " " ++ mark r))

def disconnect (w : Wire) (c : Nat) : Wire :=
  { w with broker := w.broker.disconnect c }.note "disconnect"

/-- The line as a link sees it. -/
def connector : Connector Wire where
  connect := connect
  isClosed c w := w.broker.isClosed c
  age c w := w.broker.age c w.now
  publish c e w := { w with now := w.now + w.delay }.publishNow c e
  disconnect c w := w.disconnect c

/-- The lines that have been noted after the first `n`. -/
def notedSince (w : Wire) (n : Nat) : List String :=
  (w.log.take (w.log.length - n)).reverse

end Wire

end AuditRelay.Scenario
