/-!
# AuditRelay.Relay.Ticker — what is due from time to time

A ticker is due at a deadline and then has its next one a period later. Deadlines that were missed
are not made up for: a late tick is followed by the next multiple of the period. Being late by no
more than a few milliseconds does not count. Times are in milliseconds.
-/

namespace AuditRelay

/-- Something that is due once in a period. -/
structure Ticker where
  period : Nat
  deadline : Nat
  deriving DecidableEq, Repr

namespace Ticker

/-- By how much a tick may be late and still counts as on time. -/
def tolerance : Nat := 5

/-- A ticker whose first tick comes after one period. -/
def start (now period : Nat) : Ticker := ⟨period, now + period⟩

def isDue (t : Ticker) (now : Nat) : Bool := t.deadline ≤ now

/-- The ticker after its tick. -/
def next (t : Ticker) (now : Nat) : Ticker :=
  if t.deadline + tolerance < now then
    { t with deadline := now + t.period - (now - t.deadline) % t.period }
  else { t with deadline := t.deadline + t.period }

end Ticker

end AuditRelay
