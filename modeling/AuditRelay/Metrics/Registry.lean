import AuditRelay.Decimal.Double
import AuditRelay.Fault

/-!
# AuditRelay.Metrics.Registry — which metrics a host exposes

A registry lists the families of metrics that its collectors have registered, each name once. A
group of families is registered one after the other, so a refusal half-way leaves the earlier ones
in place (`registerAll`). Values are kept exactly and rounded only when they are reported.
-/

namespace AuditRelay

inductive MetricKind where
  | counter
  | gauge
  deriving DecidableEq, Repr

/-- A named family of metrics. -/
structure Family where
  name : String
  kind : MetricKind
  help : String
  deriving DecidableEq, Repr

/-- The registered families, oldest first. -/
abbrev Registry := List Family

/-- A value that a registered collector reports. -/
structure Sample where
  name : String
  operation : Option FailurePoint
  value : Int
  deriving DecidableEq, Repr

namespace Sample

/-- The largest value that is reported. -/
def maxReported : Nat := Nat.pow 2 63 - 1

/-- The value as it is reported: values travel as doubles and are read as whole numbers of 64
bits. -/
def reported (s : Sample) : Sample :=
  { s with value := s.value.sign * (min maxReported (Double.nearestNat s.value.natAbs) : Nat) }

end Sample

namespace Registry

def contains (r : Registry) (name : String) : Bool :=
  r.any fun f => f.name == name

def register (r : Registry) (f : Family) : Except RegistryFault Registry :=
  if r.contains f.name then .error .duplicate else .ok (r ++ [f])

/-- Registers families in order, up to the first that is refused. -/
def registerAll (r : Registry) : List Family → Except RegistryFault Unit × Registry
  | [] => (.ok (), r)
  | f :: fs =>
    match r.register f with
    | .ok r => registerAll r fs
    | .error e => (.error e, r)

/-- The samples whose family is registered, as they are reported. -/
def gather (r : Registry) (samples : List Sample) : List Sample :=
  (samples.filter fun s => r.contains s.name).map Sample.reported

/-- The families that report at least one of the samples. -/
def reporting (r : Registry) (samples : List Sample) : List Family :=
  r.filter fun f => samples.any fun s => s.name == f.name

end Registry

end AuditRelay
