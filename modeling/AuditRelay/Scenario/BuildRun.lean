import AuditRelay.Scenario.Directory
import AuditRelay.Scenario.TableRun

/-!
# AuditRelay.Scenario.BuildRun — opening stores from one spec

A spec is built several times over with the same registry and in the same surroundings, so that all
but the first store of a kind meet the metrics of an earlier one. A host's own kinds of store are
stores in memory whose limit has a parameter of its own.
-/

namespace AuditRelay.Scenario

/-- The limit that the parameters of a host's own store set. -/
def ownLimit : Json → Option Nat
  | .object ms =>
    match Named.get? ms "capacity" with
    | some (.number (.int (.ofNat n))) => some n
    | _ => none
  | _ => none

/-- A host's own way to open a store. -/
def ownStore : Constructor := fun params r =>
  let (result, r) := MemoryStore.create ⟨ownLimit params⟩ r
  (result.map .memory, r)

/-- Kinds of store that a host adds under some names. -/
def ownKinds (names : List String) : Assembly :=
  Named.ofList (names.map (·, ownStore))

/-- Whether the store of a spec is of a host's own kind. -/
def isOwn (own : Assembly) (spec : StoreSpec) : Bool :=
  (Named.get? own spec.kind).isSome

/-- What has been built. -/
structure BuildRun where
  results : List (Except Fault Store)
  registry : Registry
  site : Site

namespace BuildRun

/-- Surroundings in which nothing has been built, with a database or without. -/
def start (hasDatabase : Bool) : BuildRun :=
  ⟨[], [], Scenario.site (if hasDatabase then some (database {}) else none)⟩

/-- Builds the spec once more. -/
def once (own : Assembly) (spec : StoreSpec) (run : BuildRun) : BuildRun :=
  let (result, registry, site) := own.build spec run.registry run.site
  ⟨run.results ++ [result], registry, site⟩

/-- Builds the spec some more times. -/
def repeated (own : Assembly) (spec : StoreSpec) (run : BuildRun) : Nat → BuildRun
  | 0 => run
  | n + 1 => (run.once own spec).repeated own spec n

/-- What the stores that were opened report. -/
def samples (run : BuildRun) : List Sample :=
  run.results.flatMap fun
    | .ok s => s.counters.samples
    | .error _ => []

/-- The families that the registry shows, by name. -/
def families (run : BuildRun) : List Family :=
  (run.registry.reporting run.samples).mergeSort fun a b => a.name ≤ b.name

end BuildRun

end AuditRelay.Scenario
