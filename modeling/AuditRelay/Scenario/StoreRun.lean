import AuditRelay.Scenario.Bench
import AuditRelay.Scenario.Directory

/-!
# AuditRelay.Scenario.StoreRun — a script for one store

The script works on the store in use and on the watched directory. The directory is listed before
and after every step, which is when stamps get their numbers.
-/

namespace AuditRelay.Scenario

/-- A step of a script. -/
inductive StoreRunStep where
  | store (step : StoreStep)
  | change (step : FileStep)
  | modes
  | dump

/-- What a step shows. -/
inductive StoreRunResult where
  | store (r : StoreResult)
  | changed (done : Bool)
  | modes (xs : List (String × String))
  | dump (xs : List (String × Dumped))

/-- A bench and the stamps that listings have shown. -/
structure StoreRun where
  bench : Bench
  seen : Stamps

/-- The change with its names resolved. -/
def FileStep.resolve (seen : Stamps) : FileStep → FileStep
  | .put name contents => .put (seen.resolve name) contents
  | .append name contents => .append (seen.resolve name) contents
  | .truncate name size => .truncate (seen.resolve name) size
  | .rename name destination => .rename (seen.resolve name) (seen.resolve destination)
  | .remove name => .remove (seen.resolve name)
  | .makeDirectory name => .makeDirectory (seen.resolve name)
  | .removeDirectory name => .removeDirectory (seen.resolve name)
  | .link name target => .link (seen.resolve name) (seen.resolve target)
  | step => step

namespace StoreRun

/-- A run in empty surroundings. -/
def start : StoreRun := ⟨.empty (site none), []⟩

/-- The parameters of a store that a run can open; there is no database for a store in a table. -/
def parameters (spec : StoreSpec) : Except Fault StoreParameters := do
  match ← StoreParameters.ofSpec spec with
  | .sql _ => .error (.unknownStoreType spec.kind)
  | p => return p

/-- Looks at the directory. -/
def look (run : StoreRun) : StoreRun :=
  { run with seen := run.seen.see ((entries run.bench.site.root).map Prod.fst) }

/-- The listing that the script sees. -/
def files (run : StoreRun) : List (String × Listed) :=
  listing run.seen (entries run.bench.site.root)

/-- The contents that the script sees. -/
def dumped (run : StoreRun) : List (String × Dumped) :=
  dump run.seen (entries run.bench.site.root)

/-- Makes a change from outside. -/
def change (run : StoreRun) (step : FileStep) : Bool × StoreRun :=
  match (step.resolve run.seen).apply run.bench.site.root with
  | none => (false, run)
  | some root => (true, { run with
      bench := { run.bench with site := { run.bench.site with root } } })

/-- Performs a step between two looks at the directory. -/
def step (run : StoreRun) (s : StoreRunStep) : StoreRunResult × StoreRun :=
  let run := run.look
  match s with
  | .store s =>
    let (r, bench) := run.bench.step s
    (.store r, { run with bench }.look)
  | .change s =>
    let (done, run) := run.change s
    (.changed done, run.look)
  | .modes => (.modes (modes run.seen run.bench.site.root), run)
  | .dump => (.dump run.dumped, run)

/-- Opens the first store. -/
def create (run : StoreRun) (params : Except Fault StoreParameters) :
    Except Fault Unit × StoreRun :=
  let (r, bench) := run.bench.create params []
  (r, { run with bench }.look)

end StoreRun

end AuditRelay.Scenario
