import AuditRelay.Proofs.Store.Housing
import AuditRelay.Proofs.Store.Session

/-!
# AuditRelay.Proofs.Store.Depot — a directory with any number of batches out

A `Session` lets one batch out at a time. Nothing keeps a host from reading again before it has
committed or dropped a batch; it then has several, some of one file, and may resolve them in any
order. `Depot.Step` is one operation with any number of batches out, and a step of a session is one
of them (`Session.Step.depot`).
-/

namespace AuditRelay

/-- A directory, the spool that is open in it, and the batches that are out. -/
structure Depot where
  spool : Option Spool
  disk : Disk
  out : List Outstanding

namespace Depot

/-- A directory in which no spool is open yet. -/
def start (d : Disk) : Depot := ⟨none, d, []⟩

/-! ## After an operation -/

def written (x : Depot) (s : Spool) (e : Event) : Depot :=
  { x with spool := some (s.write x.disk e).2.1, disk := (s.write x.disk e).2.2 }

def fetched (x : Depot) (s : Spool) : Depot :=
  ⟨some (s.nextBatch x.disk).2.1, (s.nextBatch x.disk).2.2,
    (Session.brought (s.nextBatch x.disk).1).toList ++ x.out⟩

def committed (x : Depot) (s : Spool) (q : Outstanding) (name : String) : Depot :=
  ⟨some (s.commit x.disk name).2.1, (s.commit x.disk name).2.2, x.out.erase q⟩

/-- The open spool hears nothing of a batch that another one has read. -/
def committedFormer (x : Depot) (former : Spool) (q : Outstanding) (name : String) : Depot :=
  ⟨x.spool, (former.commit x.disk name).2.2, x.out.erase q⟩

def refreshed (x : Depot) (s : Spool) : Depot :=
  { x with spool := some (s.refreshGauges x.disk).2.1, disk := (s.refreshGauges x.disk).2.2 }

/-- A spool takes the place of the one that was open, unless it could not be opened. -/
def replaced (x : Depot) (params : SpoolParameters) (registry : Registry) : Depot :=
  match Spool.create params registry x.disk with
  | (.ok s, _, d) => ⟨some s, d, x.out.map (Outstanding.keep · x.spool)⟩
  | (.error _, _, d) => { x with disk := d }

/-- One operation. -/
inductive Step (x : Depot) : Exchange → Depot → Prop where
  | write (s : Spool) (h : x.spool = some s) (e : Event) :
      Step x (.write e (s.write x.disk e).1) (x.written s e)
  | read (s : Spool) (h : x.spool = some s) : Step x (.read (s.nextBatch x.disk).1) (x.fetched s)
  | commit (s : Spool) (b : Batch) (name : String) (h : x.spool = some s)
      (hq : ⟨b, none⟩ ∈ x.out) (ht : b.token = .file name) :
      Step x (.commit (s.commit x.disk name).1) (x.committed s ⟨b, none⟩ name)
  | commitFormer (former : Spool) (b : Batch) (name : String) (hq : ⟨b, some former⟩ ∈ x.out)
      (ht : b.token = .file name) :
      Step x (.commit (former.commit x.disk name).1) (x.committedFormer former ⟨b, some former⟩ name)
  | drop (q : Outstanding) (hq : q ∈ x.out) : Step x .drop { x with out := x.out.erase q }
  | refresh (s : Spool) (h : x.spool = some s) :
      Step x (.refresh (s.refreshGauges x.disk).1) (x.refreshed s)
  | close (s : Spool) (h : x.spool = some s) : Step x .close { x with spool := some s.close }
  /-- A spool is opened by a path that leads to the same directory. -/
  | opened (params : SpoolParameters) (registry : Registry)
      (hr : Disk.reach x.disk.host.pathLimit x.disk.root (params.directory.getD "") =
        x.disk.directory) :
      Step x (.opened ((Spool.create params registry x.disk).1.map fun _ => ()))
        (x.replaced params registry)

/-- A run of operations, each of which keeps to what is asked of it and of the depot after it. -/
abbrev Runs (ok : Exchange → Depot → Prop) : Depot → Depot → Prop :=
  Relation.ReflTransGen fun x y => ∃ l, Step x l y ∧ ok l y

end Depot

/-! ## Directories to start from -/

/-- A directory with these entries and with room for long names. -/
def Place.holding (es : Entries) : Place := ⟨⟨["q"], 40⟩, 4000, es⟩

/-- The directory on a host that refuses no call and whose clock stands still. -/
def Disk.holding (es : Entries) : Disk :=
  ⟨.directory [("q", .directory es Disk.privateDirectory)] Disk.privateDirectory,
    .ok (Place.holding es).reached, (Place.holding es).room, ⟨fun _ => none, fun _ => 0, 4095⟩, 0, 0⟩

theorem Disk.holding_shows {es : Entries} (ho : Named.IsOrdered es) :
    (Disk.holding es).Shows (.holding es) es :=
  ⟨rfl, rfl, ⟨Disk.privateDirectory, rfl⟩, ho, fun _ => rfl⟩

theorem Place.isUnlinked_holding {es : Entries} (h : ∀ f ∈ es, ∀ target, f.2 ≠ .link target) :
    (Place.holding es).IsUnlinked := by
  have hnone : ∀ name target, Named.get? es name ≠ some (.link target) := by
    intro name target ht
    exact h _ (Named.mem_of_get? ht) target rfl
  exact ⟨fun name _ => hnone name, fun n => hnone _⟩

/-- A spool is opened in the directory. -/
def Depot.fresh (es : Entries) : Depot :=
  (Depot.start (.holding es)).replaced ⟨some "q", none, none⟩ []

/-- A session as a depot. -/
def Session.depot (x : Session) : Depot := ⟨x.spool, x.disk, x.batch.toList⟩

/-- A step of a session is a step with any number of batches out. -/
theorem Session.Step.depot {x y : Session} {l : Exchange} (h : Session.Step x l y) :
    Depot.Step x.depot l y.depot := by
  cases h with
  | write s hs e => exact .write (x := x.depot) s hs e
  | read s hs hb =>
    have hstep := Depot.Step.read (x := x.depot) s hs
    have hy : x.depot.fetched s = (x.fetched s).depot := by
      simp [Depot.fetched, Session.fetched, Session.depot, hb]
    rw [hy] at hstep
    exact hstep
  | commit s b name hs hb ht =>
    have hq : (⟨b, none⟩ : Outstanding) ∈ x.depot.out := by simp [Session.depot, hb]
    have hstep := Depot.Step.commit (x := x.depot) s b name hs hq ht
    have hy : x.depot.committed s ⟨b, none⟩ name = (x.committed s name).depot := by
      simp [Depot.committed, Session.committed, Session.depot, hb]
    rw [hy] at hstep
    exact hstep
  | commitFormer former b name hb ht =>
    have hq : (⟨b, some former⟩ : Outstanding) ∈ x.depot.out := by simp [Session.depot, hb]
    have hstep := Depot.Step.commitFormer (x := x.depot) former b name hq ht
    have hy : x.depot.committedFormer former ⟨b, some former⟩ name =
        (x.committedFormer former name).depot := by
      simp [Depot.committedFormer, Session.committedFormer, Session.depot, hb]
    rw [hy] at hstep
    exact hstep
  | drop q hb =>
    have hq : q ∈ x.depot.out := by simp [Session.depot, hb]
    have hstep := Depot.Step.drop (x := x.depot) q hq
    have hy : ({ x.depot with out := x.depot.out.erase q } : Depot) =
        ({ x with batch := none } : Session).depot := by
      simp [Session.depot, hb]
    rw [hy] at hstep
    exact hstep
  | refresh s hs => exact .refresh (x := x.depot) s hs
  | close s hs => exact .close (x := x.depot) s hs
  | opened params registry hr =>
    have hstep := Depot.Step.opened (x := x.depot) params registry hr
    have hy : x.depot.replaced params registry = (x.replaced params registry).depot := by
      rw [Depot.replaced, Session.replaced]
      have hdisk : x.depot.disk = x.disk := rfl
      rw [hdisk]
      rcases Spool.create params registry x.disk with ⟨f | s, registry', d⟩
      · rfl
      · cases hb : x.batch <;> simp [Session.depot, hb]
    rw [hy] at hstep
    exact hstep

end AuditRelay
