import AuditRelay.Store.Spool
import Mathlib.Logic.Relation

/-!
# AuditRelay.Proofs.Store.Session — a directory of event files and those who use it

A spool is opened in a directory, written to, read and closed, and another one is opened in the same
directory later. `Session.Step` is one operation of any of these, in any order, together with its
answer (`Exchange`). At most one batch is out at a time: it has been read and is neither committed
nor dropped. It stays out when another spool is opened, and is then committed by the spool that it
was read from, which nobody else uses any more.
-/

namespace AuditRelay

/-- A batch that has been read and is neither committed nor dropped. -/
structure Outstanding where
  batch : Batch
  /-- The spool that it was read from, if another one has been opened since. -/
  former : Option Spool
  deriving DecidableEq

/-- The batch, once another spool has been opened after `s`. -/
def Outstanding.keep (q : Outstanding) (s : Option Spool) : Outstanding :=
  { q with former := q.former.or s }

/-- A directory, the spool that is open in it, and the batch that is out. -/
structure Session where
  spool : Option Spool
  disk : Disk
  batch : Option Outstanding

/-- An operation and its answer. -/
inductive Exchange where
  | write (e : Event) (answer : Except Fault Unit)
  | read (answer : Except Fault (Option Batch))
  | commit (answer : Except Fault Unit)
  | drop
  | refresh (answer : Except Fault Unit)
  | close
  | opened (answer : Except Fault Unit)

namespace Session

/-- A directory in which no spool is open yet. -/
def start (d : Disk) : Session := ⟨none, d, none⟩

/-! ## After an operation -/

def written (x : Session) (s : Spool) (e : Event) : Session :=
  { x with spool := some (s.write x.disk e).2.1, disk := (s.write x.disk e).2.2 }

/-- The batch that an answer brings. -/
def brought : Except Fault (Option Batch) → Option Outstanding
  | .ok (some b) => some ⟨b, none⟩
  | .ok none | .error _ => none

def fetched (x : Session) (s : Spool) : Session :=
  ⟨some (s.nextBatch x.disk).2.1, (s.nextBatch x.disk).2.2, brought (s.nextBatch x.disk).1⟩

def committed (x : Session) (s : Spool) (name : String) : Session :=
  ⟨some (s.commit x.disk name).2.1, (s.commit x.disk name).2.2, none⟩

/-- The open spool hears nothing of a batch that another one has read. -/
def committedFormer (x : Session) (former : Spool) (name : String) : Session :=
  ⟨x.spool, (former.commit x.disk name).2.2, none⟩

def refreshed (x : Session) (s : Spool) : Session :=
  { x with spool := some (s.refreshGauges x.disk).2.1, disk := (s.refreshGauges x.disk).2.2 }

/-- A spool takes the place of the one that was open, unless it could not be opened. -/
def replaced (x : Session) (params : SpoolParameters) (registry : Registry) : Session :=
  match Spool.create params registry x.disk with
  | (.ok s, _, d) => ⟨some s, d, x.batch.map (Outstanding.keep · x.spool)⟩
  | (.error _, _, d) => { x with disk := d }

/-- One operation. -/
inductive Step (x : Session) : Exchange → Session → Prop where
  | write (s : Spool) (h : x.spool = some s) (e : Event) :
      Step x (.write e (s.write x.disk e).1) (x.written s e)
  | read (s : Spool) (h : x.spool = some s) (hb : x.batch = none) :
      Step x (.read (s.nextBatch x.disk).1) (x.fetched s)
  | commit (s : Spool) (b : Batch) (name : String) (h : x.spool = some s)
      (hb : x.batch = some ⟨b, none⟩) (ht : b.token = .file name) :
      Step x (.commit (s.commit x.disk name).1) (x.committed s name)
  | commitFormer (former : Spool) (b : Batch) (name : String)
      (hb : x.batch = some ⟨b, some former⟩) (ht : b.token = .file name) :
      Step x (.commit (former.commit x.disk name).1) (x.committedFormer former name)
  | drop (q : Outstanding) (hb : x.batch = some q) : Step x .drop { x with batch := none }
  | refresh (s : Spool) (h : x.spool = some s) :
      Step x (.refresh (s.refreshGauges x.disk).1) (x.refreshed s)
  | close (s : Spool) (h : x.spool = some s) : Step x .close { x with spool := some s.close }
  /-- A spool is opened by a path that leads to the same directory. -/
  | opened (params : SpoolParameters) (registry : Registry)
      (hr : Disk.reach x.disk.host.pathLimit x.disk.root (params.directory.getD "") =
        x.disk.directory) :
      Step x (.opened ((Spool.create params registry x.disk).1.map fun _ => ()))
        (x.replaced params registry)

/-- A run of operations, each of which keeps to what is asked of it and of the session after it. -/
abbrev Runs (ok : Exchange → Session → Prop) : Session → Session → Prop :=
  Relation.ReflTransGen fun x y => ∃ l, Step x l y ∧ ok l y

end Session

end AuditRelay
