import AuditRelay.Relay.Courier
import AuditRelay.Store.Memory
import AuditRelay.Store.Spool
import AuditRelay.Store.Table

/-!
# AuditRelay.Proofs.Relay.Buffers — what a courier works with

Each kind of store as the buffer of a courier, and a broker with a quota.
-/

namespace AuditRelay

/-- A store in memory as a buffer. -/
def MemoryStore.buffer : Buffer MemoryStore where
  write e s := s.write e
  read s := (.ok s.nextBatch.1, s.nextBatch.2)
  commit b s :=
    match b.token with
    | .oldest count => (.ok (), s.commit count)
    | _ => (.ok (), s)
  refresh s := (.ok (), s.refreshGauges)

/-- A spool on its disk as a buffer. -/
def Spool.buffer : Buffer (Spool × Disk) where
  write e x := x.1.write x.2 e
  read x := x.1.nextBatch x.2
  commit b x :=
    match b.token with
    | .file name => x.1.commit x.2 name
    | _ => (.ok (), x)
  refresh x := x.1.refreshGauges x.2

/-- A table store on its database as a buffer. -/
def TableStore.buffer : Buffer (TableStore × Database) where
  write e x := x.1.write x.2 e
  read x := x.1.nextBatch x.2
  commit b x :=
    match b.token with
    | .rows ids => x.1.commit x.2 ids
    | _ => (.ok (), x)
  refresh x := x.1.refreshGauges x.2

/-- A broker that accepts as many more events as its number says. -/
def quotaConnector : Connector Nat where
  connect n := (.ok 0, n)
  isClosed _ _ := false
  age _ _ := 0
  publish _ _ n :=
    match n with
    | 0 => (.error (.broker .refused), 0)
    | n + 1 => (.ok (), n)
  disconnect _ n := n

end AuditRelay
