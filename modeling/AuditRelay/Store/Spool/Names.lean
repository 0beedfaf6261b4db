import AuditRelay.Text.Digits

/-!
# AuditRelay.Store.Spool.Names — the files of a spool

Event files and dead-letter files are named by a stamp of at least twenty digits, so that the order
of the names is the order of the stamps. Everything else in the directory is left alone.
-/

namespace AuditRelay.Spool

def eventStem : String := "audit-events-"

def deadLetterStem : String := "audit-events-deadletter-"

def fileSuffix : String := ".jsonl"

/-- The name of a file with that stamp. -/
def fileName (stem : String) (stamp : Nat) : String :=
  String.ofList (stem.toList ++ Text.padded 20 stamp ++ fileSuffix.toList)

/-- The name under which a file is prepared that will replace another. -/
def tempName (name : String) : String :=
  String.ofList ('.' :: name.toList ++ ".tmp".toList)

/-- Event files start with their stem, are no dead-letter files, and end with the suffix. -/
def isEventFile (name : String) : Bool :=
  let cs := name.toList
  eventStem.toList.isPrefixOf cs && !deadLetterStem.toList.isPrefixOf cs &&
    fileSuffix.toList.isSuffixOf cs

/-- The largest stamp that is recognised in a name. -/
def maxStamp : Nat := Nat.pow 2 128 - 1

/-- The stamp of an event file. -/
def stamp? (name : String) : Option Nat :=
  let cs := name.toList
  if eventStem.toList.isPrefixOf cs && fileSuffix.toList.isSuffixOf cs then
    let inner := cs.drop eventStem.length
    Text.unsigned? maxStamp (inner.take (inner.length - fileSuffix.length))
  else none

end AuditRelay.Spool
