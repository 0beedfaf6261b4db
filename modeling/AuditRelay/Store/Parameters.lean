import AuditRelay.Json.Record
import AuditRelay.Store.Spec

/-!
# AuditRelay.Store.Parameters — the parameters of each kind of store

Every parameter is optional; the store puts its default in place of one that is unset and refuses
zero where a limit must be positive.
-/

namespace AuditRelay

/-- The largest number of 64 bits. -/
def maxUInt64 : Nat := UInt64.size - 1

/-- The largest number of 32 bits. -/
def maxUInt32 : Nat := UInt32.size - 1

/-- Parameters of a store in memory. -/
structure MemoryParameters where
  maxEvents : Option Nat := none
  deriving DecidableEq, Repr

namespace MemoryParameters

def set (p : MemoryParameters) (_ : String) (v : Json) : Except ShapeFault MemoryParameters := do
  return { p with maxEvents := ← v.optional (Json.toNat maxUInt64 "usize") }

def ofJson : Json → Except ShapeFault MemoryParameters :=
  Json.toRecord "struct MemoryStoreConfig" ["max_events"] set {}

end MemoryParameters

/-- Parameters of a store in a directory of files. -/
structure SpoolParameters where
  directory : Option String := none
  maxFileSize : Option Nat := none
  maxTotalSize : Option Nat := none
  deriving DecidableEq, Repr

namespace SpoolParameters

def set (p : SpoolParameters) (field : String) (v : Json) : Except ShapeFault SpoolParameters := do
  match field with
  | "directory" => return { p with directory := ← v.optional (Json.toText "path string") }
  | "max_file_size" => return { p with maxFileSize := ← v.optional (Json.toNat maxUInt64 "u64") }
  | _ => return { p with maxTotalSize := ← v.optional (Json.toNat maxUInt64 "u64") }

def ofJson : Json → Except ShapeFault SpoolParameters :=
  Json.toRecord "struct FileStoreConfig" ["directory", "max_file_size", "max_total_size"] set {}

end SpoolParameters

/-- Parameters of a store in a database table. -/
structure TableParameters where
  tableName : Option String := none
  batchSize : Option Nat := none
  maxEvents : Option Nat := none
  skipMigration : Option Bool := none
  deriving DecidableEq, Repr

namespace TableParameters

def set (p : TableParameters) (field : String) (v : Json) : Except ShapeFault TableParameters := do
  match field with
  | "table_name" => return { p with tableName := ← v.optional (Json.toText "a string") }
  | "batch_size" => return { p with batchSize := ← v.optional (Json.toNat maxUInt32 "u32") }
  | "max_events" => return { p with maxEvents := ← v.optional (Json.toNat maxUInt64 "u64") }
  | _ => return { p with skipMigration := ← v.optional Json.toBool }

def ofJson : Json → Except ShapeFault TableParameters :=
  Json.toRecord "struct SqlStoreConfig"
    ["table_name", "batch_size", "max_events", "skip_migration"] set {}

end TableParameters

/-- The kind of a store that the library brings, with its parameters. -/
inductive StoreParameters where
  | memory (p : MemoryParameters)
  | file (p : SpoolParameters)
  | sql (p : TableParameters)
  deriving DecidableEq, Repr

namespace StoreParameters

def kind : StoreParameters → StoreKind
  | .memory _ => .memory
  | .file _ => .file
  | .sql _ => .sql

/-- Reads parameters; without any, the defaults hold. -/
def read {α : Type} (kind : StoreKind) (defaults : α) (ofJson : Json → Except ShapeFault α)
    (params : Json) : Except Fault α :=
  match params with
  | .null => .ok defaults
  | v => (ofJson v).mapError fun f => .invalidConfig (.parametersMalformed kind (.misshapen f))

/-- The parameters of a spec, for the kinds that the library brings. -/
def ofSpec (s : StoreSpec) : Except Fault StoreParameters :=
  if s.kind = StoreKind.memory.name then
    (read .memory {} MemoryParameters.ofJson s.params).map .memory
  else if s.kind = StoreKind.file.name then
    (read .file {} SpoolParameters.ofJson s.params).map .file
  else if s.kind = StoreKind.sql.name then
    (read .sql {} TableParameters.ofJson s.params).map .sql
  else .error (.unknownStoreType s.kind)

end StoreParameters

end AuditRelay
