import Orrp.Query.Ast

/-!
# Database keys and their text (`engine/eng_key_format`, `engine/container/container_types.h`)

* `ContainerDbKey` — `eng_container_db_key_t`: a container, one of its databases and a key in it;
* `dbKeyInto` — `db_key_into`, the serialized key `container|db_type|key` that the consumer cache,
  the op-queue routing and the eval cache are keyed by;
* `customTagInto` — `custom_tag_into`, the `key:value` text a custom tag is indexed under.

Both writers are `snprintf` into a fixed buffer and fail when the text and its terminator do not
fit (`r >= size`).
-/

namespace Orrp.Engine

open Orrp.Query

/-- `SYS_CONTAINER_NAME`. -/
def sysContainerName : String := "system"

/-- `eng_dc_sys_db_type_t`. -/
inductive SysDbType
  | strToEntityId | intToEntityId | metadata | indexRegistryGlobal
  deriving DecidableEq, Repr

/-- `eng_dc_user_db_type_t`. -/
inductive UsrDbType
  | invertedEventIndex | metadata | events | indexRegistryLocal | index
  deriving DecidableEq, Repr

/-- The enum value of a system database type. -/
def SysDbType.toNat : SysDbType → ℕ
  | .strToEntityId => 0
  | .intToEntityId => 1
  | .metadata => 2
  | .indexRegistryGlobal => 3

/-- The enum value of a user database type. -/
def UsrDbType.toNat : UsrDbType → ℕ
  | .invertedEventIndex => 0
  | .metadata => 1
  | .events => 2
  | .indexRegistryLocal => 3
  | .index => 4

/-- `db_key_t`: an LMDB key. -/
inductive DbKey
  | u32 (v : ℕ)
  | i64 (v : ℤ)
  | str (s : String)
  deriving DecidableEq, Repr

/-- `dc_type` with the member of the `sys_db_type`/`usr_db_type` union it selects. -/
inductive DbSel
  | sys (t : SysDbType)
  | usr (t : UsrDbType)
  deriving DecidableEq, Repr

/-- `eng_container_db_key_t`. -/
structure ContainerDbKey where
  containerName : String
  db : DbSel
  indexKey : Option String
  dbKey : DbKey
  deriving DecidableEq, Repr

/-- `snprintf` into a buffer of `size` bytes succeeds when the text and its terminator fit. -/
def fitsInto (size : ℕ) (s : String) : Option String :=
  if size ≤ s.utf8ByteSize then none else some s

/-- `db_key_into`: `container|db_type|key`, with the system container's name for a system
database. -/
def dbKeyInto (bufferSize : ℕ) (k : ContainerDbKey) : Option String :=
  let (dbType, containerName) : ℕ × String :=
    match k.db with
    | .sys t => (t.toNat, sysContainerName)
    | .usr t => (t.toNat, k.containerName)
  let key : String :=
    match k.dbKey with
    | .u32 v => toString v
    | .i64 v => toString v
    | .str s => s
  fitsInto bufferSize (containerName ++ "|" ++ toString dbType ++ "|" ++ key)

/-- `custom_tag_into`: `key:value` for a custom tag whose value is a literal (a number in
decimal); anything else fails. -/
def customTagInto (size : ℕ) (key : TagKey) (value : Node) : Option String :=
  match key, value with
  | .custom k, .literal (.str s) => fitsInto size (k ++ ":" ++ s)
  | .custom k, .literal (.num n) => fitsInto size (k ++ ":" ++ toString n)
  | _, _ => none

end Orrp.Engine
