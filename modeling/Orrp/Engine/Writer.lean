import Mathlib.Data.Finset.Basic
import Orrp.Lib.Ring
import Orrp.Lib.Writes
import Orrp.Engine.KeyFormat

/-!
# The engine writer (`engine/engine_writer`)

The single writer thread takes up to `MAX_DEQUEUE_MSG_COUNT` messages off its ring, groups their
entries by container (`_group_entries_by_container`, a hash of batches in the order the containers
first appear) and commits one LMDB transaction per container (`_flush_to_db`).  A batch whose
container, transaction, writes or commit fail is dropped as a whole; the others are written.

* `Lmdb` — the databases of every container, one map from `ContainerDbKey`;
* `engWriterCycle` — one turn of the loop of `_eng_writer_thread_func`;
* `engWriterCycle_lmdb` — the cycle reads as the dequeued entries written in order, a key of a
  container whose batch failed keeping its value.  `_write_to_db` does not look at the write
  condition, so this holds of counter entries too;
* `engWriterCycle_lmdb_of_commits` — a cycle whose batches all commit writes the entries in order.
-/

namespace Orrp.Engine

open Orrp.Query Orrp.Lib

/-- `write_condition_t`. -/
inductive WriteCondition
  | always | noOverwrite | int32GreaterThan
  deriving DecidableEq, Repr

/-- The map `encode_event` packs with msgpack: `id`, `in`, `entity`, `ts` (milliseconds), then
each custom tag's key and value, a value that is not a literal being `nil`. -/
structure EventRecord where
  id : ℕ
  inName : String
  entity : Literal
  ts : ℤ
  customTags : List (String × Option Literal)
  deriving DecidableEq, Repr

/-- The bytes an entry carries, by what is encoded in them. -/
inductive DbValue
  | u32 (v : ℕ)
  | event (r : EventRecord)
  | bitmap (s : Finset ℕ)
  deriving DecidableEq

/-- `eng_writer_entry_t`.  A consumer's entry bumps the flush version of the cache entry `bump.1`
to `bump.2` once committed. -/
structure WriterEntry where
  value : DbValue
  bump : Option (ℕ × ℕ)
  dbKey : ContainerDbKey
  writeCondition : WriteCondition
  deriving DecidableEq

/-- `eng_writer_msg_t`. -/
structure WriterMsg where
  entries : List WriterEntry
  deriving DecidableEq

/-- Every database of every container: what a key holds, if anything. -/
abbrev Lmdb := ContainerDbKey → Option DbValue

/-- `MAX_DEQUEUE_MSG_COUNT`. -/
def maxDequeueMsgCount : ℕ := 2056

/-- `ENG_WRITER_QUEUE_CAPACITY`. -/
def engWriterQueueCapacity : ℕ := 524288

/-- The container an entry is batched under. -/
def WriterEntry.containerName (e : WriterEntry) : String := e.dbKey.containerName

/-- `_group_entries_by_container` for one message, onto the batches built so far. -/
def groupEntriesByContainer (batches : List (String × List WriterEntry)) (msg : WriterMsg) :
    List (String × List WriterEntry) :=
  msg.entries.foldl (addToGroup WriterEntry.containerName) batches

/-- `_write_to_db`: `db_put` of the entry's value under its key.  The source leaves the write
condition as a TODO, so it is not read. -/
def writeToDb (db : Lmdb) (e : WriterEntry) : Lmdb :=
  Function.update db e.dbKey (some e.value)

/-- One container's transaction: every entry of the batch in order. -/
def writeBatch (db : Lmdb) (batch : List WriterEntry) : Lmdb :=
  batch.foldl writeToDb db

/-- `_flush_to_db`: each batch in hash order, committed when `commits` holds of its container
(the container opens, the transaction begins, every write and the commit succeed). -/
def flushToDb (commits : String → Bool) (batches : List (String × List WriterEntry)) (db : Lmdb) :
    Lmdb :=
  batches.foldl (fun db b => if commits b.1 then writeBatch db b.2 else db) db

/-- `_bump_flush_version` over the committed batches: the cache entries and versions bumped. -/
def flushBumps (commits : String → Bool) (batches : List (String × List WriterEntry)) :
    List (ℕ × ℕ) :=
  (batches.filter fun b => commits b.1).flatMap fun b => b.2.filterMap WriterEntry.bump

/-- The writer's queue and the databases. -/
structure EngWriter where
  queue : RingBuffer WriterMsg
  lmdb : Lmdb

/-- One turn of `_eng_writer_thread_func` that finds work: dequeue, group, flush.  Returns the new
writer and the flush versions bumped. -/
def engWriterCycle (commits : String → Bool) (w : EngWriter) : EngWriter × List (ℕ × ℕ) :=
  let (msgs, queue) := w.queue.dequeueUpTo maxDequeueMsgCount
  let batches := msgs.foldl groupEntriesByContainer []
  (⟨queue, flushToDb commits batches w.lmdb⟩, flushBumps commits batches)

/-- The entries a cycle takes, in dequeue order. -/
def EngWriter.pending (w : EngWriter) : List WriterEntry :=
  (w.queue.items.take maxDequeueMsgCount).flatMap WriterMsg.entries

/-! ## The writer reads as the entries in order -/

section Flush

variable {commits : String → Bool}

theorem flushToDb_eq_applyGroups (batches : List (String × List WriterEntry)) (db : Lmdb) :
    flushToDb commits batches db =
      applyGroups WriterEntry.dbKey (fun e => some e.value) commits db batches := rfl

theorem foldl_groupEntriesByContainer (msgs : List WriterMsg) :
    msgs.foldl groupEntriesByContainer [] =
      groupBy (fun e => (WriterEntry.dbKey e).containerName) (msgs.flatMap WriterMsg.entries) := by
  rw [groupBy, List.foldl_flatMap]
  rfl

theorem engWriterCycle_queue (w : EngWriter) :
    (engWriterCycle commits w).1.queue = w.queue.drop maxDequeueMsgCount := by
  simp [engWriterCycle, RingBuffer.dequeueUpTo_eq]

/-- **One writer cycle.** A key of a container whose batch committed holds the value of the last
dequeued entry for it, if any; a key of a container whose batch failed is unchanged. -/
theorem engWriterCycle_lmdb (w : EngWriter) (k : ContainerDbKey) :
    (engWriterCycle commits w).1.lmdb k =
      if commits k.containerName then
        (((w.pending.filter fun e => e.dbKey = k).getLast?.map fun e => some e.value).getD (w.lmdb k))
      else w.lmdb k := by
  simp only [engWriterCycle, RingBuffer.dequeueUpTo_eq]
  rw [foldl_groupEntriesByContainer, flushToDb_eq_applyGroups,
    applyGroups_groupBy ContainerDbKey.containerName, applyWrites_apply]
  rfl

/-- A cycle that commits every batch writes the dequeued entries in order. -/
theorem engWriterCycle_lmdb_of_commits (hc : ∀ c, commits c = true) (w : EngWriter) :
    (engWriterCycle commits w).1.lmdb =
      applyWrites WriterEntry.dbKey (fun e => some e.value) w.lmdb w.pending := by
  funext k
  rw [engWriterCycle_lmdb, if_pos (hc _), applyWrites_apply]

end Flush

end Orrp.Engine
