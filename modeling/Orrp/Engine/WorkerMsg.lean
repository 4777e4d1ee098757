import Orrp.Engine.CmdContext
import Orrp.Engine.Writer
import Orrp.Engine.Eval

/-!
# What a worker sends for an event (`worker/worker_writer.c`, `worker/worker_ops.c`,
`worker/encoder.c`)

For an `EVENT` the worker builds one writer message and a list of ops:

* `workerCreateWriterMsg` — the event's msgpack record, the container's event counter (the event
  id itself), one entry per index the event has a value for, and for a new entity the entity
  counter (the entity id itself) and the entity's mapping; of the container's counter key it
  writes only that counter (`workerCreateWriterMsg_counter`);
* `workerCreateOps` — an `ADD` of the entity to the container's entity bitmap, then one `ADD` of the
  event id per custom tag, under the tag's `key:value` key.

The ops' keys are the keys `eng_eval` reads for the same tag (`createWriteToEventIndexOp_serDbKey`).
-/

namespace Orrp.Engine

open Orrp.Query

/-- `USR_NEXT_EVENT_ID_KEY`. -/
def usrNextEventIdKey : String := "next_event_id"
/-- `USR_NEXT_EVENT_ID_INIT_VAL`. -/
def usrNextEventIdInitVal : ℕ := 1
/-- `SYS_NEXT_ENT_ID_KEY`. -/
def sysNextEntIdKey : String := "next_ent_id"
/-- `SYS_NEXT_ENT_ID_INIT_VAL`. -/
def sysNextEntIdInitVal : ℕ := 1
/-- `USR_ENTITIES_KEY`. -/
def usrEntitiesKey : String := "entities"

/-- A container's event counter in its metadata database. -/
def nextEventIdDbKey (containerName : String) : ContainerDbKey :=
  ⟨containerName, .usr .metadata, none, .str usrNextEventIdKey⟩

/-- The entity counter in the system metadata database. -/
def nextEntIdDbKey : ContainerDbKey :=
  ⟨sysContainerName, .sys .metadata, none, .str sysNextEntIdKey⟩

/-- An event's record in its container's events database. -/
def eventDbKey (containerName : String) (eventId : ℕ) : ContainerDbKey :=
  ⟨containerName, .usr .events, none, .u32 eventId⟩

/-- Where `_create_ent_entry` maps an external entity id to its internal one. -/
def entityDbKey : Literal → ContainerDbKey
  | .str s => ⟨sysContainerName, .sys .strToEntityId, none, .str s⟩
  | .num n => ⟨sysContainerName, .sys .intToEntityId, none, .i64 n⟩

/-! ## The writer message -/

/-- A custom tag's key in the record; a reserved key has no text of its own. -/
def encodeTagKey : TagKey → String
  | .custom k => k
  | .reserved _ => "reserved_unknown"

/-- A tag's value in the record: a literal, or `nil`. -/
def encodeTagValue : Node → Option Literal
  | .literal l => some l
  | _ => none

/-- `encode_event`: fails without a literal `in` and `entity` tag.  `in` is written as a string. -/
def encodeEvent (ctx : CmdCtx) (eventId : ℕ) : Option EventRecord :=
  match ctx.inTagValue, ctx.entityTagValue with
  | some (.literal (.str inName)), some (.literal ent) =>
    some ⟨eventId, inName, ent, ctx.arrivalTs.tdiv 1000000,
      ctx.customTags.map fun t => (encodeTagKey t.key, encodeTagValue t.value)⟩
  | _, _ => none

/-- `_create_mpack_entry`. -/
def createMpackEntry (ctx : CmdCtx) (containerName : String) (eventId : ℕ) : Option WriterEntry :=
  (encodeEvent ctx eventId).map fun r => ⟨.event r, none, eventDbKey containerName eventId, .always⟩

/-- `_create_event_counter_entry`: the counter is written as the event id. -/
def createEventCounterEntry (containerName : String) (eventId : ℕ) : WriterEntry :=
  ⟨.u32 eventId, none, nextEventIdDbKey containerName, .int32GreaterThan⟩

/-- `_create_ent_counter_entry`: the counter is written as the entity id. -/
def createEntCounterEntry (entId : ℕ) : WriterEntry :=
  ⟨.u32 entId, none, nextEntIdDbKey, .int32GreaterThan⟩

/-- `_create_ent_entry`. -/
def createEntEntry (entId : ℕ) (ent : Literal) : WriterEntry :=
  ⟨.u32 entId, none, entityDbKey ent, .always⟩

/-- `_idx_resolve_tag_val`: `ts` is the arrival time in milliseconds, any other index key the
number value of the first custom tag of that key. -/
def idxResolveTagVal (key : String) (ctx : CmdCtx) : Option ℤ :=
  if key = "ts" then some (ctx.arrivalTs.tdiv 1000000)
  else
    match astFindCustomTag ctx.customTags key with
    | some ⟨_, .literal (.num n)⟩ => some n
    | _ => none

/-- `_create_index_entries`, over the container's index keys in the order of its `key_to_index`. -/
def createIndexEntries (eventId : ℕ) (ctx : CmdCtx) (containerName : String)
    (keyToIndex : List String) : List WriterEntry :=
  keyToIndex.filterMap fun idxKey =>
    (idxResolveTagVal idxKey ctx).map fun v =>
      ⟨.u32 eventId, none, ⟨containerName, .usr .index, some idxKey, .i64 v⟩, .always⟩

/-- `worker_create_writer_msg`.  A zero event or entity id writes no counter. -/
def workerCreateWriterMsg (ctx : CmdCtx) (containerName : String) (eventId entId : ℕ)
    (ent : Literal) (isNewEnt : Bool) (keyToIndex : List String) : Option WriterMsg :=
  (createMpackEntry ctx containerName eventId).map fun mpack =>
    ⟨mpack :: (if eventId ≠ 0 then [createEventCounterEntry containerName eventId] else []) ++
      createIndexEntries eventId ctx containerName keyToIndex ++
      (if isNewEnt then
        (if entId ≠ 0 then [createEntCounterEntry entId] else []) ++ [createEntEntry entId ent]
      else [])⟩

/-! ## The ops -/

/-- `op_type_t`. -/
inductive OpType
  | none | add
  deriving DecidableEq, Repr

/-- `op_t`. -/
structure Op where
  opType : OpType
  dbKey : ContainerDbKey
  value : ℕ
  deriving DecidableEq

/-- `op_queue_msg_t`: an op and the serialized key it is routed and cached by. -/
structure OpQueueMsg where
  op : Op
  serDbKey : String
  deriving DecidableEq

/-- The message and the context of a failed `worker_ops_result_t`. -/
abbrev WorkerOpsError := String × String

/-- The `key_buffer` and `ser_db_key` buffers of `worker_ops.c`. -/
def opKeyBufferSize : ℕ := 512

/-- `_create_container_entity_op`: the entity joins the container's entity bitmap. -/
def createContainerEntityOp (containerName : String) (entityIdInt32 : ℕ) :
    Except WorkerOpsError OpQueueMsg :=
  let dbKey : ContainerDbKey := ⟨containerName, .usr .metadata, none, .str usrEntitiesKey⟩
  match dbKeyInto opKeyBufferSize dbKey with
  | none => .error ("Key formatting failed", "db_key_into")
  | some ser => .ok ⟨⟨.add, dbKey, entityIdInt32⟩, ser⟩

/-- One iteration of `_create_write_to_event_index_ops`: the event joins the tag's bitmap. -/
def createWriteToEventIndexOp (containerName : String) (eventId : ℕ) (t : Tag) :
    Except WorkerOpsError OpQueueMsg :=
  match customTagInto opKeyBufferSize t.key t.value with
  | none => .error ("Key formatting failed", "custom_tag_into")
  | some key =>
    let dbKey : ContainerDbKey := ⟨containerName, .usr .invertedEventIndex, none, .str key⟩
    match dbKeyInto opKeyBufferSize dbKey with
    | none => .error ("Key formatting failed", "db_key_into")
    | some ser => .ok ⟨⟨.add, dbKey, eventId⟩, ser⟩

/-- `_create_write_to_event_index_ops`: one op per custom tag, the first failure ending it. -/
def createWriteToEventIndexOps (containerName : String) (eventId : ℕ) (tags : List Tag) :
    Except WorkerOpsError (List OpQueueMsg) :=
  tags.mapM (createWriteToEventIndexOp containerName eventId)

/-- `worker_create_ops`: the entity op, then the tag ops. -/
def workerCreateOps (ctx : CmdCtx) (containerName : String) (entityIdInt32 eventId : ℕ) :
    Except WorkerOpsError (List OpQueueMsg) := do
  let entOp ← createContainerEntityOp containerName entityIdInt32
  let tagOps ← createWriteToEventIndexOps containerName eventId ctx.customTags
  pure (entOp :: tagOps)

/-! ## Spec lemmas -/

section Msg

variable {ctx : CmdCtx} {containerName : String} {eventId entId : ℕ} {ent : Literal}
  {isNewEnt : Bool} {keyToIndex : List String}

theorem createIndexEntries_dbKey {e : WriterEntry}
    (he : e ∈ createIndexEntries eventId ctx containerName keyToIndex) :
    ∃ idxKey v, e.dbKey = ⟨containerName, .usr .index, some idxKey, .i64 v⟩ := by
  simp only [createIndexEntries, List.mem_filterMap, Option.map_eq_some_iff] at he
  obtain ⟨idxKey, -, v, -, rfl⟩ := he
  exact ⟨idxKey, v, rfl⟩

theorem workerCreateWriterMsg_counter {msg : WriterMsg}
    (h : workerCreateWriterMsg ctx containerName eventId entId ent isNewEnt keyToIndex = some msg) :
    msg.entries.filter (fun e => e.dbKey = nextEventIdDbKey containerName) =
      if eventId ≠ 0 then [createEventCounterEntry containerName eventId] else [] := by
  simp only [workerCreateWriterMsg, createMpackEntry, Option.map_map, Option.map_eq_some_iff,
    Function.comp_apply] at h
  obtain ⟨r, -, rfl⟩ := h
  have hidx : (createIndexEntries eventId ctx containerName keyToIndex).filter
      (fun e => e.dbKey = nextEventIdDbKey containerName) = [] := by
    rw [List.filter_eq_nil_iff]
    intro e he
    obtain ⟨idxKey, v, hk⟩ := createIndexEntries_dbKey he
    simp [hk, nextEventIdDbKey]
  have hent : (if isNewEnt then
      (if entId ≠ 0 then [createEntCounterEntry entId] else []) ++ [createEntEntry entId ent]
      else []).filter (fun e => e.dbKey = nextEventIdDbKey containerName) = [] := by
    rw [List.filter_eq_nil_iff]
    split_ifs <;> cases ent <;>
      simp [createEntCounterEntry, createEntEntry, nextEntIdDbKey, entityDbKey, nextEventIdDbKey]
  have hmpack : eventDbKey containerName eventId ≠ nextEventIdDbKey containerName := by
    simp [eventDbKey, nextEventIdDbKey]
  simp only [List.cons_append, List.filter_cons, List.filter_append, hidx, hent, hmpack,
    decide_false, Bool.false_eq_true, if_false, List.append_nil]
  split_ifs <;> simp [createEventCounterEntry]

/-- An event's message writes no bitmap: bitmaps are the consumers'. -/
theorem workerCreateWriterMsg_not_bitmap {msg : WriterMsg}
    (h : workerCreateWriterMsg ctx containerName eventId entId ent isNewEnt keyToIndex = some msg)
    {x : WriterEntry} (hx : x ∈ msg.entries) (b : Finset ℕ) : x.value ≠ .bitmap b := by
  simp only [workerCreateWriterMsg, createMpackEntry, Option.map_map, Option.map_eq_some_iff,
    Function.comp_apply] at h
  obtain ⟨r, -, rfl⟩ := h
  simp only [List.cons_append, List.mem_cons, List.mem_append] at hx
  rcases hx with rfl | (hx | hx) | hx
  · simp
  · split_ifs at hx <;> simp_all [createEventCounterEntry]
  · simp only [createIndexEntries, List.mem_filterMap, Option.map_eq_some_iff] at hx
    obtain ⟨-, -, v, -, rfl⟩ := hx
    simp
  · split_ifs at hx <;> simp only [createEntCounterEntry, createEntEntry, List.mem_cons, List.mem_append,
      List.not_mem_nil, or_false, List.nil_append] at hx <;> rcases hx with rfl | rfl <;> simp

end Msg

section Ops

variable {containerName : String} {eventId : ℕ} {t : Tag} {op : OpQueueMsg}

theorem createContainerEntityOp_dbKeyInto {entityIdInt32 : ℕ}
    (h : createContainerEntityOp containerName entityIdInt32 = .ok op) :
    dbKeyInto opKeyBufferSize op.op.dbKey = some op.serDbKey := by
  unfold createContainerEntityOp at h
  dsimp only at h
  split at h
  · cases h
  · rename_i ser hser
    cases h
    exact hser

theorem createWriteToEventIndexOp_dbKeyInto (h : createWriteToEventIndexOp containerName eventId t = .ok op) :
    dbKeyInto opKeyBufferSize op.op.dbKey = some op.serDbKey := by
  unfold createWriteToEventIndexOp at h
  split at h
  · cases h
  · dsimp only at h
    split at h
    · cases h
    · rename_i ser hser
      cases h
      exact hser

theorem mem_createWriteToEventIndexOps {tags : List Tag} {ops : List OpQueueMsg}
    (h : createWriteToEventIndexOps containerName eventId tags = .ok ops) (hop : op ∈ ops) :
    ∃ t ∈ tags, createWriteToEventIndexOp containerName eventId t = .ok op := by
  induction tags generalizing ops with
  | nil =>
    cases h
    cases hop
  | cons t tags ih =>
    unfold createWriteToEventIndexOps at h
    rw [List.mapM_cons] at h
    rcases ht : createWriteToEventIndexOp containerName eventId t with _ | op₁
    · rw [ht] at h
      cases h
    rcases hts : tags.mapM (createWriteToEventIndexOp containerName eventId) with _ | ops₁
    · rw [ht, hts] at h
      cases h
    rw [ht, hts] at h
    cases h
    rcases List.mem_cons.1 hop with rfl | hop
    · exact ⟨t, List.mem_cons_self, ht⟩
    · obtain ⟨t', ht', hop'⟩ := ih hts hop
      exact ⟨t', List.mem_cons_of_mem _ ht', hop'⟩

/-- **Ops are filed under their keys.**  Every op `worker_create_ops` builds is queued under the
text of its own key, which the consumers cache it by. -/
theorem workerCreateOps_dbKeyInto {ctx : CmdCtx} {entityIdInt32 : ℕ} {ops : List OpQueueMsg}
    (h : workerCreateOps ctx containerName entityIdInt32 eventId = .ok ops) (hop : op ∈ ops) :
    dbKeyInto opKeyBufferSize op.op.dbKey = some op.serDbKey := by
  unfold workerCreateOps at h
  rcases he : createContainerEntityOp containerName entityIdInt32 with _ | entOp
  · rw [he] at h
    cases h
  rcases hts : createWriteToEventIndexOps containerName eventId ctx.customTags with _ | tagOps
  · rw [he, hts] at h
    cases h
  rw [he, hts] at h
  cases h
  rcases List.mem_cons.1 hop with rfl | hop
  · exact createContainerEntityOp_dbKeyInto he
  · obtain ⟨t, -, ht⟩ := mem_createWriteToEventIndexOps hts hop
    exact createWriteToEventIndexOp_dbKeyInto ht

theorem createWriteToEventIndexOp_serDbKey {snap : Snapshot}
    (hc : snap.containerName = containerName)
    (h : createWriteToEventIndexOp containerName eventId t = .ok op) :
    ∃ key, customTagInto 512 t.key t.value = some key ∧ op.op.dbKey = snap.tagDbKey key ∧
      snap.serKey t.key t.value = some op.serDbKey ∧ op.op.value = eventId := by
  unfold createWriteToEventIndexOp at h
  cases hkey : customTagInto opKeyBufferSize t.key t.value with
  | none => simp [hkey] at h
  | some key =>
    simp only [hkey] at h
    cases hser : dbKeyInto opKeyBufferSize ⟨containerName, .usr .invertedEventIndex, none, .str key⟩
      with
    | none => simp [hser] at h
    | some ser =>
      simp only [hser, Except.ok.injEq] at h
      subst h
      refine ⟨key, hkey, by simp [Snapshot.tagDbKey, hc], ?_, rfl⟩
      have hkey' : customTagInto 512 t.key t.value = some key := hkey
      rw [Snapshot.serKey, hkey', Option.bind_some, Snapshot.tagDbKey, hc]
      exact hser

end Ops

end Orrp.Engine
