import Orrp.Engine.WorkerMsg
import Orrp.Core.Hash
import Orrp.Lib.MsgpackWire

/-!
# Workers (`worker/worker.c`)

A worker takes an `EVENT` off its command queues and, in `_process_msg`:

1. maps the external entity id to an internal one (`_get_entity_mapping`): its own cache, else
   the system container's metadata database, else a new id from `g_next_entity_id`;
2. takes the container's next event id (`_get_next_event_id_for_container`): the shared counter,
   loaded on first use from the container's `next_event_id` or `1`;
3. records the event's entity in `event_to_entity_map`;
4. enqueues the writer message, then creates the ops and enqueues them one by one on the op queue
   their key routes to (`_queue_up_ops`).

`EngState` holds what the workers and the writer share: LMDB and the two mmap'd maps, which persist,
and the counters, caches and rings, which a restart loses.

* `issueEvent_prefix` — the queues gain a prefix of the writer message followed by the ops, and
  the event succeeds exactly when the ops were built and all of it was enqueued.
-/

namespace Orrp.Engine

open Orrp.Query Orrp.Lib

/-- `NUM_OP_QUEUES`. -/
def numOpQueues : ℕ := 16

/-- `CAPACITY_PER_op_queue`. -/
def capacityPerOpQueue : ℕ := 131072

/-- `route_key_to_queue`: the key's hash masked to a queue index.  The engine's `hash` is
`routingHash`; the results that hold for every hash take it as a parameter. -/
def routeKeyToQueue (hash : String → ℕ) (serDbKey : String) (opQueueTotalCount : ℕ) : ℕ :=
  hash serDbKey &&& (opQueueTotalCount - 1)

/-- `ROUTING_HASH_SEED`, and `CMD_QUEUE_HASH_SEED`. -/
def routingHashSeed : UInt64 := 0

/-- `xxhash64(key, strlen(key), ROUTING_HASH_SEED)`, the hash `route_key_to_queue` masks, and the
one `_eng_enqueue_cmd` masks for a string entity id. -/
def routingHash (key : String) : ℕ := (Core.xxhash64 (utf8Bytes key) routingHashSeed).toNat

/-- What a worker needs besides the engine state: the routing hash and each container's index
keys, in the order of its `key_to_index`. -/
structure EngineConfig where
  hash : String → ℕ
  keyToIndex : String → List String

/-- The state the workers and the writer share. -/
structure EngState where
  /-- LMDB: every database of every container. -/
  lmdb : Lmdb
  /-- The system container's `entity_id_map`: internal entity id to external. -/
  entityIdMap : ℕ → Option Literal
  /-- Each container's `event_to_entity_map`: event id to internal entity id. -/
  eventToEntityMap : String → ℕ → Option ℕ
  /-- `g_next_event_id_by_container`. -/
  nextEventIdByContainer : String → Option ℕ
  /-- `g_next_entity_id`. -/
  nextEntityId : ℕ
  /-- Each worker's `str_to_entity_id` and `int_to_entity_id`. -/
  entityCache : ℕ → Literal → Option ℕ
  /-- The writer's ring. -/
  writerQueue : RingBuffer WriterMsg
  /-- `g_op_queues`. -/
  opQueues : ℕ → RingBuffer OpQueueMsg

/-- The key `_get_entity_mapping` reads an entity under: the system container's metadata
database, keyed by the external id. -/
def entityMetadataDbKey : Literal → ContainerDbKey
  | .str s => ⟨sysContainerName, .sys .metadata, none, .str s⟩
  | .num n => ⟨sysContainerName, .sys .metadata, none, .i64 n⟩

/-- The cache-miss path of `_get_entity_mapping`: the id found in the system metadata database,
else a new one by `_get_next_entity_id` (`atomic_fetch_add` on `g_next_entity_id`).  Returns the
id, whether it is new, and the counter after. -/
def loadOrCreateEntityId (ent : Literal) (e : EngState) : ℕ × Bool × ℕ :=
  match e.lmdb (entityMetadataDbKey ent) with
  | some (.u32 v) => (v, false, e.nextEntityId)
  | _ => (e.nextEntityId, true, e.nextEntityId + 1)

/-- `_get_entity_mapping` for worker `w`: the internal id, whether it is new, and the state with
the id cached and the entity written to `entity_id_map` under it. -/
def getEntityMapping (w : ℕ) (ent : Literal) (e : EngState) : ℕ × Bool × EngState :=
  match e.entityCache w ent with
  | some id => (id, false, e)
  | none =>
    let r := loadOrCreateEntityId ent e
    (r.1, r.2.1, { e with
      nextEntityId := r.2.2
      entityCache := Function.update e.entityCache w (Function.update (e.entityCache w) ent (some r.1))
      entityIdMap := Function.update e.entityIdMap r.1 (some ent) })

/-- The value `_get_next_event_id_for_container` starts a container's counter at. -/
def loadNextEventId (lmdb : Lmdb) (containerName : String) : ℕ :=
  match lmdb (nextEventIdDbKey containerName) with
  | some (.u32 v) => v
  | _ => usrNextEventIdInitVal

/-- `_get_next_event_id_for_container`: `atomic_fetch_add` on the container's counter, loaded on a
cache miss.  Two workers that miss at once end up on one counter, so the miss is one step. -/
def getNextEventIdForContainer (containerName : String) (e : EngState) : ℕ × EngState :=
  let next := (e.nextEventIdByContainer containerName).getD (loadNextEventId e.lmdb containerName)
  (next, { e with
    nextEventIdByContainer :=
      Function.update e.nextEventIdByContainer containerName (some (next + 1)) })

/-- `_write_to_event_ent_map`. -/
def writeToEventEntMap (containerName : String) (entId eventId : ℕ) (e : EngState) : EngState :=
  { e with
    eventToEntityMap := Function.update e.eventToEntityMap containerName
      (Function.update (e.eventToEntityMap containerName) eventId (some entId)) }

/-- `_send_to_writer`: fails when the writer's ring is full. -/
def sendToWriter (msg : WriterMsg) (e : EngState) : Option EngState :=
  (e.writerQueue.enqueue msg).map fun q => { e with writerQueue := q }

/-- The op queue an op is routed to. -/
def EngineConfig.opQueueOf (cfg : EngineConfig) (op : OpQueueMsg) : ℕ :=
  routeKeyToQueue cfg.hash op.serDbKey numOpQueues

/-- `_queue_up_ops`: the ops in order, the first full queue ending it (the ops not enqueued are
freed). -/
def queueUpOps (cfg : EngineConfig) : List OpQueueMsg → EngState → Bool × EngState
  | [], e => (true, e)
  | op :: ops, e =>
    match (e.opQueues (cfg.opQueueOf op)).enqueue op with
    | none => (false, e)
    | some q =>
      queueUpOps cfg ops { e with opQueues := Function.update e.opQueues (cfg.opQueueOf op) q }

/-- Steps 1–3 of `_process_msg`: the entity's internal id and whether it is new, the event id, and
the state with both taken and recorded. -/
def assignEventIds (w : ℕ) (containerName : String) (ent : Literal) (e : EngState) :
    ℕ × Bool × ℕ × EngState :=
  let (entIntId, isNewEnt, e) := getEntityMapping w ent e
  let (eventId, e) := getNextEventIdForContainer containerName e
  (entIntId, isNewEnt, eventId, writeToEventEntMap containerName entIntId eventId e)

/-- The rest of `_process_msg` once the writer message is built: send it, then queue the ops if
`worker_create_ops` built them. -/
def issueEvent (cfg : EngineConfig) (msg : WriterMsg)
    (ops : Except WorkerOpsError (List OpQueueMsg)) (e : EngState) : Bool × EngState :=
  match sendToWriter msg e with
  | none => (false, e)
  | some e =>
    match ops with
    | .error _ => (false, e)
    | .ok ops => queueUpOps cfg ops e

/-- `_process_msg` of worker `w` on an `EVENT`'s context.  The container name is the `in` tag's
string and the entity the `entity` tag's literal, which the validator guarantees. -/
def processMsg (cfg : EngineConfig) (w : ℕ) (ctx : CmdCtx) (e : EngState) : Bool × EngState :=
  match ctx.inTagValue, ctx.entityTagValue with
  | some (.literal (.str containerName)), some (.literal ent) =>
    let (entIntId, isNewEnt, eventId, e) := assignEventIds w containerName ent e
    match workerCreateWriterMsg ctx containerName eventId entIntId ent isNewEnt
        (cfg.keyToIndex containerName) with
    | none => (false, e)
    -- `worker_create_ops` has no effect, so building the ops first changes nothing
    | some msg => issueEvent cfg msg (workerCreateOps ctx containerName entIntId eventId) e
  | _, _ => (false, e)

/-- The entity counter `worker_init_global` restores: the persisted `next_ent_id`, or `1`. -/
def loadNextEntId (lmdb : Lmdb) : ℕ :=
  match lmdb nextEntIdDbKey with
  | some (.u32 v) => v
  | _ => sysNextEntIdInitVal

/-- The state `eng_init` starts from, on what persisted: LMDB and the two mmap'd maps.  The entity
counter is restored, the event counters and the workers' caches are empty, and so are the rings. -/
def EngState.start (lmdb : Lmdb) (entityIdMap : ℕ → Option Literal)
    (eventToEntityMap : String → ℕ → Option ℕ) : EngState :=
  ⟨lmdb, entityIdMap, eventToEntityMap, fun _ => none, loadNextEntId lmdb, fun _ _ => none,
    RingBuffer.empty (engWriterQueueCapacity - 1), fun _ => RingBuffer.empty (capacityPerOpQueue - 1)⟩

theorem processMsg_cases (cfg : EngineConfig) (w : ℕ) (ctx : CmdCtx) (e : EngState) :
    (processMsg cfg w ctx e).2 = e ∨
    ∃ c ent, ctx.inTagValue = some (.literal (.str c)) ∧ ctx.entityTagValue = some (.literal ent) ∧
      ((processMsg cfg w ctx e).2 = (assignEventIds w c ent e).2.2.2 ∨
        ∃ msg, workerCreateWriterMsg ctx c (assignEventIds w c ent e).2.2.1
            (assignEventIds w c ent e).1 ent (assignEventIds w c ent e).2.1 (cfg.keyToIndex c) =
            some msg ∧
          processMsg cfg w ctx e = issueEvent cfg msg
            (workerCreateOps ctx c (assignEventIds w c ent e).1 (assignEventIds w c ent e).2.2.1)
            (assignEventIds w c ent e).2.2.2) := by
  unfold processMsg
  split
  · rename_i c ent hin hent
    refine .inr ⟨c, ent, hin, hent, ?_⟩
    obtain ⟨entIntId, isNew, eventId, e₁⟩ := assignEventIds w c ent e
    dsimp only
    split
    · exact .inl rfl
    · exact .inr ⟨_, ‹_›, rfl⟩
  · exact .inl rfl

/-! ## Frame lemmas -/

section Frame

variable {w : ℕ} {ent : Literal} {e : EngState}

@[simp] theorem getEntityMapping_lmdb : (getEntityMapping w ent e).2.2.lmdb = e.lmdb := by
  unfold getEntityMapping
  split <;> rfl

@[simp] theorem getEntityMapping_writerQueue :
    (getEntityMapping w ent e).2.2.writerQueue = e.writerQueue := by
  unfold getEntityMapping
  split <;> rfl

@[simp] theorem getEntityMapping_opQueues :
    (getEntityMapping w ent e).2.2.opQueues = e.opQueues := by
  unfold getEntityMapping
  split <;> rfl

@[simp] theorem getEntityMapping_eventToEntityMap :
    (getEntityMapping w ent e).2.2.eventToEntityMap = e.eventToEntityMap := by
  unfold getEntityMapping
  split <;> rfl

@[simp] theorem getEntityMapping_nextEventIdByContainer :
    (getEntityMapping w ent e).2.2.nextEventIdByContainer = e.nextEventIdByContainer := by
  unfold getEntityMapping
  split <;> rfl

variable {c : String}

@[simp] theorem getNextEventIdForContainer_lmdb : (getNextEventIdForContainer c e).2.lmdb = e.lmdb :=
  rfl

@[simp] theorem getNextEventIdForContainer_writerQueue :
    (getNextEventIdForContainer c e).2.writerQueue = e.writerQueue := rfl

@[simp] theorem getNextEventIdForContainer_opQueues :
    (getNextEventIdForContainer c e).2.opQueues = e.opQueues := rfl

@[simp] theorem getNextEventIdForContainer_entityIdMap :
    (getNextEventIdForContainer c e).2.entityIdMap = e.entityIdMap := rfl

@[simp] theorem getNextEventIdForContainer_eventToEntityMap :
    (getNextEventIdForContainer c e).2.eventToEntityMap = e.eventToEntityMap := rfl

@[simp] theorem getNextEventIdForContainer_entityCache :
    (getNextEventIdForContainer c e).2.entityCache = e.entityCache := rfl

variable {entId eventId : ℕ}

@[simp] theorem writeToEventEntMap_lmdb : (writeToEventEntMap c entId eventId e).lmdb = e.lmdb :=
  rfl

@[simp] theorem writeToEventEntMap_writerQueue :
    (writeToEventEntMap c entId eventId e).writerQueue = e.writerQueue := rfl

@[simp] theorem writeToEventEntMap_opQueues :
    (writeToEventEntMap c entId eventId e).opQueues = e.opQueues := rfl

@[simp] theorem writeToEventEntMap_entityIdMap :
    (writeToEventEntMap c entId eventId e).entityIdMap = e.entityIdMap := rfl

@[simp] theorem writeToEventEntMap_entityCache :
    (writeToEventEntMap c entId eventId e).entityCache = e.entityCache := rfl

end Frame

/-! ## What an event issues -/

section Issue

variable (cfg : EngineConfig)

theorem queueUpOps_prefix :
    ∀ (ops : List OpQueueMsg) (e : EngState), ∃ n ≤ ops.length,
      ((queueUpOps cfg ops e).1 = true ↔ n = ops.length) ∧
      (∀ i, ((queueUpOps cfg ops e).2.opQueues i).items =
        (e.opQueues i).items ++ (ops.take n).filter fun op => cfg.opQueueOf op = i) ∧
      (queueUpOps cfg ops e).2 = { e with opQueues := (queueUpOps cfg ops e).2.opQueues }
  | [], e => ⟨0, le_rfl, by simp [queueUpOps], by simp [queueUpOps], rfl⟩
  | op :: ops, e => by
    cases hq : (e.opQueues (cfg.opQueueOf op)).enqueue op with
    | none =>
      -- the first full queue stops the loop: nothing of this event's ops was enqueued
      refine ⟨0, Nat.zero_le _, ?_, ?_, ?_⟩
      · simp [queueUpOps, hq]
      · simp [queueUpOps, hq]
      · simp [queueUpOps, hq]
    | some q =>
      let e₁ : EngState := { e with opQueues := Function.update e.opQueues (cfg.opQueueOf op) q }
      have hrun : queueUpOps cfg (op :: ops) e = queueUpOps cfg ops e₁ := by
        simp [queueUpOps, hq, e₁]
      obtain ⟨n, hn, hok, hitems, hframe⟩ := queueUpOps_prefix ops e₁
      have hq' := RingBuffer.enqueue_eq_some hq
      refine ⟨n + 1, by simpa using hn, ?_, ?_, ?_⟩
      · rw [hrun, hok]
        simp
      · intro i
        rw [hrun, hitems i]
        by_cases hi : cfg.opQueueOf op = i
        · subst hi
          simp [e₁, hq'.1]
        · simp [e₁, Function.update_of_ne (Ne.symm hi), hi]
      · rw [hrun, hframe]

/-- The ops an op-creation outcome holds: none when creation failed. -/
def opsOrNil : Except WorkerOpsError (List OpQueueMsg) → List OpQueueMsg
  | .ok ops => ops
  | .error _ => []

theorem issueEvent_prefix (msg : WriterMsg) (ops : Except WorkerOpsError (List OpQueueMsg))
    (e : EngState) :
    ∃ n ≤ (opsOrNil ops).length + 1,
      (issueEvent cfg msg ops e).2.writerQueue.items = e.writerQueue.items ++ [msg].take n ∧
      (∀ i, ((issueEvent cfg msg ops e).2.opQueues i).items =
        (e.opQueues i).items ++ ((opsOrNil ops).take (n - 1)).filter fun op => cfg.opQueueOf op = i) ∧
      ((issueEvent cfg msg ops e).1 = true ↔ ops.isOk ∧ n = (opsOrNil ops).length + 1) ∧
      (issueEvent cfg msg ops e).2 = { e with
        writerQueue := (issueEvent cfg msg ops e).2.writerQueue
        opQueues := (issueEvent cfg msg ops e).2.opQueues } := by
  cases hs : sendToWriter msg e with
  | none =>
    refine ⟨0, Nat.zero_le _, ?_, ?_, ?_, ?_⟩ <;> simp [issueEvent, hs]
  | some e₁ =>
    have he₁ : e₁ = { e with writerQueue := e₁.writerQueue } := by
      simp only [sendToWriter, Option.map_eq_some_iff] at hs
      obtain ⟨q, -, rfl⟩ := hs
      rfl
    have hq : e₁.writerQueue.items = e.writerQueue.items ++ [msg] := by
      simp only [sendToWriter, Option.map_eq_some_iff] at hs
      obtain ⟨q, hq, rfl⟩ := hs
      exact (RingBuffer.enqueue_eq_some hq).1
    cases ops with
    | error err =>
      refine ⟨1, by simp [opsOrNil], ?_, ?_, ?_, ?_⟩
      · simp [issueEvent, hs, hq]
      · intro i
        simp [issueEvent, hs, opsOrNil]
        rw [he₁]
      · simp [issueEvent, hs, Except.isOk, Except.toBool]
      · simp only [issueEvent, hs]
        have hops : e₁.opQueues = e.opQueues := by rw [he₁]
        rw [hops]
        exact he₁
    | ok ops =>
      obtain ⟨n, hn, hok, hitems, hframe⟩ := queueUpOps_prefix cfg ops e₁
      refine ⟨n + 1, by simpa [opsOrNil] using hn, ?_, ?_, ?_, ?_⟩
      · simp only [issueEvent, hs]
        rw [hframe]
        simpa using hq
      · intro i
        simp only [issueEvent, hs, hitems i, opsOrNil, Nat.add_sub_cancel]
        rw [he₁]
      · simp [issueEvent, hs, hok, opsOrNil, Except.isOk, Except.toBool]
      · simp only [issueEvent, hs]
        rw [hframe, he₁]

/-- **An event's writes go out in order and stop at the first failure.** Once its ids are taken
and its writer message built, an `EVENT` adds to the queues the first `n` of: its writer message,
then its ops in order.  `_process_msg` succeeds exactly when the ops were built and all of it was
enqueued, so a failure after the message leaves the message on the writer's ring. -/
theorem processMsg_issued {ctx : CmdCtx} {containerName : String} {ent : Literal}
    {msg : WriterMsg} (w : ℕ) (e : EngState)
    (hin : ctx.inTagValue = some (.literal (.str containerName)))
    (hent : ctx.entityTagValue = some (.literal ent))
    (hmsg : workerCreateWriterMsg ctx containerName (assignEventIds w containerName ent e).2.2.1
      (assignEventIds w containerName ent e).1 ent (assignEventIds w containerName ent e).2.1
      (cfg.keyToIndex containerName) = some msg) :
    let ops := workerCreateOps ctx containerName (assignEventIds w containerName ent e).1
      (assignEventIds w containerName ent e).2.2.1
    ∃ n ≤ (opsOrNil ops).length + 1,
      (processMsg cfg w ctx e).2.writerQueue.items = e.writerQueue.items ++ [msg].take n ∧
      (∀ i, ((processMsg cfg w ctx e).2.opQueues i).items =
        (e.opQueues i).items ++ ((opsOrNil ops).take (n - 1)).filter fun op => cfg.opQueueOf op = i) ∧
      ((processMsg cfg w ctx e).1 = true ↔ ops.isOk ∧ n = (opsOrNil ops).length + 1) := by
  intro ops
  have hrun : processMsg cfg w ctx e =
      issueEvent cfg msg ops (assignEventIds w containerName ent e).2.2.2 := by
    simp only [processMsg, hin, hent]
    rw [hmsg]
  obtain ⟨n, hn, hw, hops, hok, -⟩ :=
    issueEvent_prefix cfg msg ops (assignEventIds w containerName ent e).2.2.2
  refine ⟨n, hn, ?_, ?_, ?_⟩
  · rw [hrun, hw]
    simp [assignEventIds]
  · intro i
    rw [hrun, hops i]
    simp [assignEventIds]
  · rw [hrun, hok]

theorem issueEvent_of_full (msg : WriterMsg) (op : OpQueueMsg) (ops : List OpQueueMsg)
    {e : EngState} (hroom : e.writerQueue.items.length + 1 < e.writerQueue.size)
    (hfull : (e.opQueues (cfg.opQueueOf op)).size ≤ (e.opQueues (cfg.opQueueOf op)).items.length + 1) :
    (issueEvent cfg msg (.ok (op :: ops)) e).1 = false ∧
    (issueEvent cfg msg (.ok (op :: ops)) e).2.writerQueue.items = e.writerQueue.items ++ [msg] ∧
    (issueEvent cfg msg (.ok (op :: ops)) e).2.opQueues = e.opQueues := by
  obtain ⟨q, hq⟩ := Option.isSome_iff_exists.1 ((RingBuffer.enqueue_isSome (x := msg)).2 hroom)
  have hnone : (e.opQueues (cfg.opQueueOf op)).enqueue op = none := RingBuffer.enqueue_eq_none.2 hfull
  simp [issueEvent, sendToWriter, hq, queueUpOps, hnone, (RingBuffer.enqueue_eq_some hq).1]

end Issue

/-! ## One event on a fresh engine -/

/-- `EVENT in:"c" entity:"u" a:"x"`. -/
def sampleEvent : Command :=
  ⟨.event, [⟨.reserved .kwIn, .literal (.str "c")⟩, ⟨.reserved .kwEntity, .literal (.str "u")⟩,
    ⟨.custom "a", .literal (.str "x")⟩]⟩

/-- The engine's routing hash, no index. -/
def sampleCfg : EngineConfig := ⟨routingHash, fun _ => []⟩

/-- An engine started on empty storage. -/
def freshState : EngState := EngState.start (fun _ => none) (fun _ => none) (fun _ _ => none)

/-- The writer message of `sampleEvent` as the first event of a fresh engine. -/
def sampleMsg : WriterMsg :=
  ⟨[⟨.event ⟨1, "c", .str "u", 0, [("a", some (.str "x"))]⟩, none, eventDbKey "c" 1, .always⟩,
    createEventCounterEntry "c" 1, createEntCounterEntry 1, createEntEntry 1 (.str "u")]⟩

theorem processMsg_issued_sampleEvent :
    (buildCmdContext sampleEvent 0).inTagValue = some (.literal (.str "c")) ∧
    (buildCmdContext sampleEvent 0).entityTagValue = some (.literal (.str "u")) ∧
    workerCreateWriterMsg (buildCmdContext sampleEvent 0) "c"
      (assignEventIds 0 "c" (.str "u") freshState).2.2.1
      (assignEventIds 0 "c" (.str "u") freshState).1 (.str "u")
      (assignEventIds 0 "c" (.str "u") freshState).2.1 (sampleCfg.keyToIndex "c") = some sampleMsg ∧
    let ops := workerCreateOps (buildCmdContext sampleEvent 0) "c"
      (assignEventIds 0 "c" (.str "u") freshState).1
      (assignEventIds 0 "c" (.str "u") freshState).2.2.1
    ∃ n ≤ (opsOrNil ops).length + 1,
      (processMsg sampleCfg 0 (buildCmdContext sampleEvent 0) freshState).2.writerQueue.items =
        freshState.writerQueue.items ++ [sampleMsg].take n ∧
      (∀ i, ((processMsg sampleCfg 0 (buildCmdContext sampleEvent 0) freshState).2.opQueues i).items =
        (freshState.opQueues i).items ++
          ((opsOrNil ops).take (n - 1)).filter fun op => sampleCfg.opQueueOf op = i) ∧
      ((processMsg sampleCfg 0 (buildCmdContext sampleEvent 0) freshState).1 = true ↔
        ops.isOk ∧ n = (opsOrNil ops).length + 1) := by
  have hin : (buildCmdContext sampleEvent 0).inTagValue = some (.literal (.str "c")) := by decide
  have hent : (buildCmdContext sampleEvent 0).entityTagValue = some (.literal (.str "u")) := by
    decide
  have hmsg : workerCreateWriterMsg (buildCmdContext sampleEvent 0) "c"
      (assignEventIds 0 "c" (.str "u") freshState).2.2.1
      (assignEventIds 0 "c" (.str "u") freshState).1 (.str "u")
      (assignEventIds 0 "c" (.str "u") freshState).2.1 (sampleCfg.keyToIndex "c") =
      some sampleMsg := by
    decide
  exact ⟨hin, hent, hmsg, processMsg_issued sampleCfg 0 freshState hin hent hmsg⟩

/-- An op queue holding as many ops as its ring can. -/
@[irreducible] def fullOpQueue : RingBuffer OpQueueMsg :=
  ⟨capacityPerOpQueue, List.replicate (capacityPerOpQueue - 1) ⟨⟨.none, eventDbKey "" 0, 0⟩, ""⟩,
    by rw [List.length_replicate]; exact Nat.sub_lt (by decide) Nat.one_pos⟩

/-- With every op queue full, `sampleEvent` fails, but its writer message (the event record, the
counters and the entity mapping) is on the writer's ring, while no op (the entity's and the tag's
index updates) is. -/
theorem processMsg_fullOpQueues :
    (processMsg sampleCfg 0 (buildCmdContext sampleEvent 0)
      { freshState with opQueues := fun _ => fullOpQueue }).1 = false ∧
    (processMsg sampleCfg 0 (buildCmdContext sampleEvent 0)
      { freshState with opQueues := fun _ => fullOpQueue }).2.writerQueue.items = [sampleMsg] ∧
    (processMsg sampleCfg 0 (buildCmdContext sampleEvent 0)
      { freshState with opQueues := fun _ => fullOpQueue }).2.opQueues = fun _ => fullOpQueue := by
  let e : EngState := { freshState with opQueues := fun _ => fullOpQueue }
  let op₁ : OpQueueMsg := ⟨⟨.add, ⟨"c", .usr .metadata, none, .str "entities"⟩, 1⟩, "c|1|entities"⟩
  let op₂ : OpQueueMsg := ⟨⟨.add, ⟨"c", .usr .invertedEventIndex, none, .str "a:x"⟩, 1⟩, "c|0|a:x"⟩
  have hin : (buildCmdContext sampleEvent 0).inTagValue = some (.literal (.str "c")) := by decide
  have hent : (buildCmdContext sampleEvent 0).entityTagValue = some (.literal (.str "u")) := by
    decide
  have hmsg : workerCreateWriterMsg (buildCmdContext sampleEvent 0) "c"
      (assignEventIds 0 "c" (.str "u") e).2.2.1 (assignEventIds 0 "c" (.str "u") e).1 (.str "u")
      (assignEventIds 0 "c" (.str "u") e).2.1 (sampleCfg.keyToIndex "c") = some sampleMsg := by
    decide
  have hops : workerCreateOps (buildCmdContext sampleEvent 0) "c"
      (assignEventIds 0 "c" (.str "u") e).1 (assignEventIds 0 "c" (.str "u") e).2.2.1 =
      .ok [op₁, op₂] := by
    decide
  have hrun : processMsg sampleCfg 0 (buildCmdContext sampleEvent 0) e =
      issueEvent sampleCfg sampleMsg (.ok [op₁, op₂]) (assignEventIds 0 "c" (.str "u") e).2.2.2 := by
    simp only [processMsg, hin, hent]
    rw [hmsg, hops]
  have hframe : (assignEventIds 0 "c" (.str "u") e).2.2.2.writerQueue = freshState.writerQueue ∧
      (assignEventIds 0 "c" (.str "u") e).2.2.2.opQueues = fun _ => fullOpQueue := by
    simp [assignEventIds, e]
  have hfull : fullOpQueue.size ≤ fullOpQueue.items.length + 1 := by
    simp only [fullOpQueue, List.length_replicate, capacityPerOpQueue]
    omega
  obtain ⟨hres, hw, hq⟩ := issueEvent_of_full sampleCfg sampleMsg op₁ [op₂]
    (by rw [hframe.1]; decide) (by rw [hframe.2]; exact hfull)
  refine ⟨?_, ?_, ?_⟩
  · rw [hrun]
    exact hres
  · rw [hrun, hw, hframe.1]
    rfl
  · rw [hrun, hq, hframe.2]

end Orrp.Engine
