import Orrp.Engine.Pipeline
import Orrp.Engine.Consumer

/-!
# The engine's threads together, and their shutdown (`engine/engine.c`)

`eng_init` starts one writer, `NUM_CONSUMERS` consumers on `OP_QUEUES_PER_CONSUMER` op queues each,
and `NUM_WORKERS` workers on `CMD_QUEUES_PER_WORKER` command queues each.  `eng_event` acknowledges
an `EVENT` (`is_ok`) as soon as its context is on the command queue its entity routes to.  A worker
takes it from there (`_process_msg`); the writer commits its record and counters; a consumer folds
its ops into cached bitmaps, which reach the writer on a flush, and the writer's commit stores each
flushed entry's flush version.

`System` is all of it, and `SysAction` what can happen next, in any interleaving.  `eng_shutdown`
sets each pool's stop flag and joins its threads: the workers, then the writer, then the consumers.
A thread whose flag is set takes no further step; none of the three loops drains its input before
it stops, and a consumer does not flush on the way out.

* `lmdb_frozen_after_stopWriter` — once the writer's flag is set LMDB never changes again, whatever
  is still on the queues or dirty in a consumer's cache;
* `System.run_consume_idle` — idle consumer turns only count towards the next flush.
-/

namespace Orrp.Engine

open Orrp.Query Orrp.Lib

/-- `NUM_CMD_QUEUEs`. -/
def numCmdQueues : ℕ := 16

/-- `CAPACITY_PER_cmd_queue`. -/
def capacityPerCmdQueue : ℕ := 131072

/-- `NUM_WORKERS`. -/
def numWorkers : ℕ := 4

/-- `CMD_QUEUES_PER_WORKER`. -/
def cmdQueuesPerWorker : ℕ := 4

/-- `NUM_CONSUMERS`. -/
def numConsumers : ℕ := 4

/-- `OP_QUEUES_PER_CONSUMER`. -/
def opQueuesPerConsumer : ℕ := 4

/-- The `consumer_config_t` `eng_init` starts consumer `i` with. -/
def engConsumerConfig (i : ℕ) : ConsumerConfig :=
  ⟨128, i * opQueuesPerConsumer, opQueuesPerConsumer⟩

/-- The workers' configuration, and the hash `_eng_enqueue_cmd` masks for an integer entity id.
The engine's is `entityIdHash`; the results that hold for every hash take it as a parameter. -/
structure SystemConfig where
  eng : EngineConfig
  hashI64 : ℤ → ℕ

/-- `xxhash64(&entity_id, sizeof(int64_t), CMD_QUEUE_HASH_SEED)`: the hash of the eight bytes of an
`int64_t` entity id, little-endian two's complement. -/
def entityIdHash (n : ℤ) : ℕ := (Core.xxhash64 (leBytes 8 (n % 2 ^ 64).toNat) routingHashSeed).toNat

/-- The command queue `_eng_enqueue_cmd` routes a context to: its entity id's hash masked by
`CMD_QUEUE_MASK`.  The validator guarantees an entity literal, which the source reads unchecked; a
context without one is routed nowhere. -/
def SystemConfig.cmdQueueOf (cfg : SystemConfig) (ctx : CmdCtx) : Option ℕ :=
  match ctx.entityTagValue with
  | some (.literal (.str s)) => some (cfg.eng.hash s &&& (numCmdQueues - 1))
  | some (.literal (.num n)) => some (cfg.hashI64 n &&& (numCmdQueues - 1))
  | _ => none

/-- Everything the engine's threads share, and the pools' stop flags. -/
structure System where
  eng : EngState
  /-- `g_cmd_queues`. -/
  cmdQueues : ℕ → RingBuffer CmdCtx
  /-- The heap the consumers' cache entries live in, and the writer bumps. -/
  mem : Mem
  /-- `g_consumers`, with the cycle counter of each one's loop. -/
  consumers : ℕ → Consumer
  workersStop : Bool
  writerStop : Bool
  consumersStop : Bool

namespace System

/-- The system `eng_init` starts on empty storage. -/
def init : System :=
  ⟨freshState, fun _ => RingBuffer.empty (capacityPerCmdQueue - 1), Mem.empty,
    fun _ => ⟨consumerCacheInit, 0, []⟩, false, false, false⟩

/-- `eng_event`: the command's context, enqueued on its command queue; acknowledged when it was. -/
def event (cfg : SystemConfig) (cmd : Command) (arrivalTs : ℤ) (s : System) : Bool × System :=
  let ctx := buildCmdContext cmd arrivalTs
  match cfg.cmdQueueOf ctx with
  | none => (false, s)
  | some i =>
    match (s.cmdQueues i).enqueue ctx with
    | none => (false, s)
    | some q => (true, { s with cmdQueues := Function.update s.cmdQueues i q })

/-- One message of worker `w`'s `_do_work`: the next context of its `i`-th command queue, handled
by `_process_msg`. -/
def work (cfg : SystemConfig) (w i : ℕ) (s : System) : System :=
  let idx := w * cmdQueuesPerWorker + i
  match (s.cmdQueues idx).dequeue with
  | none => s
  | some (ctx, q) =>
    { s with
      cmdQueues := Function.update s.cmdQueues idx q
      eng := (processMsg cfg.eng w ctx s.eng).2 }

/-- A turn of the writer: a cycle on its ring and LMDB, and `_bump_flush_version` on the cache
entries of the committed batches. -/
def writerTurn (commits : String → Bool) (s : System) : System :=
  let r := engWriterCycle commits ⟨s.eng.writerQueue, s.eng.lmdb⟩
  { s with
    eng := { s.eng with writerQueue := r.1.queue, lmdb := r.1.lmdb }
    mem := bumpFlushVersions s.mem r.2 }

/-- A step of consumer `i`: the start of a turn, or a container's batch read from LMDB as it stands
when the batch starts. -/
def consume (i : ℕ) (s : System) : System :=
  let r := consumerStep (engConsumerConfig i) s.eng.lmdb (s.consumers i) s.mem s.eng.opQueues
    s.eng.writerQueue
  { s with
    consumers := Function.update s.consumers i r.1
    mem := r.2.1
    eng := { s.eng with opQueues := r.2.2.1, writerQueue := r.2.2.2 } }

end System

/-- What happens next. -/
inductive SysAction
  /-- The server hands an `EVENT` to `eng_event`. -/
  | event (cmd : Command) (arrivalTs : ℤ)
  /-- Worker `w` takes a message from its `i`-th command queue. -/
  | work (w i : ℕ)
  /-- The writer runs a turn; `commits` says which containers' batches commit. -/
  | writer (commits : String → Bool)
  /-- Consumer `i` starts a turn of its loop, or processes a container's batch of it. -/
  | consume (i : ℕ)
  /-- `eng_shutdown` has stopped and joined every worker. -/
  | stopWorkers
  /-- `eng_shutdown` has stopped and joined the writer. -/
  | stopWriter
  /-- `eng_shutdown` has stopped and joined every consumer. -/
  | stopConsumers

namespace System

/-- One step; a thread whose pool is stopped does nothing. -/
def step (cfg : SystemConfig) : SysAction → System → System
  | .event cmd ts, s => (s.event cfg cmd ts).2
  | .work w i, s =>
    if s.workersStop = false ∧ w < numWorkers ∧ i < cmdQueuesPerWorker then s.work cfg w i else s
  | .writer commits, s => if s.writerStop then s else s.writerTurn commits
  | .consume i, s => if s.consumersStop = false ∧ i < numConsumers then s.consume i else s
  | .stopWorkers, s => { s with workersStop := true }
  | .stopWriter, s => { s with writerStop := true }
  | .stopConsumers, s => { s with consumersStop := true }

/-- A run: the actions in order. -/
def run (cfg : SystemConfig) (s : System) (as : List SysAction) : System :=
  as.foldl (fun s a => s.step cfg a) s

@[simp] theorem run_nil (cfg : SystemConfig) (s : System) : s.run cfg [] = s := rfl

@[simp] theorem run_cons (cfg : SystemConfig) (s : System) (a : SysAction) (as : List SysAction) :
    s.run cfg (a :: as) = (s.step cfg a).run cfg as := rfl

theorem run_append (cfg : SystemConfig) (s : System) (as bs : List SysAction) :
    s.run cfg (as ++ bs) = (s.run cfg as).run cfg bs :=
  List.foldl_append

end System

/-- `eng_shutdown`'s stops, in its order. -/
def engShutdown : List SysAction := [.stopWorkers, .stopWriter, .stopConsumers]

/-! ## After the writer stops -/

section Frozen

variable {cfg : SystemConfig} {s : System}

theorem processMsg_lmdb (ecfg : EngineConfig) (w : ℕ) (ctx : CmdCtx) (e : EngState) :
    (processMsg ecfg w ctx e).2.lmdb = e.lmdb := by
  rcases processMsg_cases ecfg w ctx e with hsame | ⟨c, ent, -, -, hstop | ⟨msg, -, hrun⟩⟩
  · rw [hsame]
  · rw [hstop, assignEventIds_lmdb]
  · obtain ⟨-, -, -, -, -, hframe⟩ := issueEvent_prefix ecfg msg
      (workerCreateOps ctx c (assignEventIds w c ent e).1 (assignEventIds w c ent e).2.2.1)
      (assignEventIds w c ent e).2.2.2
    rw [hrun, hframe]
    exact assignEventIds_lmdb (c := c)

theorem System.event_frame (cmd : Command) (ts : ℤ) :
    (s.event cfg cmd ts).2 = { s with cmdQueues := (s.event cfg cmd ts).2.cmdQueues } := by
  unfold System.event
  dsimp only
  split
  · rfl
  · split <;> rfl

theorem System.work_frame (w i : ℕ) :
    s.work cfg w i = { s with cmdQueues := (s.work cfg w i).cmdQueues, eng := (s.work cfg w i).eng } := by
  unfold System.work
  dsimp only
  split <;> rfl

theorem System.work_lmdb (w i : ℕ) : (s.work cfg w i).eng.lmdb = s.eng.lmdb := by
  unfold System.work
  dsimp only
  split
  · rfl
  · exact processMsg_lmdb _ _ _ _

/-- **One step with the writer stopped.**  LMDB stays as it is, and so does the writer's flag. -/
theorem System.step_of_writerStop (h : s.writerStop = true) (a : SysAction) :
    (s.step cfg a).eng.lmdb = s.eng.lmdb ∧ (s.step cfg a).writerStop = true := by
  cases a with
  | event cmd ts =>
    rw [System.step, System.event_frame]
    exact ⟨rfl, h⟩
  | work w i =>
    rw [System.step]
    split
    · rw [System.work_frame]
      exact ⟨System.work_lmdb w i, h⟩
    · exact ⟨rfl, h⟩
  | writer commits =>
    rw [System.step, if_pos h]
    exact ⟨rfl, h⟩
  | consume i =>
    rw [System.step]
    split
    · exact ⟨rfl, h⟩
    · exact ⟨rfl, h⟩
  | stopWorkers => exact ⟨rfl, h⟩
  | stopWriter => exact ⟨rfl, rfl⟩
  | stopConsumers => exact ⟨rfl, h⟩

theorem System.run_of_writerStop :
    ∀ {s : System}, s.writerStop = true → ∀ as : List SysAction, (s.run cfg as).eng.lmdb = s.eng.lmdb
  | _, _, [] => rfl
  | s, h, a :: as => by
    have hstep : (s.step cfg a).eng.lmdb = s.eng.lmdb ∧ (s.step cfg a).writerStop = true :=
      System.step_of_writerStop h a
    obtain ⟨hl, hw⟩ := hstep
    rw [System.run_cons, System.run_of_writerStop hw as, hl]

/-- **Nothing reaches LMDB after the writer stops.**  In every run, once `eng_shutdown` has set the
writer's flag LMDB holds what it held then, whatever the command, op and writer queues and the
consumers' dirty entries still held, and whatever the other threads do after. -/
theorem lmdb_frozen_after_stopWriter (s : System) (as bs : List SysAction) :
    (s.run cfg (as ++ .stopWriter :: bs)).eng.lmdb = (s.run cfg as).eng.lmdb := by
  rw [System.run_append, System.run_cons]
  exact System.run_of_writerStop rfl bs

/-- The engine's hashes, no index. -/
def sampleSysCfg : SystemConfig := ⟨sampleCfg, entityIdHash⟩

/-- `sampleEvent` acknowledged and handled by worker `0`, then `eng_shutdown`: the event's record
never reaches LMDB, and its writer message is left on the ring. -/
theorem shutdown_drops_acked_event :
    (System.init.event sampleSysCfg sampleEvent 0).1 = true ∧
      ((System.init.event sampleSysCfg sampleEvent 0).2.run sampleSysCfg
        (.work 0 0 :: engShutdown)).eng.lmdb (eventDbKey "c" 1) = none ∧
      ((System.init.event sampleSysCfg sampleEvent 0).2.run sampleSysCfg
        (.work 0 0 :: engShutdown)).eng.writerQueue.items = [sampleMsg] := by
  decide +kernel

end Frozen

/-! ## Idle consumer turns -/

section Idle

variable {cfg : SystemConfig} {s : System} {i : ℕ}

/-- Consumer `i`'s op queues are empty. -/
def System.ConsumerIdle (s : System) (i : ℕ) : Prop :=
  ∀ j < opQueuesPerConsumer, (s.eng.opQueues (i * opQueuesPerConsumer + j)).items = []

instance (s : System) (i : ℕ) : Decidable (s.ConsumerIdle i) :=
  inferInstanceAs (Decidable (∀ j < opQueuesPerConsumer,
    (s.eng.opQueues (i * opQueuesPerConsumer + j)).items = []))

theorem System.consume_of_idle (hb : (s.consumers i).batches = []) (hidle : s.ConsumerIdle i)
    (hc : (s.consumers i).cycle + 1 ≠ 128) :
    s.consume i = { s with
      consumers := Function.update s.consumers i ⟨(s.consumers i).cache, (s.consumers i).cycle + 1, []⟩ } := by
  have hq : consumerDequeue (engConsumerConfig i) s.eng.opQueues = ([], s.eng.opQueues) :=
    consumerDequeue_of_empty hidle
  have hc' : (s.consumers i).cycle + 1 ≠ (engConsumerConfig i).flushEveryN := hc
  unfold System.consume
  rw [consumerStep_of_idle hb hq, consumerEndTurn_of_ne hc']

/-- **Idle turns.**  With no batch under way and its queues empty, `n` turns of a running consumer
short of a flush only add `n` to its cycle counter. -/
theorem System.run_consume_idle (hstop : s.consumersStop = false) (hi : i < numConsumers)
    (hb : (s.consumers i).batches = []) (hidle : s.ConsumerIdle i) :
    ∀ n, (s.consumers i).cycle + n < 128 →
      s.run cfg (List.replicate n (.consume i)) = { s with
        consumers := Function.update s.consumers i
          ⟨(s.consumers i).cache, (s.consumers i).cycle + n, []⟩ } := by
  intro n
  induction n generalizing s with
  | zero =>
    intro _
    have hself : (⟨(s.consumers i).cache, (s.consumers i).cycle + 0, []⟩ : Consumer) = s.consumers i := by
      rw [Nat.add_zero, ← hb]
    rw [List.replicate_zero, System.run_nil, hself, Function.update_eq_self]
  | succ n ih =>
    intro hn
    have hstep : s.step cfg (.consume i) = { s with
        consumers := Function.update s.consumers i
          ⟨(s.consumers i).cache, (s.consumers i).cycle + 1, []⟩ } := by
      rw [System.step, if_pos ⟨hstop, hi⟩, System.consume_of_idle hb hidle (by omega)]
    -- the turn changes only the counter, so the rest runs from a state as idle as this one
    have hrest := ih (s := { s with
        consumers := Function.update s.consumers i
          ⟨(s.consumers i).cache, (s.consumers i).cycle + 1, []⟩ }) hstop (by simp) hidle (by simp; omega)
    rw [List.replicate_succ, System.run_cons, hstep, hrest]
    simp only [Function.update_self, Function.update_idem, Nat.add_assoc, Nat.add_comm 1 n]

end Idle

/-! ## A change lost on a drained system -/

/-- Every queue is empty, and no consumer has a batch under way or an entry on its dirty list. -/
def System.Drained (s : System) : Prop :=
  (∀ i < numCmdQueues, (s.cmdQueues i).items = []) ∧
    (∀ i < numOpQueues, (s.eng.opQueues i).items = []) ∧ s.eng.writerQueue.items = [] ∧
    ∀ i < numConsumers, (s.consumers i).batches = [] ∧ (s.consumers i).cache.numDirtyEntries = 0

instance (s : System) : Decidable s.Drained :=
  inferInstanceAs (Decidable ((∀ i < numCmdQueues, (s.cmdQueues i).items = []) ∧
    (∀ i < numOpQueues, (s.eng.opQueues i).items = []) ∧ s.eng.writerQueue.items = [] ∧
    ∀ i < numConsumers, (s.consumers i).batches = [] ∧ (s.consumers i).cache.numDirtyEntries = 0))

/-- `EVENT in:"c" entity:"u" a:"x" b:"f"`.  The entity routes to command queue `0`; the tags'
keys `c|0|a:x` and `c|0|b:f` to op queue `9`, consumer `2`'s, and `c|1|entities` to op queue `1`,
consumer `0`'s. -/
def twoTagEvent : Command :=
  ⟨.event, [⟨.reserved .kwIn, .literal (.str "c")⟩, ⟨.reserved .kwEntity, .literal (.str "u")⟩,
    ⟨.custom "a", .literal (.str "x")⟩, ⟨.custom "b", .literal (.str "f")⟩]⟩

/-- Every batch commits. -/
def commitAll : String → Bool := fun _ => true

/-- The turns of consumers `0` and `2` that take an event's ops: each starts a turn, which dequeues
and batches, then processes its one container's batch. -/
def batchTurns : List SysAction := [.consume 0, .consume 0, .consume 2, .consume 2]

/-- `n` idle turns of consumer `0`, then of consumer `2`. -/
def idleTurns (n : ℕ) : List SysAction := List.replicate n (.consume 0) ++ List.replicate n (.consume 2)

/-- The turns on which consumers `0` and `2` flush, and the writer's commit of their messages. -/
def flushTurns : List SysAction := [.consume 0, .consume 2, .writer commitAll]

/-- An event acknowledged, handled by worker `0`, committed, and its ops batched. -/
def eventTurns (cmd : Command) : List SysAction := [.event cmd 0, .work 0 0, .writer commitAll] ++ batchTurns

/-- The run: `twoTagEvent`, whose `ADD`s to `a:x` and `b:f` join consumer `2`'s dirty list in that
order, idle turns up to the flush, then `sampleEvent`, whose `ADD` to `a:x` comes after the flush,
and idle turns up to the next flush. -/
def staleLinkRun : List SysAction :=
  eventTurns twoTagEvent ++ idleTurns 126 ++ flushTurns ++ eventTurns sampleEvent ++ idleTurns 126 ++
    flushTurns

/-- The key `a:x` of container `c`'s inverted index. -/
def sampleIndexKey : ContainerDbKey := ⟨"c", .usr .invertedEventIndex, none, .str "a:x"⟩

/-- After `staleLinkRun` every queue is drained and consumer `2` has just flushed, which the writer
committed; the second event is in LMDB and consumer `2` caches `a:x` as `{1, 2}`, but LMDB holds
`{1}` for it. -/
theorem staleLinkRun_loses_add :
    (System.init.run sampleSysCfg staleLinkRun).Drained ∧
      ((System.init.run sampleSysCfg staleLinkRun).consumers 2).cycle = 0 ∧
      ((System.init.run sampleSysCfg staleLinkRun).eng.lmdb (eventDbKey "c" 2)).isSome ∧
      ((System.init.run sampleSysCfg staleLinkRun).consumers 2).cache.table "c|0|a:x" = some 1 ∧
      (∃ e ∈ (System.init.run sampleSysCfg staleLinkRun).mem.entries 1,
        e.dbKey = sampleIndexKey ∧ e.bitmap = {1, 2}) ∧
      (System.init.run sampleSysCfg staleLinkRun).eng.lmdb sampleIndexKey = some (.bitmap {1}) := by
  simp only [staleLinkRun, idleTurns, System.run_append]
  -- each stretch of idle turns only counts up to the next flush
  rw [System.run_consume_idle ?stop₁ (by decide) ?batch₁ ?idle₁ 126 ?cycle₁]
  rw [System.run_consume_idle ?stop₂ (by decide) ?batch₂ ?idle₂ 126 ?cycle₂]
  rw [System.run_consume_idle ?stop₃ (by decide) ?batch₃ ?idle₃ 126 ?cycle₃]
  rw [System.run_consume_idle ?stop₄ (by decide) ?batch₄ ?idle₄ 126 ?cycle₄]
  all_goals decide +kernel

end Orrp.Engine
