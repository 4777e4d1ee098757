import Orrp.Engine.ConsumerCache
import Orrp.Engine.Writer
import Orrp.Engine.WorkerMsg
import Orrp.Core.Bitmaps

/-!
# The consumers (`engine/consumer/consumer`, `consumer_batch`, `consumer_flush`)

A consumer thread takes up to `MAX_BATCH_SIZE_PER_OP_QUEUE` messages from each of its op queues,
batches them by container and then by key (`consumer_batch_add_msg`), and applies each key's ops
to the key's cached bitmap.  Each container's batch opens a read transaction of its own
(`_process_batch`), and a miss loads the bitmap from that snapshot of LMDB, so that the other
threads may commit between two batches of one turn: `consumerStep` takes the start of a turn and
each container's batch as steps of their own.  Every `flush_every_n` turns of its loop it sends the
dirty entries to the writer in one message and clears the dirty list (`_flush_dirty`).  The writer
stores each committed entry's version as its flush version (`_bump_flush_version`); an entry whose
two versions agree may be evicted.

* `applyBitmapOps_eq` — a key's ops add the values of its `ADD`s;
* `flushDirty_of_dirtyList` — a flush sends the entries of the dirty list and clears it, also when
  the writer's ring has no room for the message;
* `createBmEntryBitmap_loadBitmap` — the bytes `_ser_bitmap` stores mean the bitmaps of the store
  `Lmdb`: on a miss, `_create_bm_entry` deserializes the bitmap `loadBitmap` reads.
-/

namespace Orrp.Engine

open Orrp.Lib

/-- `CONSUMER_CACHE_CAPACITY`. -/
def consumerCacheCapacity : ℕ := 65536

/-- `MAX_BATCH_SIZE_PER_OP_QUEUE`. -/
def maxBatchSizePerOpQueue : ℕ := 256

/-! ## Processing a batch -/

/-- The bitmap `_create_bm_entry` loads for a key: what the snapshot holds, a new empty bitmap
when it holds nothing, and none when the bytes do not deserialize. -/
def loadBitmap (snap : Lmdb) (k : ContainerDbKey) : Option (Finset ℕ) :=
  match snap k with
  | none => some ∅
  | some (.bitmap b) => some b
  | some _ => none

/-- `_get_or_Create_cache_entry`: the cached entry of the key, moved to the front of the LRU list,
or a new entry holding the snapshot's bitmap under the first op's key; and whether it was cached. -/
def getOrCreateCacheEntry (snap : Lmdb) (c : ConsumerCache) (m : Mem) (serDbKey : String)
    (msg : OpQueueMsg) : Option (ℕ × Bool) × ConsumerCache × Mem :=
  match consumerCacheGetEntry c serDbKey true with
  | (some p, c) => (some (p, true), c, m)
  | (none, c) =>
    match loadBitmap snap msg.op.dbKey with
    | none => (none, c, m)
    | some b =>
      let (p, m) := consumerCacheCreateEntryBitmap m msg.op.dbKey msg.serDbKey b
      (some (p, false), c, m)

/-- The loop of `_process_bitmap_ops` over a key's ops: each `ADD` adds its value, any other op is
rejected; and whether any `ADD` was met. -/
def applyBitmapOps (bm : Finset ℕ) (msgs : List OpQueueMsg) : Finset ℕ × Bool :=
  msgs.foldl (fun acc msg =>
    match msg.op.opType with
    | .add => (insert msg.op.value acc.1, true)
    | _ => acc) (bm, false)

/-- `_try_evict`: with the cache at capacity, the LRU tail is evicted and freed when it is clean. -/
def tryEvict (c : ConsumerCache) (m : Mem) : ConsumerCache × Mem :=
  if consumerCacheCapacity ≤ c.nEntries then
    match consumerCacheEvictLru c m with
    | (some victim, c) => (c, m.free victim)
    | (none, c) => (c, m)
  else (c, m)

/-- `_process_bitmap_ops`: the key's ops applied to the entry's bitmap (to a copy, for a cached
entry); after an `ADD` the new bitmap is installed, the version bumped and the entry added to the
dirty list.  A new entry then joins the cache, after an eviction when the cache is full; if the
table refuses it, it is freed. -/
def processBitmapOps (c : ConsumerCache) (m : Mem) (p : ℕ) (wasCached : Bool) (serDbKey : String)
    (msgs : List OpQueueMsg) : ConsumerCache × Mem :=
  match m.entries p with
  | none => (c, m)
  | some ent =>
    let (bm, dirty) := applyBitmapOps ent.bitmap msgs
    let (c, m) :=
      if dirty then
        consumerCacheAddEntryToDirtyList c
          (m.modify p fun e => { e with bitmap := bm, version := e.version + 1 }) p
      else (c, m)
    if wasCached then (c, m)
    else
      let (c, m) := tryEvict c m
      match consumerCacheAddEntry c serDbKey p with
      | (true, c) => (c, m)
      | (false, c) => (c, m.free p)

/-- `_process_op_msgs`: one key of a batch, with its ops in arrival order. -/
def processOpMsgs (snap : Lmdb) (cm : ConsumerCache × Mem) (key : String × List OpQueueMsg) :
    ConsumerCache × Mem :=
  match key.2 with
  | [] => cm
  | msg :: _ =>
    match getOrCreateCacheEntry snap cm.1 cm.2 key.1 msg with
    | (none, c, m) => (c, m)
    | (some (p, wasCached), c, m) => processBitmapOps c m p wasCached key.1 key.2

/-- `consumer_batch_add_msg` over a turn's messages: by container, then by serialized key, each in
the order of first appearance (the order `HASH_ITER` visits a uthash table in). -/
def consumerBatch (msgs : List OpQueueMsg) : List (String × List (String × List OpQueueMsg)) :=
  (groupBy (fun msg => msg.op.dbKey.containerName) msgs).map fun b =>
    (b.1, groupBy OpQueueMsg.serDbKey b.2)

/-- `_process_batch`: the keys of one container's batch in turn, their bitmaps loaded from the
snapshot `snap` of the read transaction it opens. -/
def processBatch (snap : Lmdb) (cm : ConsumerCache × Mem) (b : String × List (String × List OpQueueMsg)) :
    ConsumerCache × Mem :=
  b.2.foldl (processOpMsgs snap) cm

/-! ## Flushing -/

/-- `_consumer_flush_prepare_entry`: the entry's bitmap under its key, with the flush version to
store once it commits. -/
def consumerFlushPrepareEntry (m : Mem) (p : ℕ) : Option WriterEntry :=
  (m.entries p).map fun e => ⟨.bitmap e.bitmap, some (p, e.version), e.dbKey, .always⟩

/-- `consumer_flush_prepare`: one writer entry for each entry met following the links from the
head, up to null.  A well-formed list has at most `nextAddr` cells (`DirtyList.walk_eq`). -/
def consumerFlushPrepare (m : Mem) (dirtyHead : Option ℕ) (numDirtyEntries : ℕ) :
    Except String (Option WriterMsg) :=
  match dirtyHead with
  | none => .error "Invalid dirty head"
  | some _ =>
    if numDirtyEntries < 1 then .ok none
    else .ok (some ⟨(walk m.dirtyNext m.nextAddr dirtyHead).filterMap (consumerFlushPrepareEntry m)⟩)

/-- `_flush_dirty`: prepare a message of the dirty entries, enqueue it for the writer, and clear the
dirty list, whether the enqueue succeeded or not. -/
def flushDirty (c : ConsumerCache) (m : Mem) (q : RingBuffer WriterMsg) :
    ConsumerCache × RingBuffer WriterMsg :=
  if c.numDirtyEntries < 1 || c.dirtyHead.isNone then (c, q)
  else
    match consumerFlushPrepare m c.dirtyHead c.numDirtyEntries with
    | .ok (some msg) =>
      let q := if 0 < msg.entries.length then (q.enqueue msg).getD q else q
      (consumerCacheClearDirtyList c, q)
    | _ => (c, q)

/-- `_bump_flush_version` over the writer's committed entries: each stores its version as the flush
version of its cache entry. -/
def bumpFlushVersions (m : Mem) (bumps : List (ℕ × ℕ)) : Mem :=
  bumps.foldl (fun m b => m.modify b.1 fun e => { e with flushVersion := b.2 }) m

/-! ## The consumer's loop -/

/-- `consumer_config_t`: how often to flush, and the op queues to consume. -/
structure ConsumerConfig where
  flushEveryN : ℕ
  opQueueConsumeStart : ℕ
  opQueueConsumeCount : ℕ

/-- `consumer_t`: the cache, the cycle counter of its loop, and the container batches of the turn
under way that `_process_batches` has still to process. -/
structure Consumer where
  cache : ConsumerCache
  cycle : ℕ
  batches : List (String × List (String × List OpQueueMsg))

/-- The dequeue loops of `_consumer_thread_func`: up to `MAX_BATCH_SIZE_PER_OP_QUEUE` messages from
each of the consumer's op queues in turn. -/
def consumerDequeue (cfg : ConsumerConfig) (opQueues : ℕ → RingBuffer OpQueueMsg) :
    List OpQueueMsg × (ℕ → RingBuffer OpQueueMsg) :=
  (List.range cfg.opQueueConsumeCount).foldl (fun acc i =>
    let idx := cfg.opQueueConsumeStart + i
    let (taken, q) := (acc.2 idx).dequeueUpTo maxBatchSizePerOpQueue
    (acc.1 ++ taken, Function.update acc.2 idx q)) ([], opQueues)

/-- The end of a turn of `_consumer_thread_func`'s loop: a flush, and the counter back to `0`, when
it reaches `flush_every_n`. -/
def consumerEndTurn (cfg : ConsumerConfig) (s : Consumer) (m : Mem) (q : RingBuffer WriterMsg) :
    Consumer × RingBuffer WriterMsg :=
  if s.cycle = cfg.flushEveryN then (⟨(flushDirty s.cache m q).1, 0, []⟩, (flushDirty s.cache m q).2)
  else (s, q)

/-- A step of `_consumer_thread_func`'s loop, with LMDB as `snap` when it is taken.  With no batch
under way a turn starts: the counter counts it and the messages dequeued are batched by container;
a turn that dequeues nothing ends at once.  Otherwise `_process_batch` processes the next
container's batch in a read transaction opened now, and the turn ends after the last one. -/
def consumerStep (cfg : ConsumerConfig) (snap : Lmdb) (s : Consumer) (m : Mem)
    (opQueues : ℕ → RingBuffer OpQueueMsg) (q : RingBuffer WriterMsg) :
    Consumer × Mem × (ℕ → RingBuffer OpQueueMsg) × RingBuffer WriterMsg :=
  match s.batches with
  | [] =>
    let d := consumerDequeue cfg opQueues
    match consumerBatch d.1 with
    | [] =>
      let r := consumerEndTurn cfg ⟨s.cache, s.cycle + 1, []⟩ m q
      (r.1, m, d.2, r.2)
    | bs => (⟨s.cache, s.cycle + 1, bs⟩, m, d.2, q)
  | b :: bs =>
    let cm := processBatch snap (s.cache, m) b
    match bs with
    | [] =>
      let r := consumerEndTurn cfg ⟨cm.1, s.cycle, []⟩ cm.2 q
      (r.1, cm.2, opQueues, r.2)
    | _ => (⟨cm.1, s.cycle, bs⟩, cm.2, opQueues, q)

theorem consumerDequeue_of_empty {cfg : ConsumerConfig} {opQueues : ℕ → RingBuffer OpQueueMsg}
    (h : ∀ j < cfg.opQueueConsumeCount, (opQueues (cfg.opQueueConsumeStart + j)).items = []) :
    consumerDequeue cfg opQueues = ([], opQueues) := by
  have hfold : ∀ js : List ℕ, (∀ j ∈ js, (opQueues (cfg.opQueueConsumeStart + j)).items = []) →
      js.foldl (fun acc i =>
        let idx := cfg.opQueueConsumeStart + i
        let (taken, q) := (acc.2 idx).dequeueUpTo maxBatchSizePerOpQueue
        (acc.1 ++ taken, Function.update acc.2 idx q)) ([], opQueues) = ([], opQueues) := by
    intro js hjs
    induction js with
    | nil => rfl
    | cons j js ih =>
      have hj := hjs j List.mem_cons_self
      rw [List.foldl_cons]
      dsimp only at ih ⊢
      rw [RingBuffer.dequeueUpTo_eq, RingBuffer.drop_of_items_eq_nil hj]
      simp only [hj, List.take_nil, List.append_nil, Function.update_eq_self]
      exact ih fun j' hj' => hjs j' (List.mem_cons_of_mem _ hj')
  exact hfold _ fun j hj => h j (List.mem_range.1 hj)

theorem consumerEndTurn_of_ne {cfg : ConsumerConfig} {s : Consumer} {m : Mem} {q : RingBuffer WriterMsg}
    (h : s.cycle ≠ cfg.flushEveryN) : consumerEndTurn cfg s m q = (s, q) :=
  if_neg h

/-- **An idle turn.**  With no batch under way and nothing dequeued, a turn only counts and ends. -/
theorem consumerStep_of_idle {cfg : ConsumerConfig} {snap : Lmdb} {s : Consumer} {m : Mem}
    {opQueues : ℕ → RingBuffer OpQueueMsg} {q : RingBuffer WriterMsg} (hb : s.batches = [])
    (h : consumerDequeue cfg opQueues = ([], opQueues)) :
    consumerStep cfg snap s m opQueues q =
      ((consumerEndTurn cfg ⟨s.cache, s.cycle + 1, []⟩ m q).1, m, opQueues,
        (consumerEndTurn cfg ⟨s.cache, s.cycle + 1, []⟩ m q).2) := by
  unfold consumerStep
  rw [hb, h]
  rfl

theorem consumerDequeue_mem (cfg : ConsumerConfig) (opQueues : ℕ → RingBuffer OpQueueMsg) :
    (∀ msg ∈ (consumerDequeue cfg opQueues).1, ∃ j, msg ∈ (opQueues j).items) ∧
      ∀ j, ∀ msg ∈ ((consumerDequeue cfg opQueues).2 j).items, msg ∈ (opQueues j).items := by
  unfold consumerDequeue
  refine List.foldlRecOn (motive := fun acc : List OpQueueMsg × (ℕ → RingBuffer OpQueueMsg) =>
    (∀ msg ∈ acc.1, ∃ j, msg ∈ (opQueues j).items) ∧
      ∀ j, ∀ msg ∈ (acc.2 j).items, msg ∈ (opQueues j).items) _ _
    ⟨fun _ h => (List.not_mem_nil h).elim, fun _ _ h => h⟩ ?_
  rintro ⟨taken, qs⟩ ⟨htaken, hqs⟩ i -
  dsimp only
  rw [RingBuffer.dequeueUpTo_eq]
  refine ⟨fun msg hmsg => ?_, fun j msg hmsg => ?_⟩
  · rcases List.mem_append.1 hmsg with hmsg | hmsg
    · exact htaken msg hmsg
    · exact ⟨_, hqs _ msg (List.mem_of_mem_take hmsg)⟩
  · rw [Function.update_apply] at hmsg
    split at hmsg
    · rename_i hj
      subst hj
      exact hqs _ msg (List.mem_of_mem_drop (by simpa using hmsg))
    · exact hqs j msg hmsg

theorem mem_consumerBatch {msgs : List OpQueueMsg} {b : String × List (String × List OpQueueMsg)}
    (hb : b ∈ consumerBatch msgs) {key : String × List OpQueueMsg} (hkey : key ∈ b.2)
    {msg : OpQueueMsg} (hmsg : msg ∈ key.2) : msg ∈ msgs ∧ msg.serDbKey = key.1 := by
  obtain ⟨g, hg, rfl⟩ := List.mem_map.1 hb
  exact ⟨mem_of_mem_groupBy hg (mem_of_mem_groupBy hkey hmsg),
    (groupsWF_groupBy (f := OpQueueMsg.serDbKey) g.2).2 key hkey msg hmsg⟩

/-! ## What a batch and a flush do -/

/-- The values of a key's `ADD`s. -/
def addedValues (msgs : List OpQueueMsg) : Finset ℕ :=
  ((msgs.filter fun msg => msg.op.opType = .add).map fun msg => msg.op.value).toFinset

theorem applyBitmapOps_eq (bm : Finset ℕ) (msgs : List OpQueueMsg) :
    applyBitmapOps bm msgs = (bm ∪ addedValues msgs, msgs.any fun msg => msg.op.opType = .add) := by
  -- the loop carries the bitmap and the flag; generalize over both
  suffices h : ∀ (acc : Finset ℕ × Bool), msgs.foldl (fun acc msg =>
      match msg.op.opType with
      | .add => (insert msg.op.value acc.1, true)
      | _ => acc) acc =
      (acc.1 ∪ addedValues msgs, acc.2 || msgs.any fun msg => msg.op.opType = .add) by
    rw [applyBitmapOps, h (bm, false)]
    simp
  induction msgs with
  | nil => simp [addedValues]
  | cons msg msgs ih =>
    intro acc
    rw [List.foldl_cons]
    rcases hop : msg.op.opType with _ | _
    · -- an op the consumer rejects
      dsimp only
      rw [ih]
      simp [addedValues, hop]
    · dsimp only
      rw [ih]
      simp [addedValues, hop, Finset.insert_union, Finset.union_insert]

theorem tryEvict_cases (c : ConsumerCache) (m : Mem) :
    tryEvict c m = (c, m) ∨ ∃ victim e, m.entries victim = some e ∧ e.version = e.flushVersion ∧
      tryEvict c m =
        ({ c with
            table := Function.update c.table e.serDbKey none, lru := c.lru.dropLast,
            nEntries := c.nEntries - 1 }, m.free victim) := by
  unfold tryEvict consumerCacheEvictLru
  split
  · rcases hl : c.lru.getLast? with _ | victim
    · exact .inl rfl
    rcases he : m.entries victim with _ | e
    · left
      simp [he]
    by_cases hv : e.version = e.flushVersion
    · rcases ht : c.table e.serDbKey with _ | q
      · left
        simp [he, hv, ht]
      · right
        exact ⟨victim, e, he, hv, by simp [he, hv, ht]⟩
    · left
      simp [he, hv]
  · exact .inl rfl

theorem tryEvict_table {c : ConsumerCache} {m : Mem} {k : String} (hk : c.table k = none) :
    (tryEvict c m).1.table k = none := by
  rcases tryEvict_cases c m with heq | ⟨victim, e, -, -, heq⟩
  · rw [heq]
    exact hk
  · rw [heq]
    simp only [Function.update_apply]
    split <;> simp_all

section Flush

variable {c : ConsumerCache} {m : Mem} {l : List ℕ} {q : RingBuffer WriterMsg}

/-- The message a flush of the list `l` prepares. -/
def flushMsg (m : Mem) (l : List ℕ) : WriterMsg := ⟨l.filterMap (consumerFlushPrepareEntry m)⟩

/-- **A flush.**  With a non-empty well-formed dirty list `l`, `_flush_dirty` enqueues the message
of its entries when the writer's ring has room, and clears the list either way. -/
theorem flushDirty_of_dirtyList (h : DirtyList c m l) (hl : l ≠ []) :
    flushDirty c m q = (consumerCacheClearDirtyList c,
      if 0 < (flushMsg m l).entries.length then ((q.enqueue (flushMsg m l)).getD q) else q) := by
  obtain ⟨hd, hhd⟩ := Option.isSome_iff_exists.1 (h.head_isSome hl)
  have hnum : ¬ c.numDirtyEntries < 1 := by
    rw [h.num]
    exact Nat.not_lt.2 (List.length_pos_of_ne_nil hl)
  have hwalk := h.walk_eq
  rw [hhd] at hwalk
  simp [flushDirty, consumerFlushPrepare, hhd, hnum, hwalk, flushMsg]
  rfl

@[simp] theorem flushDirty_table : (flushDirty c m q).1.table = c.table := by
  unfold flushDirty
  split
  · rfl
  · split <;> rfl

theorem mem_flushDirty {msg : WriterMsg} (hmsg : msg ∈ (flushDirty c m q).2.items) :
    msg ∈ q.items ∨ ∀ x ∈ msg.entries, ∃ p e, m.entries p = some e ∧
      x = ⟨.bitmap e.bitmap, some (p, e.version), e.dbKey, .always⟩ := by
  unfold flushDirty at hmsg
  split at hmsg
  · exact .inl hmsg
  split at hmsg
  · rename_i msg' hprep
    have hentries : ∀ x ∈ msg'.entries, ∃ p e, m.entries p = some e ∧
        x = ⟨.bitmap e.bitmap, some (p, e.version), e.dbKey, .always⟩ := by
      intro x hx
      unfold consumerFlushPrepare at hprep
      split at hprep
      · cases hprep
      split at hprep
      · cases hprep
      · simp only [Except.ok.injEq, Option.some.injEq] at hprep
        subst hprep
        obtain ⟨p, -, hp⟩ := List.mem_filterMap.1 hx
        obtain ⟨e, he, rfl⟩ := Option.map_eq_some_iff.1 hp
        exact ⟨p, e, he, rfl⟩
    dsimp only at hmsg
    split at hmsg
    · rcases henq : q.enqueue msg' with _ | q'
      · rw [henq] at hmsg
        exact .inl hmsg
      · rw [henq, Option.getD_some, (RingBuffer.enqueue_eq_some henq).1] at hmsg
        rcases List.mem_append.1 hmsg with hmsg | hmsg
        · exact .inl hmsg
        · rw [List.mem_singleton.1 hmsg]
          exact .inr hentries
    · exact .inl hmsg
  · exact .inl hmsg

theorem flushDirty_of_nil (h : DirtyList c m []) : flushDirty c m q = (c, q) := by
  have hnum : c.numDirtyEntries = 0 := h.num
  simp [flushDirty, hnum]

end Flush

/-! ## The bytes of a stored bitmap -/

section Bytes

open Orrp.Core

variable (C : PortableCodec)

/-- The bitmap `_create_bm_entry` starts a cache entry from, given the bytes `db_get` found under
the key: the bytes deserialized, `NULL` (no entry) when they do not deserialize, and a new empty
bitmap when the key holds nothing. -/
def createBmEntryBitmap : Option (List UInt8) → Option Bitmap
  | some value => bitmapDeserialize C value
  | none => some ∅

/-- `_ser_bitmap`: the bytes a flush hands the writer for a cached bitmap. -/
def serBitmap (bm : Bitmap) : List UInt8 := bitmapSerialize C bm

/-- The values of a roaring bitmap, as the engine's store holds them. -/
def bitmapValues (bm : Bitmap) : Finset ℕ := bm.image UInt32.toNat

/-- The bytes of LMDB stand for the store `snap`: a key that holds a bitmap holds the bytes
`_ser_bitmap` wrote for it, and a key that holds nothing holds no bytes. -/
def StoresBitmaps (snap : Lmdb) (bytes : ContainerDbKey → Option (List UInt8)) : Prop :=
  ∀ k, (snap k = none → bytes k = none) ∧
    ∀ s, snap k = some (.bitmap s) → ∃ bm, bytes k = some (serBitmap C bm) ∧ bitmapValues bm = s

/-- **The store is what its bytes mean.**  At a key that holds a bitmap or nothing, `_create_bm_entry`
on the stored bytes starts from the bitmap `loadBitmap` reads from the store. -/
theorem createBmEntryBitmap_loadBitmap {snap : Lmdb} {bytes : ContainerDbKey → Option (List UInt8)}
    {k : ContainerDbKey} (h : StoresBitmaps C snap bytes) (hk : ∀ v, snap k = some v → ∃ s, v = .bitmap s) :
    (createBmEntryBitmap C (bytes k)).map bitmapValues = loadBitmap snap k := by
  obtain ⟨hnone, hsome⟩ := h k
  cases hv : snap k with
  | none =>
    rw [hnone hv, loadBitmap, hv]
    rfl
  | some v =>
    obtain ⟨s, rfl⟩ := hk v hv
    obtain ⟨bm, hbytes, rfl⟩ := hsome s hv
    rw [hbytes, loadBitmap, hv, createBmEntryBitmap, serBitmap, bitmapDeserialize_bitmapSerialize]
    rfl

end Bytes

end Orrp.Engine
