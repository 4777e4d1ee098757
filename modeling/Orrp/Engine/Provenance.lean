import Orrp.Engine.System

/-!
# Where a stored id comes from

No stage of the pipeline invents an event id.  Along every run from `eng_init`, each id of a
bitmap the writer has stored under a key was, at some earlier point of the run, the value of an
`ADD` op on an op queue, under the serialized text of that key (`lmdb_bitmap_added`).

The invariant `Sourced H s` follows the ids through every place they pass, each filed under the
text of its key as the consumers' tables file them: the op queues, the consumers' entries and
tables, the writer's ring, and LMDB.  A worker queues ops under the text of their keys and writer
messages without bitmaps; a consumer's batch loads an entry from LMDB and adds the ids of its key's
ops; a flush copies entries to the ring; the writer copies the ring to LMDB.  `H` holds the ids
added so far: a step keeps the invariant once `H` holds the ops on the queues it starts from.
-/

namespace Orrp.Engine

open Orrp.Query Orrp.Lib

/-! ## The heap -/

section Heap

variable (H : String → ℕ → Prop)

/-- Each entry is filed under the text of its key and holds ids added under that text. -/
def EntriesSourced (m : Mem) : Prop :=
  ∀ p e, m.entries p = some e →
    dbKeyInto opKeyBufferSize e.dbKey = some e.serDbKey ∧ ∀ v ∈ e.bitmap, H e.serDbKey v

/-- A cell of the key `k`: below the fresh address, and filed under `k` while allocated. -/
def Mem.KeyAt (m : Mem) (k : String) (p : ℕ) : Prop :=
  p < m.nextAddr ∧ ∀ e, m.entries p = some e → e.serDbKey = k

/-- A table points at cells of the keys it holds them by. -/
def TableSourced (m : Mem) (c : ConsumerCache) : Prop := ∀ k p, c.table k = some p → m.KeyAt k p

/-- `m'` keeps each cell of `m` filed as it was, or frees it. -/
def Mem.Keeps (m m' : Mem) : Prop :=
  m.nextAddr ≤ m'.nextAddr ∧
    ∀ p < m.nextAddr, ∀ e', m'.entries p = some e' → ∃ e, m.entries p = some e ∧ e'.serDbKey = e.serDbKey

variable {H} {m m' m'' : Mem} {c : ConsumerCache}

namespace Mem.Keeps

theorem refl (m : Mem) : m.Keeps m := ⟨le_rfl, fun _ _ e he => ⟨e, he, rfl⟩⟩

theorem trans (h : m.Keeps m') (h' : m'.Keeps m'') : m.Keeps m'' := by
  refine ⟨h.1.trans h'.1, fun p hp e'' he'' => ?_⟩
  obtain ⟨e', he', hk'⟩ := h'.2 p (lt_of_lt_of_le hp h.1) e'' he''
  obtain ⟨e, he, hk⟩ := h.2 p hp e' he'
  exact ⟨e, he, hk'.trans hk⟩

theorem alloc (m : Mem) (e : CacheEntry) : m.Keeps (m.alloc e).2 := by
  refine ⟨by simp, fun p hp e' he' => ⟨e', ?_, rfl⟩⟩
  rwa [Mem.alloc_entries_of_lt hp] at he'

theorem modify {p : ℕ} {f : CacheEntry → CacheEntry} (hf : ∀ e, (f e).serDbKey = e.serDbKey) :
    m.Keeps (m.modify p f) := by
  refine ⟨le_rfl, fun q _ e' he' => ?_⟩
  obtain ⟨e, he, ⟨-, rfl⟩ | ⟨-, rfl⟩⟩ := Mem.modify_eq_some he'
  · exact ⟨e, he, hf e⟩
  · exact ⟨_, he, rfl⟩

theorem free (m : Mem) (p : ℕ) : m.Keeps (m.free p) :=
  ⟨le_rfl, fun _ _ e' he' => ⟨e', (Mem.free_eq_some he').2, rfl⟩⟩

theorem addEntryToDirtyList (c : ConsumerCache) (m : Mem) (p : ℕ) :
    m.Keeps (consumerCacheAddEntryToDirtyList c m p).2 := by
  refine ⟨by simp, fun q _ e' he' => ?_⟩
  obtain ⟨e, he, n, rfl⟩ := consumerCacheAddEntryToDirtyList_eq_some he'
  exact ⟨e, he, rfl⟩

theorem bumpFlush (m : Mem) (bs : List (ℕ × ℕ)) : m.Keeps (bumpFlushVersions m bs) := by
  induction bs generalizing m with
  | nil => exact refl m
  | cons b bs ih =>
    have h₁ : m.Keeps (m.modify b.1 fun e => { e with flushVersion := b.2 }) := modify fun _ => rfl
    exact h₁.trans (ih _)

end Mem.Keeps

theorem Mem.Keeps.keyAt (h : m.Keeps m') {p : ℕ} {k : String} (hp : m.KeyAt k p) : m'.KeyAt k p := by
  refine ⟨lt_of_lt_of_le hp.1 h.1, fun e' he' => ?_⟩
  obtain ⟨e, he, hek⟩ := h.2 p hp.1 e' he'
  rw [hek, hp.2 e he]

theorem Mem.keyAt_alloc (m : Mem) (e : CacheEntry) : (m.alloc e).2.KeyAt e.serDbKey m.nextAddr := by
  refine ⟨by simp, fun e' he' => ?_⟩
  rw [Mem.alloc_entries_self] at he'
  cases he'
  rfl

theorem TableSourced.keeps (h : TableSourced m c) (hm : m.Keeps m') : TableSourced m' c :=
  fun k p hkp => hm.keyAt (h k p hkp)

namespace EntriesSourced

theorem alloc (h : EntriesSourced H m) {e : CacheEntry}
    (he : dbKeyInto opKeyBufferSize e.dbKey = some e.serDbKey ∧ ∀ v ∈ e.bitmap, H e.serDbKey v) :
    EntriesSourced H (m.alloc e).2 := by
  intro q e' he'
  rcases Mem.alloc_eq_some he' with ⟨-, rfl⟩ | ⟨-, he'⟩
  · exact he
  · exact h q e' he'

theorem modify (h : EntriesSourced H m) {p : ℕ} {f : CacheEntry → CacheEntry}
    (hf : ∀ e, (f e).dbKey = e.dbKey ∧ (f e).serDbKey = e.serDbKey)
    (hbm : ∀ e, m.entries p = some e → ∀ v ∈ (f e).bitmap, H e.serDbKey v) :
    EntriesSourced H (m.modify p f) := by
  intro q e' he'
  obtain ⟨e, he, ⟨rfl, rfl⟩ | ⟨-, rfl⟩⟩ := Mem.modify_eq_some he'
  · rw [(hf e).1, (hf e).2]
    exact ⟨(h q e he).1, hbm e he⟩
  · exact h q _ he

theorem free (h : EntriesSourced H m) (p : ℕ) : EntriesSourced H (m.free p) :=
  fun q e' he' => h q e' (Mem.free_eq_some he').2

theorem addEntryToDirtyList (h : EntriesSourced H m) (c : ConsumerCache) (p : ℕ) :
    EntriesSourced H (consumerCacheAddEntryToDirtyList c m p).2 := by
  intro q e' he'
  obtain ⟨e, he, n, rfl⟩ := consumerCacheAddEntryToDirtyList_eq_some he'
  exact h q e he

theorem bumpFlush (h : EntriesSourced H m) (bs : List (ℕ × ℕ)) :
    EntriesSourced H (bumpFlushVersions m bs) := by
  induction bs generalizing m with
  | nil => exact h
  | cons b bs ih =>
    have h₁ : EntriesSourced H (m.modify b.1 fun e => { e with flushVersion := b.2 }) :=
      h.modify (fun _ => ⟨rfl, rfl⟩) fun e he v hv => (h b.1 e he).2 v hv
    exact ih h₁

end EntriesSourced

end Heap

/-! ## A consumer's turn -/

section Batch

variable (H : String → ℕ → Prop)

/-- A bitmap stored under `k` holds ids added under the text of `k`. -/
def ValueSourced (k : ContainerDbKey) (v : DbValue) : Prop :=
  ∀ b, v = .bitmap b → ∀ s, dbKeyInto opKeyBufferSize k = some s → ∀ x ∈ b, H s x

/-- Every bitmap LMDB holds is `ValueSourced`. -/
def LmdbSourced (db : Lmdb) : Prop := ∀ k v, db k = some v → ValueSourced H k v

/-- Every bitmap the writer's ring holds is `ValueSourced`. -/
def RingSourced (q : RingBuffer WriterMsg) : Prop :=
  ∀ msg ∈ q.items, ∀ x ∈ msg.entries, ValueSourced H x.dbKey x.value

/-- An op queued under the text of its key. -/
def OpKeyed (msg : OpQueueMsg) : Prop := dbKeyInto opKeyBufferSize msg.op.dbKey = some msg.serDbKey

/-- An op queued under the text of its key, whose id, for an `ADD`, was added under that text. -/
def MsgSourced (msg : OpQueueMsg) : Prop :=
  OpKeyed msg ∧ (msg.op.opType = .add → H msg.serDbKey msg.op.value)

/-- A container batch whose keys hold sourced ops filed under them. -/
def BatchSourced (b : String × List (String × List OpQueueMsg)) : Prop :=
  ∀ key ∈ b.2, ∀ msg ∈ key.2, MsgSourced H msg ∧ msg.serDbKey = key.1

/-- A consumer's cache over the heap: sourced entries, and a table of cells of its keys. -/
structure CacheSourced (c : ConsumerCache) (m : Mem) : Prop where
  entries : EntriesSourced H m
  table : TableSourced m c

variable {H} {m : Mem} {c : ConsumerCache} {snap : Lmdb}

theorem LmdbSourced.load (h : LmdbSourced H snap) {k : ContainerDbKey} {s : String}
    (hk : dbKeyInto opKeyBufferSize k = some s) {b : Finset ℕ} (hb : loadBitmap snap k = some b) :
    ∀ v ∈ b, H s v := by
  unfold loadBitmap at hb
  split at hb
  · -- nothing stored: a new empty bitmap
    cases hb
    simp
  · rename_i b' hb'
    cases hb
    exact h k _ hb' b rfl s hk
  · cases hb

namespace CacheSourced

theorem getOrCreate (h : CacheSourced H c m) (hsnap : LmdbSourced H snap) {k : String}
    {msg : OpQueueMsg} (hmsg : MsgSourced H msg) (hk : msg.serDbKey = k) :
    CacheSourced H (getOrCreateCacheEntry snap c m k msg).2.1
        (getOrCreateCacheEntry snap c m k msg).2.2 ∧
      m.Keeps (getOrCreateCacheEntry snap c m k msg).2.2 ∧
      ∀ p w, (getOrCreateCacheEntry snap c m k msg).1 = some (p, w) →
        (getOrCreateCacheEntry snap c m k msg).2.2.KeyAt k p := by
  unfold getOrCreateCacheEntry consumerCacheGetEntry
  rcases hkp : c.table k with _ | p
  · dsimp only
    rcases hb : loadBitmap snap msg.op.dbKey with _ | b
    · exact ⟨h, .refl m, fun _ _ hp => by cases hp⟩
    · have he : dbKeyInto opKeyBufferSize msg.op.dbKey = some msg.serDbKey ∧
          ∀ v ∈ b, H msg.serDbKey v := ⟨hmsg.1, hsnap.load hmsg.1 hb⟩
      refine ⟨⟨h.entries.alloc he, h.table.keeps (.alloc m _)⟩, .alloc m _, fun p w hp => ?_⟩
      cases hp
      exact hk ▸ Mem.keyAt_alloc m _
  · exact ⟨⟨h.entries, h.table⟩, .refl m, fun p' w hp => by cases hp; exact h.table k p hkp⟩

theorem addToDirtyList (h : CacheSourced H c m) (p : ℕ) :
    CacheSourced H (consumerCacheAddEntryToDirtyList c m p).1
        (consumerCacheAddEntryToDirtyList c m p).2 ∧
      m.Keeps (consumerCacheAddEntryToDirtyList c m p).2 := by
  refine ⟨⟨h.entries.addEntryToDirtyList c p, ?_⟩, .addEntryToDirtyList c m p⟩
  rw [TableSourced, consumerCacheAddEntryToDirtyList_table]
  exact h.table.keeps (.addEntryToDirtyList c m p)

theorem evict (h : CacheSourced H c m) :
    CacheSourced H (tryEvict c m).1 (tryEvict c m).2 ∧ m.Keeps (tryEvict c m).2 := by
  rcases tryEvict_cases c m with heq | ⟨victim, e, -, -, heq⟩
  · rw [heq]
    exact ⟨h, .refl m⟩
  · rw [heq]
    refine ⟨⟨h.entries.free victim, fun k p hkp => ?_⟩, .free m victim⟩
    dsimp only at hkp
    rw [Function.update_apply] at hkp
    split at hkp
    · cases hkp
    · exact (Mem.Keeps.free m victim).keyAt (h.table k p hkp)

theorem processBitmap (h : CacheSourced H c m) {p : ℕ} {wasCached : Bool} {k : String}
    (hp : m.KeyAt k p) {msgs : List OpQueueMsg}
    (hmsgs : ∀ msg ∈ msgs, msg.serDbKey = k ∧ (msg.op.opType = .add → H msg.serDbKey msg.op.value)) :
    CacheSourced H (processBitmapOps c m p wasCached k msgs).1
        (processBitmapOps c m p wasCached k msgs).2 ∧
      m.Keeps (processBitmapOps c m p wasCached k msgs).2 := by
  unfold processBitmapOps
  rcases hent : m.entries p with _ | ent
  · exact ⟨h, .refl m⟩
  dsimp only
  rw [applyBitmapOps_eq]
  dsimp only
  have hbm : ∀ e, m.entries p = some e → ∀ v ∈ ent.bitmap ∪ addedValues msgs, H e.serDbKey v := by
    intro e he v hv
    rw [hent] at he
    cases he
    rcases Finset.mem_union.1 hv with hv | hv
    · exact (h.entries p ent hent).2 v hv
    · simp only [addedValues, List.mem_toFinset, List.mem_map, List.mem_filter,
        decide_eq_true_eq] at hv
      obtain ⟨msg, ⟨hmsg, hadd⟩, rfl⟩ := hv
      rw [hp.2 ent hent, ← (hmsgs msg hmsg).1]
      exact (hmsgs msg hmsg).2 hadd
  obtain ⟨c₁, m₁, hcm, h₁, hk₁, ht₁⟩ : ∃ c₁ m₁, (if (msgs.any fun msg => msg.op.opType = .add) = true
      then consumerCacheAddEntryToDirtyList c (m.modify p fun e =>
        { e with bitmap := ent.bitmap ∪ addedValues msgs, version := e.version + 1 }) p
      else (c, m)) = (c₁, m₁) ∧ CacheSourced H c₁ m₁ ∧ m.Keeps m₁ ∧ c₁.table = c.table := by
    by_cases hdirty : (msgs.any fun msg => msg.op.opType = .add) = true
    · rw [if_pos hdirty]
      have hmod := h.entries.modify (f := fun e =>
        { e with bitmap := ent.bitmap ∪ addedValues msgs, version := e.version + 1 })
        (fun _ => ⟨rfl, rfl⟩) hbm
      have hkeep : m.Keeps (m.modify p fun e =>
          { e with bitmap := ent.bitmap ∪ addedValues msgs, version := e.version + 1 }) :=
        .modify fun _ => rfl
      obtain ⟨h₁, hk₁⟩ := CacheSourced.addToDirtyList ⟨hmod, h.table.keeps hkeep⟩ p
      exact ⟨_, _, rfl, h₁, hkeep.trans hk₁, consumerCacheAddEntryToDirtyList_table⟩
    · rw [if_neg hdirty]
      exact ⟨c, m, rfl, h, .refl m, rfl⟩
  rw [hcm]
  dsimp only
  cases wasCached
  · -- a new entry joins the table after an eviction, or is freed when the key is taken
    obtain ⟨h₂, hk₂⟩ := h₁.evict
    rcases hte : tryEvict c₁ m₁ with ⟨c₂, m₂⟩
    rw [hte] at h₂ hk₂
    have hp₂ : m₂.KeyAt k p := (hk₁.trans hk₂).keyAt hp
    rw [if_neg Bool.false_ne_true]
    dsimp only
    unfold consumerCacheAddEntry
    by_cases hkey : (c₂.table k).isSome
    · rw [if_pos hkey]
      exact ⟨⟨h₂.entries.free p, h₂.table.keeps (.free m₂ p)⟩, (hk₁.trans hk₂).trans (.free m₂ p)⟩
    · rw [if_neg hkey]
      refine ⟨⟨h₂.entries, fun k' p' hkp' => ?_⟩, hk₁.trans hk₂⟩
      dsimp only at hkp'
      rw [Function.update_apply] at hkp'
      split at hkp'
      · rename_i hk'
        cases hkp'
        exact hk' ▸ hp₂
      · exact h₂.table k' p' hkp'
  · exact ⟨h₁, hk₁⟩

theorem processKey (h : CacheSourced H c m) (hsnap : LmdbSourced H snap)
    {key : String × List OpQueueMsg} (hkey : ∀ msg ∈ key.2, MsgSourced H msg ∧ msg.serDbKey = key.1) :
    CacheSourced H (processOpMsgs snap (c, m) key).1 (processOpMsgs snap (c, m) key).2 ∧
      m.Keeps (processOpMsgs snap (c, m) key).2 := by
  rcases key with ⟨k, _ | ⟨msg, msgs⟩⟩
  · exact ⟨h, .refl m⟩
  unfold processOpMsgs
  dsimp only
  obtain ⟨hmsg, hk⟩ := hkey msg List.mem_cons_self
  obtain ⟨h₁, hk₁, hp₁⟩ := h.getOrCreate hsnap hmsg hk
  rcases hg : getOrCreateCacheEntry snap c m k msg with ⟨_ | ⟨p, wasCached⟩, c₁, m₁⟩
  · rw [hg] at h₁ hk₁
    exact ⟨h₁, hk₁⟩
  · rw [hg] at h₁ hk₁ hp₁
    obtain ⟨h₂, hk₂⟩ := h₁.processBitmap (hp₁ p wasCached rfl) fun msg' hmsg' =>
      ⟨(hkey msg' hmsg').2, (hkey msg' hmsg').1.2⟩
    exact ⟨h₂, hk₁.trans hk₂⟩

theorem batch (h : CacheSourced H c m) (hsnap : LmdbSourced H snap)
    {b : String × List (String × List OpQueueMsg)} (hb : BatchSourced H b) :
    CacheSourced H (processBatch snap (c, m) b).1 (processBatch snap (c, m) b).2 ∧
      m.Keeps (processBatch snap (c, m) b).2 := by
  -- the fold over the keys carries the invariant and that the heap keeps the one it starts on
  unfold processBatch
  refine List.foldlRecOn (motive := fun cm : ConsumerCache × Mem =>
    CacheSourced H cm.1 cm.2 ∧ m.Keeps cm.2) _ _ ⟨h, .refl m⟩ ?_
  rintro ⟨c₂, m₂⟩ ⟨h₂, hk₂⟩ key hkey
  obtain ⟨h₃, hk₃⟩ := h₂.processKey hsnap (hb key hkey)
  exact ⟨h₃, hk₂.trans hk₃⟩

end CacheSourced

theorem RingSourced.flush {q : RingBuffer WriterMsg} (hq : RingSourced H q) (hm : EntriesSourced H m) :
    RingSourced H (flushDirty c m q).2 := by
  intro msg hmsg x hx
  rcases mem_flushDirty hmsg with hmsg | hentries
  · exact hq msg hmsg x hx
  · obtain ⟨p, e, he, rfl⟩ := hentries x hx
    intro b hb s hs v hv
    cases hb
    rw [(hm p e he).1, Option.some.injEq] at hs
    subst hs
    exact (hm p e he).2 v hv

theorem CacheSourced.endTurn {s : Consumer} {q : RingBuffer WriterMsg} (h : CacheSourced H s.cache m)
    (hq : RingSourced H q) (cfg : ConsumerConfig) :
    CacheSourced H (consumerEndTurn cfg s m q).1.cache m ∧
      (consumerEndTurn cfg s m q).1.batches ⊆ s.batches ∧ RingSourced H (consumerEndTurn cfg s m q).2 := by
  unfold consumerEndTurn
  split
  · -- a flush: the table stays, the ring gains the dirty entries
    exact ⟨⟨h.entries, fun k p hkp => h.table k p (flushDirty_table ▸ hkp)⟩, List.nil_subset _,
      hq.flush h.entries⟩
  · exact ⟨h, List.Subset.refl _, hq⟩

theorem batchSourced_consumerBatch {msgs : List OpQueueMsg} (hmsgs : ∀ msg ∈ msgs, MsgSourced H msg)
    {b : String × List (String × List OpQueueMsg)} (hb : b ∈ consumerBatch msgs) : BatchSourced H b :=
  fun _ hkey msg hmsg => ⟨hmsgs msg (mem_consumerBatch hb hkey hmsg).1, (mem_consumerBatch hb hkey hmsg).2⟩

/-- **A consumer's step.**  Over sourced ops, a sourced snapshot and sourced batches under way, a
step keeps the cache, the batches and the writer's ring sourced and the heap's cells, and leaves on
the queues only ops they held. -/
theorem CacheSourced.step {s : Consumer} {opQueues : ℕ → RingBuffer OpQueueMsg}
    {q : RingBuffer WriterMsg} (h : CacheSourced H s.cache m) (hbs : ∀ b ∈ s.batches, BatchSourced H b)
    (hsnap : LmdbSourced H snap) (hq : RingSourced H q)
    (hops : ∀ j, ∀ msg ∈ (opQueues j).items, MsgSourced H msg) (cfg : ConsumerConfig) :
    CacheSourced H (consumerStep cfg snap s m opQueues q).1.cache
        (consumerStep cfg snap s m opQueues q).2.1 ∧
      (∀ b ∈ (consumerStep cfg snap s m opQueues q).1.batches, BatchSourced H b) ∧
      m.Keeps (consumerStep cfg snap s m opQueues q).2.1 ∧
      RingSourced H (consumerStep cfg snap s m opQueues q).2.2.2 ∧
      ∀ j, ∀ msg ∈ ((consumerStep cfg snap s m opQueues q).2.2.1 j).items,
        msg ∈ (opQueues j).items := by
  unfold consumerStep
  rcases hb : s.batches with _ | ⟨b, bs⟩
  · -- the start of a turn: the messages dequeued, batched
    obtain ⟨hdeq, hrest⟩ := consumerDequeue_mem cfg opQueues
    have hmsgs : ∀ msg ∈ (consumerDequeue cfg opQueues).1, MsgSourced H msg := fun msg hmsg => by
      obtain ⟨j, hj⟩ := hdeq msg hmsg
      exact hops j msg hj
    dsimp only
    split
    · obtain ⟨hc, hsub, hr⟩ := CacheSourced.endTurn (s := ⟨s.cache, s.cycle + 1, []⟩) h hq cfg
      exact ⟨hc, fun b' hb' => absurd (hsub hb') List.not_mem_nil, .refl m, hr, hrest⟩
    · exact ⟨h, fun b' hb' => batchSourced_consumerBatch hmsgs hb', .refl m, hq, hrest⟩
  · -- a container's batch under the snapshot
    obtain ⟨h₁, hk₁⟩ := h.batch hsnap (hbs b (hb ▸ List.mem_cons_self))
    have hrest : ∀ b' ∈ bs, BatchSourced H b' := fun b' hb' => hbs b' (hb ▸ List.mem_cons_of_mem _ hb')
    dsimp only
    split
    · obtain ⟨hc, hsub, hr⟩ := CacheSourced.endTurn (s := ⟨(processBatch snap (s.cache, m) b).1, s.cycle, []⟩)
        h₁ hq cfg
      exact ⟨hc, fun b' hb' => absurd (hsub hb') List.not_mem_nil, hk₁, hr, fun _ _ h => h⟩
    · exact ⟨h₁, hrest, hk₁, hq, fun _ _ h => h⟩

end Batch

/-! ## The writer and the workers -/

section Pipeline

variable {H : String → ℕ → Prop}

/-- **A writer cycle** stores bitmaps of its ring only, and keeps the rest of the ring. -/
theorem LmdbSourced.writerCycle {w : EngWriter} (hdb : LmdbSourced H w.lmdb)
    (hq : RingSourced H w.queue) (commits : String → Bool) :
    LmdbSourced H (engWriterCycle commits w).1.lmdb ∧ RingSourced H (engWriterCycle commits w).1.queue := by
  refine ⟨fun k v hkv => ?_, fun msg hmsg => ?_⟩
  · rw [engWriterCycle_lmdb] at hkv
    split at hkv
    · -- the key's last entry dequeued, if any, else what the key held
      rcases hl : (w.pending.filter fun e => e.dbKey = k).getLast? with _ | e
      · rw [hl, Option.map_none, Option.getD_none] at hkv
        exact hdb k v hkv
      · rw [hl, Option.map_some, Option.getD_some, Option.some.injEq] at hkv
        subst hkv
        obtain ⟨he, hek⟩ := List.mem_filter.1 (List.mem_of_getLast? hl)
        obtain ⟨msg, hmsg, hx⟩ := List.mem_flatMap.1 he
        rw [← of_decide_eq_true hek]
        exact hq msg (List.mem_of_mem_take hmsg) e hx
    · exact hdb k v hkv
  · rw [engWriterCycle_queue, RingBuffer.drop_items] at hmsg
    exact hq msg (List.mem_of_mem_drop hmsg)

theorem opKeyed_of_mem_opsOrNil {ctx : CmdCtx} {c : String} {entId eventId : ℕ} {op : OpQueueMsg}
    (h : op ∈ opsOrNil (workerCreateOps ctx c entId eventId)) : OpKeyed op := by
  rcases hops : workerCreateOps ctx c entId eventId with _ | ops
  · rw [hops] at h
    cases h
  · rw [hops] at h
    exact workerCreateOps_dbKeyInto hops h

/-- **A worker's message** queues ops filed under their keys and a writer message without
bitmaps. -/
theorem processMsg_sourced (cfg : EngineConfig) (w : ℕ) (ctx : CmdCtx) {e : EngState}
    (hq : RingSourced H e.writerQueue) (hops : ∀ j, ∀ msg ∈ (e.opQueues j).items, OpKeyed msg) :
    RingSourced H (processMsg cfg w ctx e).2.writerQueue ∧
      ∀ j, ∀ msg ∈ ((processMsg cfg w ctx e).2.opQueues j).items, OpKeyed msg := by
  rcases processMsg_cases cfg w ctx e with hsame | ⟨c, ent, -, -, hstop | ⟨msg, hmsg, hrun⟩⟩
  · rw [hsame]
    exact ⟨hq, hops⟩
  · rw [hstop, assignEventIds_writerQueue, assignEventIds_opQueues]
    exact ⟨hq, hops⟩
  · -- the message first, then a prefix of the ops
    obtain ⟨n, -, hwq, hoq, -, -⟩ := issueEvent_prefix cfg msg
      (workerCreateOps ctx c (assignEventIds w c ent e).1 (assignEventIds w c ent e).2.2.1)
      (assignEventIds w c ent e).2.2.2
    rw [hrun]
    refine ⟨fun msg' hmsg' x hx => ?_, fun j op hop => ?_⟩
    · rw [hwq, assignEventIds_writerQueue] at hmsg'
      rcases List.mem_append.1 hmsg' with hmsg' | hmsg'
      · exact hq msg' hmsg' x hx
      · rw [List.mem_singleton.1 (List.mem_of_mem_take hmsg')] at hx
        intro b hb
        exact absurd hb (workerCreateWriterMsg_not_bitmap hmsg hx b)
    · rw [hoq, assignEventIds_opQueues] at hop
      rcases List.mem_append.1 hop with hop | hop
      · exact hops j op hop
      · exact opKeyed_of_mem_opsOrNil (List.mem_of_mem_take (List.mem_filter.1 hop).1)

end Pipeline

/-! ## The whole system -/

section Run

variable (H : String → ℕ → Prop)

/-- The id `v` is the value of an `ADD` on an op queue of `s`, under the text `k`. -/
def AddedIn (s : System) (k : String) (v : ℕ) : Prop :=
  ∃ i, ∃ msg ∈ (s.eng.opQueues i).items, msg.op.opType = .add ∧ msg.serDbKey = k ∧ msg.op.value = v

/-- **Where stored ids come from**, place by place: the op queues hold ops filed under their
keys; the heap, every consumer's table and batches, the writer's ring and LMDB are sourced. -/
structure Sourced (s : System) : Prop where
  ops : ∀ i, ∀ msg ∈ (s.eng.opQueues i).items, OpKeyed msg
  entries : EntriesSourced H s.mem
  tables : ∀ i, TableSourced s.mem (s.consumers i).cache
  batches : ∀ i, ∀ b ∈ (s.consumers i).batches, BatchSourced H b
  ring : RingSourced H s.eng.writerQueue
  lmdb : LmdbSourced H s.eng.lmdb

variable {H} {cfg : SystemConfig} {s : System}

namespace Sourced

theorem init : Sourced H System.init := by
  refine ⟨fun _ _ h => ?_, fun _ _ h => ?_, fun _ _ _ h => ?_, fun _ _ h => ?_, fun _ h => ?_,
    fun _ _ h => ?_⟩ <;>
    simp [System.init, freshState, EngState.start, Mem.empty, consumerCacheInit] at h

theorem msgSourced (h : Sourced H s) (hadded : ∀ k v, AddedIn s k v → H k v) {j : ℕ} {msg : OpQueueMsg}
    (hmsg : msg ∈ (s.eng.opQueues j).items) : MsgSourced H msg :=
  ⟨h.ops j msg hmsg, fun hadd => hadded _ _ ⟨j, msg, hmsg, hadd, rfl, rfl⟩⟩

theorem work (h : Sourced H s) (w i : ℕ) : Sourced H (s.work cfg w i) := by
  unfold System.work
  dsimp only
  split
  · exact h
  · rename_i ctx _ _
    obtain ⟨hring, hops⟩ := processMsg_sourced (H := H) cfg.eng w ctx h.ring h.ops
    exact ⟨hops, h.entries, h.tables, h.batches, hring, by rw [processMsg_lmdb]; exact h.lmdb⟩

theorem writerTurn (h : Sourced H s) (commits : String → Bool) : Sourced H (s.writerTurn commits) := by
  obtain ⟨hlmdb, hring⟩ := LmdbSourced.writerCycle (w := ⟨s.eng.writerQueue, s.eng.lmdb⟩) h.lmdb
    h.ring commits
  exact ⟨h.ops, h.entries.bumpFlush _, fun i => (h.tables i).keeps (.bumpFlush _ _), h.batches, hring,
    hlmdb⟩

theorem consume (h : Sourced H s) (hadded : ∀ k v, AddedIn s k v → H k v) (i : ℕ) :
    Sourced H (s.consume i) := by
  obtain ⟨hc, hbs, hk, hring, hrest⟩ := CacheSourced.step (s := s.consumers i) ⟨h.entries, h.tables i⟩
    (h.batches i) h.lmdb h.ring (fun j msg hmsg => h.msgSourced hadded hmsg) (engConsumerConfig i)
  refine ⟨fun j msg hmsg => h.ops j msg (hrest j msg hmsg), hc.entries, fun j => ?_, fun j => ?_, hring,
    h.lmdb⟩
  · dsimp only [System.consume]
    rw [Function.update_apply]
    split
    · rename_i hj
      subst hj
      exact hc.table
    · exact (h.tables j).keeps hk
  · dsimp only [System.consume]
    rw [Function.update_apply]
    split
    · rename_i hj
      subst hj
      exact hbs
    · exact h.batches j

/-- **One step** keeps the system sourced, when `H` holds of what its queues add. -/
theorem step (h : Sourced H s) (hadded : ∀ k v, AddedIn s k v → H k v) (a : SysAction) :
    Sourced H (s.step cfg a) := by
  cases a with
  | event cmd ts =>
    rw [System.step, System.event_frame]
    exact ⟨h.ops, h.entries, h.tables, h.batches, h.ring, h.lmdb⟩
  | work w i =>
    rw [System.step]
    split
    · exact h.work w i
    · exact h
  | writer commits =>
    rw [System.step]
    split
    · exact h
    · exact h.writerTurn commits
  | consume i =>
    rw [System.step]
    split
    · exact h.consume hadded i
    · exact h
  | stopWorkers => exact ⟨h.ops, h.entries, h.tables, h.batches, h.ring, h.lmdb⟩
  | stopWriter => exact ⟨h.ops, h.entries, h.tables, h.batches, h.ring, h.lmdb⟩
  | stopConsumers => exact ⟨h.ops, h.entries, h.tables, h.batches, h.ring, h.lmdb⟩

/-- **A run** keeps the system sourced, when `H` holds of what the queues add before each step. -/
theorem run (h : Sourced H s) (as : List SysAction)
    (hadded : ∀ n < as.length, ∀ k v, AddedIn (s.run cfg (as.take n)) k v → H k v) :
    Sourced H (s.run cfg as) := by
  induction as generalizing s with
  | nil => exact h
  | cons a as ih =>
    rw [System.run_cons]
    refine ih (h.step (hadded 0 (Nat.succ_pos _)) a) fun n hn k v hkv => ?_
    refine hadded (n + 1) (Nat.succ_lt_succ hn) k v ?_
    rwa [List.take_succ_cons, System.run_cons]

end Sourced

/-- **No invented ids.**  Along every run from `eng_init`, each id of a bitmap LMDB holds under a
key was, before some step of the run, the value of an `ADD` on an op queue under the text of
that key. -/
theorem lmdb_bitmap_added (cfg : SystemConfig) (as : List SysAction) {k : ContainerDbKey}
    {b : Finset ℕ} (hk : (System.init.run cfg as).eng.lmdb k = some (.bitmap b)) {ser : String}
    (hser : dbKeyInto opKeyBufferSize k = some ser) {v : ℕ} (hv : v ∈ b) :
    ∃ n < as.length, AddedIn (System.init.run cfg (as.take n)) ser v := by
  have hs := Sourced.init.run (H := fun ser v => ∃ n < as.length,
    AddedIn (System.init.run cfg (as.take n)) ser v) as fun n hn _ _ hadd => ⟨n, hn, hadd⟩
  exact hs.lmdb k _ hk b rfl ser hser v hv

end Run

end Orrp.Engine
