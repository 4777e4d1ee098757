import Orrp.Engine.Consumer

/-!
# A consumer's dirty list over whole runs

A consumer shares its heap with the writer, which stores flush versions into its entries, and the
writer's ring with the workers.  `ConsumerStep` is what can happen to one consumer's world: it
processes one container's batch, with its bitmaps read from any snapshot, or flushes; a worker sends
a message; the writer runs a cycle.

Along every run (`ConsumerReachable.cacheInv`) the dirty list stays well formed, every entry on it
holds a change not yet committed, so it is never evicted, and every flush version on the writer's
ring is at most its entry's version (`CacheInv`).

The list does not hold every changed entry.  Clearing it leaves the links of its cells set, so an
entry that was on it, not last, looks dirty to `consumer_cache_add_entry_to_dirty_list` from then
on.  Once such an entry changes again it is `Lost`: off the list, with a change that no message on
the writer's ring carries; and it stays so in every run from there (`lost_forever`).
-/

namespace Orrp.Engine

open Orrp.Lib

/-- The flush versions the messages on the writer's ring carry, as `(entry, version)`. -/
def pendingBumps (q : RingBuffer WriterMsg) : List (ℕ × ℕ) :=
  (q.items.flatMap WriterMsg.entries).filterMap WriterEntry.bump

/-- The entry at `p` is off the dirty list `l` though it looks dirty (its link is set), and holds
a change no flush version in `bumps` reaches. -/
def Lost (m : Mem) (l : List ℕ) (bumps : List (ℕ × ℕ)) (p : ℕ) : Prop :=
  p ∉ l ∧ ∃ e ∈ m.entries p, e.dirtyNext.isSome ∧ e.flushVersion < e.version ∧
    ∀ b ∈ bumps, b.1 = p → b.2 < e.version

instance (m : Mem) (l : List ℕ) (bumps : List (ℕ × ℕ)) (p : ℕ) : Decidable (Lost m l bumps p) :=
  inferInstanceAs (Decidable (p ∉ l ∧ ∃ e ∈ m.entries p, e.dirtyNext.isSome ∧
    e.flushVersion < e.version ∧ ∀ b ∈ bumps, b.1 = p → b.2 < e.version))

/-- A consumer's invariant, with its dirty list `l`, the flush versions `bumps` the writer is to
store, and entries `lost` that are `Lost`. -/
structure CacheInv (c : ConsumerCache) (m : Mem) (l : List ℕ) (bumps : List (ℕ × ℕ))
    (lost : ℕ → Prop) : Prop where
  dirtyList : DirtyList c m l
  versions : ∀ p e, m.entries p = some e → e.flushVersion ≤ e.version
  listDirty : ∀ p ∈ l, ∀ e, m.entries p = some e → e.flushVersion < e.version
  pending : ∀ b ∈ bumps, b.1 < m.nextAddr ∧
    ∀ e, m.entries b.1 = some e → b.2 ≤ e.version ∧ (b.1 ∈ l → b.2 < e.version)
  lost : ∀ p, lost p → Lost m l bumps p

/-! ## One write to the heap or the cache at a time -/

section Primitive

variable {c c' : ConsumerCache} {m : Mem} {l : List ℕ} {bumps : List (ℕ × ℕ)} {lost : ℕ → Prop}

theorem Lost.lt_nextAddr {p : ℕ} (h : Lost m l bumps p) : p < m.nextAddr := by
  obtain ⟨-, e, he, -⟩ := h
  exact Mem.lt_of_isSome (by rw [Option.mem_def.1 he]; rfl)

theorem Lost.congr_entries {m' : Mem} {p : ℕ} (h : Lost m l bumps p)
    (hp : m'.entries p = m.entries p) : Lost m' l bumps p := by
  obtain ⟨hnot, e, he, hrest⟩ := h
  exact ⟨hnot, e, by rw [Option.mem_def, hp]; exact he, hrest⟩

namespace CacheInv

theorem congr_cache (h : CacheInv c m l bumps lost) (hh : c'.dirtyHead = c.dirtyHead)
    (ht : c'.dirtyTail = c.dirtyTail) (hn : c'.numDirtyEntries = c.numDirtyEntries) :
    CacheInv c' m l bumps lost :=
  ⟨h.dirtyList.congr_cache hh ht hn, h.versions, h.listDirty, h.pending, h.lost⟩

theorem mono {bumps' : List (ℕ × ℕ)} (h : CacheInv c m l bumps lost)
    (hsub : ∀ b ∈ bumps', b ∈ bumps) : CacheInv c m l bumps' lost := by
  refine ⟨h.dirtyList, h.versions, h.listDirty, fun b hb => h.pending b (hsub b hb), fun p hp => ?_⟩
  obtain ⟨hnot, e, he, hnext, hv, hb⟩ := h.lost p hp
  exact ⟨hnot, e, he, hnext, hv, fun b hb' => hb b (hsub b hb')⟩

theorem alloc (h : CacheInv c m l bumps lost) {e : CacheEntry} (hv : e.flushVersion ≤ e.version) :
    CacheInv c (m.alloc e).2 l bumps lost := by
  have hold : ∀ q < m.nextAddr, (m.alloc e).2.entries q = m.entries q :=
    fun q hq => Mem.alloc_entries_of_lt hq
  refine ⟨h.dirtyList.congr_entries fun x hx => hold x (h.dirtyList.lt_nextAddr hx), ?_, ?_, ?_,
    fun p hp => (h.lost p hp).congr_entries (hold p (h.lost p hp).lt_nextAddr)⟩
  · intro p e' he'
    rcases Mem.alloc_eq_some he' with ⟨-, rfl⟩ | ⟨-, he'⟩
    · exact hv
    · exact h.versions p e' he'
  · intro p hp e' he'
    rw [hold p (h.dirtyList.lt_nextAddr hp)] at he'
    exact h.listDirty p hp e' he'
  · intro b hb
    obtain ⟨hlt, hbv⟩ := h.pending b hb
    refine ⟨by simp; omega, fun e' he' => ?_⟩
    rw [hold b.1 hlt] at he'
    exact hbv e' he'

theorem bumpVersion (h : CacheInv c m l bumps lost) (p : ℕ) (bm : Finset ℕ) :
    CacheInv c (m.modify p fun e => { e with bitmap := bm, version := e.version + 1 }) l bumps
      lost := by
  have hnext := Mem.dirtyNext_modify (m := m) (p := p)
    (f := fun e => { e with bitmap := bm, version := e.version + 1 }) (fun _ => rfl)
  refine ⟨?_, ?_, ?_, ?_, ?_⟩
  · exact h.dirtyList.congr_mem (fun x _ => hnext x)
      (fun x hx => by rw [Mem.isSome_modify]; exact h.dirtyList.alloc x hx)
  · intro q e' he'
    obtain ⟨e, he, ⟨rfl, rfl⟩ | ⟨-, rfl⟩⟩ := Mem.modify_eq_some he'
    · have := h.versions q e he
      dsimp only
      omega
    · exact h.versions q _ he
  · intro q hq e' he'
    obtain ⟨e, he, ⟨rfl, rfl⟩ | ⟨-, rfl⟩⟩ := Mem.modify_eq_some he'
    · have := h.listDirty q hq e he
      dsimp only
      omega
    · exact h.listDirty q hq _ he
  · intro b hb
    obtain ⟨hlt, hbv⟩ := h.pending b hb
    refine ⟨hlt, fun e' he' => ?_⟩
    obtain ⟨e, he, ⟨hq, rfl⟩ | ⟨-, rfl⟩⟩ := Mem.modify_eq_some he'
    · have := hbv e he
      dsimp only
      omega
    · exact hbv _ he
  · intro q hq
    by_cases hqp : q = p
    · subst hqp
      obtain ⟨hnot, e, he, hlink, hv, hb⟩ := h.lost q hq
      refine ⟨hnot, { e with bitmap := bm, version := e.version + 1 }, ?_, hlink,
        by dsimp only; omega, fun b hb' hbq => ?_⟩
      · rw [Option.mem_def, Mem.modify_entries_self, Option.mem_def.1 he]
        rfl
      · have := hb b hb' hbq
        dsimp only
        omega
    · exact (h.lost q hq).congr_entries (Mem.modify_entries_of_ne hqp)

theorem free (h : CacheInv c m l bumps lost) {q : ℕ}
    (hq : ∀ e, m.entries q = some e → e.version = e.flushVersion) :
    CacheInv c (m.free q) l bumps lost := by
  have hnl : ∀ x ∈ l, x ≠ q := by
    rintro x hx rfl
    obtain ⟨e, he⟩ := Option.isSome_iff_exists.1 (h.dirtyList.alloc x hx)
    have := h.listDirty x hx e he
    have := hq e he
    omega
  have hold : ∀ x, x ≠ q → (m.free q).entries x = m.entries x := fun x hx => by
    rw [Mem.free_entries, if_neg hx]
  refine ⟨h.dirtyList.congr_entries fun x hx => hold x (hnl x hx), ?_, ?_, ?_, ?_⟩
  · intro p e he
    exact h.versions p e (Mem.free_eq_some he).2
  · intro p hp e he
    exact h.listDirty p hp e (Mem.free_eq_some he).2
  · intro b hb
    obtain ⟨hlt, hbv⟩ := h.pending b hb
    exact ⟨hlt, fun e he => hbv e (Mem.free_eq_some he).2⟩
  · intro p hp
    have hpq : p ≠ q := by
      rintro rfl
      obtain ⟨-, e, he, -, hv, -⟩ := h.lost p hp
      have := hq e (Option.mem_def.1 he)
      omega
    exact (h.lost p hp).congr_entries (hold p hpq)

theorem bumpFlush (h : CacheInv c m l bumps lost) {b : ℕ × ℕ} (hb : b ∈ bumps) :
    CacheInv c (m.modify b.1 fun e => { e with flushVersion := b.2 }) l bumps lost := by
  have hnext := Mem.dirtyNext_modify (m := m) (p := b.1)
    (f := fun e => { e with flushVersion := b.2 }) (fun _ => rfl)
  obtain ⟨-, hbv⟩ := h.pending b hb
  refine ⟨?_, ?_, ?_, ?_, ?_⟩
  · exact h.dirtyList.congr_mem (fun x _ => hnext x)
      (fun x hx => by rw [Mem.isSome_modify]; exact h.dirtyList.alloc x hx)
  · intro q e' he'
    obtain ⟨e, he, ⟨rfl, rfl⟩ | ⟨-, rfl⟩⟩ := Mem.modify_eq_some he'
    · exact (hbv e he).1
    · exact h.versions q _ he
  · intro q hq e' he'
    obtain ⟨e, he, ⟨rfl, rfl⟩ | ⟨-, rfl⟩⟩ := Mem.modify_eq_some he'
    · exact (hbv e he).2 hq
    · exact h.listDirty q hq _ he
  · intro b' hb'
    obtain ⟨hlt, hbv'⟩ := h.pending b' hb'
    refine ⟨hlt, fun e' he' => ?_⟩
    obtain ⟨e, he, ⟨-, rfl⟩ | ⟨-, rfl⟩⟩ := Mem.modify_eq_some he'
    · exact hbv' e he
    · exact hbv' _ he
  · intro q hq
    by_cases hqb : q = b.1
    · subst hqb
      obtain ⟨hnot, e, he, hlink, -, hbq⟩ := h.lost _ hq
      refine ⟨hnot, { e with flushVersion := b.2 }, ?_, hlink, hbq b hb rfl, hbq⟩
      rw [Option.mem_def, Mem.modify_entries_self, Option.mem_def.1 he]
      rfl
    · exact (h.lost q hq).congr_entries (Mem.modify_entries_of_ne hqb)

theorem addToDirtyList (h : CacheInv c m l bumps lost) {p : ℕ}
    (hp : ∀ e, m.entries p = some e →
      e.flushVersion < e.version ∧ ∀ b ∈ bumps, b.1 = p → b.2 < e.version) :
    ∃ l', CacheInv (consumerCacheAddEntryToDirtyList c m p).1
      (consumerCacheAddEntryToDirtyList c m p).2 l' bumps lost := by
  by_cases hskip : ((m.entries p).isNone || isAlreadyDirty c m p) = true
  · refine ⟨l, ?_⟩
    rw [show consumerCacheAddEntryToDirtyList c m p = (c, m) by
      simp only [consumerCacheAddEntryToDirtyList, hskip, if_true]]
    exact h
  have hskip' : (m.entries p).isNone = false ∧ isAlreadyDirty c m p = false := by
    simpa only [Bool.not_eq_true, Bool.or_eq_false_iff] using hskip
  have halloc : (m.entries p).isSome := by
    cases hpe : m.entries p with
    | none => simp [hpe] at hskip'
    | some _ => rfl
  have hdirty : isAlreadyDirty c m p = false := hskip'.2
  have hnotin := h.dirtyList.not_mem_of_isAlreadyDirty hdirty
  have hold : ∀ q ∉ l, (consumerCacheAddEntryToDirtyList c m p).2.entries q = m.entries q :=
    fun q hq => consumerCacheAddEntryToDirtyList_entries_of_ne fun ht => hq <| by
      rw [h.dirtyList.tail] at ht
      exact List.mem_of_getLast? ht
  refine ⟨l ++ [p], h.dirtyList.addEntryToDirtyList halloc hdirty, ?_, ?_, ?_, ?_⟩
  · intro q e' he'
    obtain ⟨e, he, n, rfl⟩ := consumerCacheAddEntryToDirtyList_eq_some he'
    exact h.versions q e he
  · intro q hq e' he'
    obtain ⟨e, he, n, rfl⟩ := consumerCacheAddEntryToDirtyList_eq_some he'
    rcases List.mem_append.1 hq with hq | hq
    · exact h.listDirty q hq e he
    · rw [List.mem_singleton.1 hq] at he
      exact (hp e he).1
  · intro b hb
    obtain ⟨hlt, hbv⟩ := h.pending b hb
    refine ⟨by simpa using hlt, fun e' he' => ?_⟩
    obtain ⟨e, he, n, rfl⟩ := consumerCacheAddEntryToDirtyList_eq_some he'
    refine ⟨(hbv e he).1, fun hbl => ?_⟩
    rcases List.mem_append.1 hbl with hbl | hbl
    · exact (hbv e he).2 hbl
    · have hbp := List.mem_singleton.1 hbl
      rw [hbp] at he
      exact (hp e he).2 b hb hbp
  · intro q hq
    obtain ⟨hnot, e, he, hlink, hv, hbq⟩ := h.lost q hq
    -- a lost entry looks dirty, so it is not the entry added
    have hqp : q ≠ p := by
      rintro rfl
      rw [Option.mem_def] at he
      simp [isAlreadyDirty, Mem.dirtyNext, he, hlink] at hdirty
    refine ⟨fun hmem => ?_, e, by rw [Option.mem_def, hold q hnot]; exact he, hlink, hv, hbq⟩
    rcases List.mem_append.1 hmem with hmem | hmem
    · exact hnot hmem
    · exact hqp (List.mem_singleton.1 hmem)

theorem flush (h : CacheInv c m l bumps lost) :
    CacheInv (consumerCacheClearDirtyList c) m []
      (bumps ++ (flushMsg m l).entries.filterMap WriterEntry.bump) lost := by
  have hmsg : ∀ b ∈ (flushMsg m l).entries.filterMap WriterEntry.bump,
      b.1 ∈ l ∧ ∃ e, m.entries b.1 = some e ∧ b.2 = e.version := by
    intro b hb
    simp only [flushMsg, consumerFlushPrepareEntry, List.mem_filterMap, Option.map_eq_some_iff]
      at hb
    obtain ⟨w, ⟨p, hp, e, he, rfl⟩, hw⟩ := hb
    cases hw
    exact ⟨hp, e, he, rfl⟩
  refine ⟨DirtyList.clear m, h.versions, (fun _ hp => by cases hp), ?_, ?_⟩
  · intro b hb
    rcases List.mem_append.1 hb with hb | hb
    · obtain ⟨hlt, hbv⟩ := h.pending b hb
      exact ⟨hlt, fun e he => ⟨(hbv e he).1, fun hmem => by cases hmem⟩⟩
    · obtain ⟨hbl, e, he, hbv⟩ := hmsg b hb
      refine ⟨h.dirtyList.lt_nextAddr hbl, fun e' he' => ?_⟩
      rw [he] at he'
      cases he'
      exact ⟨hbv.le, fun hmem => by cases hmem⟩
  · intro q hq
    obtain ⟨hnot, e, he, hlink, hv, hbq⟩ := h.lost q hq
    refine ⟨(fun hmem => by cases hmem), e, he, hlink, hv, fun b hb hbq' => ?_⟩
    rcases List.mem_append.1 hb with hb | hb
    · exact hbq b hb hbq'
    · exact absurd (hbq' ▸ (hmsg b hb).1) hnot

theorem evict (h : CacheInv c m l bumps lost) :
    CacheInv (tryEvict c m).1 (tryEvict c m).2 l bumps lost := by
  rcases tryEvict_cases c m with heq | ⟨victim, e, he, hv, heq⟩
  · rw [heq]
    exact h
  · rw [heq]
    refine (h.free fun e' he' => ?_).congr_cache rfl rfl rfl
    rw [he] at he'
    cases he'
    exact hv

theorem writeOps (h : CacheInv c m l bumps lost) {p : ℕ} {ent : CacheEntry}
    (hp : m.entries p = some ent) (bm : Finset ℕ) :
    ∃ l', CacheInv (consumerCacheAddEntryToDirtyList c
        (m.modify p fun e => { e with bitmap := bm, version := e.version + 1 }) p).1
      (consumerCacheAddEntryToDirtyList c
        (m.modify p fun e => { e with bitmap := bm, version := e.version + 1 }) p).2 l' bumps lost := by
  refine (h.bumpVersion p bm).addToDirtyList fun e he => ?_
  rw [Mem.modify_entries_self, hp] at he
  cases he
  have hv := h.versions p ent hp
  refine ⟨by dsimp only; omega, fun b hb hbp => ?_⟩
  have := ((h.pending b hb).2 ent (hbp ▸ hp)).1
  dsimp only
  omega

theorem processBitmap (h : CacheInv c m l bumps lost) {p : ℕ} {wasCached : Bool} {k : String}
    (msgs : List OpQueueMsg) (hk : wasCached = false → c.table k = none) :
    ∃ l', CacheInv (processBitmapOps c m p wasCached k msgs).1
      (processBitmapOps c m p wasCached k msgs).2 l' bumps lost := by
  unfold processBitmapOps
  rcases hp : m.entries p with _ | ent
  · exact ⟨l, h⟩
  dsimp only
  rcases applyBitmapOps ent.bitmap msgs with ⟨bm, dirty⟩
  dsimp only
  obtain ⟨c₁, m₁, hcm, l₁, h₁, ht₁⟩ : ∃ c₁ m₁, (if dirty = true then
        consumerCacheAddEntryToDirtyList c
          (m.modify p fun e => { e with bitmap := bm, version := e.version + 1 }) p
      else (c, m)) = (c₁, m₁) ∧ ∃ l₁, CacheInv c₁ m₁ l₁ bumps lost ∧ c₁.table = c.table := by
    cases dirty
    · exact ⟨c, m, rfl, l, h, rfl⟩
    · obtain ⟨l₁, h₁⟩ := h.writeOps hp bm
      exact ⟨_, _, rfl, l₁, h₁, consumerCacheAddEntryToDirtyList_table⟩
  rw [hcm]
  dsimp only
  cases wasCached
  · -- a new entry joins the cache, after an eviction; its key is still free
    have hk₁ : c₁.table k = none := ht₁ ▸ hk rfl
    have h₂ := h₁.evict
    have hk₂ := tryEvict_table (m := m₁) hk₁
    rcases hte : tryEvict c₁ m₁ with ⟨c₂, m₂⟩
    rw [hte] at h₂ hk₂
    dsimp only at h₂ hk₂
    rw [if_neg Bool.false_ne_true]
    dsimp only
    rw [show consumerCacheAddEntry c₂ k p = (true, { c₂ with
        table := Function.update c₂.table k (some p), nEntries := c₂.nEntries + 1,
        lru := p :: c₂.lru }) by simp [consumerCacheAddEntry, hk₂]]
    exact ⟨l₁, h₂.congr_cache rfl rfl rfl⟩
  · exact ⟨l₁, h₁⟩

theorem getOrCreate (h : CacheInv c m l bumps lost) (snap : Lmdb) (k : String)
    (msg : OpQueueMsg) :
    CacheInv (getOrCreateCacheEntry snap c m k msg).2.1 (getOrCreateCacheEntry snap c m k msg).2.2
      l bumps lost ∧
    ∀ p, (getOrCreateCacheEntry snap c m k msg).1 = some (p, false) →
      (getOrCreateCacheEntry snap c m k msg).2.1.table k = none := by
  unfold getOrCreateCacheEntry consumerCacheGetEntry
  rcases hk : c.table k with _ | p
  · dsimp only
    rcases loadBitmap snap msg.op.dbKey with _ | b
    · exact ⟨h, fun _ hp => by cases hp⟩
    · exact ⟨h.alloc (le_refl 0), fun _ _ => hk⟩
  · exact ⟨h.congr_cache rfl rfl rfl, fun _ hp => by simp at hp⟩

theorem processKey (h : CacheInv c m l bumps lost) (snap : Lmdb)
    (key : String × List OpQueueMsg) :
    ∃ l', CacheInv (processOpMsgs snap (c, m) key).1 (processOpMsgs snap (c, m) key).2 l' bumps
      lost := by
  rcases key with ⟨k, _ | ⟨msg, msgs⟩⟩
  · exact ⟨l, h⟩
  unfold processOpMsgs
  dsimp only
  obtain ⟨hinv, hnew⟩ := h.getOrCreate snap k msg
  rcases hg : getOrCreateCacheEntry snap c m k msg with ⟨_ | ⟨p, wasCached⟩, c₁, m₁⟩
  · rw [hg] at hinv
    exact ⟨l, hinv⟩
  · rw [hg] at hinv hnew
    exact hinv.processBitmap _ fun (hw : wasCached = false) => hnew p (by rw [hw])

theorem batch (h : CacheInv c m l bumps lost) (snap : Lmdb) (b : String × List (String × List OpQueueMsg)) :
    ∃ l', CacheInv (processBatch snap (c, m) b).1 (processBatch snap (c, m) b).2 l' bumps lost := by
  unfold processBatch
  refine List.foldlRecOn (motive := fun cm : ConsumerCache × Mem =>
    ∃ l', CacheInv cm.1 cm.2 l' bumps lost) _ _ ⟨l, h⟩ ?_
  rintro ⟨c₂, m₂⟩ ⟨l₂, h₂⟩ key -
  exact h₂.processKey snap key

theorem addLost (h : CacheInv c m l bumps lost) {p : ℕ} (hp : Lost m l bumps p) :
    CacheInv c m l bumps fun q => lost q ∨ q = p := by
  refine ⟨h.dirtyList, h.versions, h.listDirty, h.pending, fun q hq => ?_⟩
  rcases hq with hq | rfl
  · exact h.lost q hq
  · exact hp

end CacheInv

theorem CacheInv.bumpAll {bs : List (ℕ × ℕ)} (hbs : ∀ b ∈ bs, b ∈ bumps) :
    ∀ {m : Mem}, CacheInv c m l bumps lost → CacheInv c (bumpFlushVersions m bs) l bumps lost := by
  induction bs with
  | nil => exact fun h => h
  | cons b bs ih =>
    intro m h
    exact ih (fun b' hb' => hbs b' (List.mem_cons_of_mem _ hb'))
      (h.bumpFlush (hbs b List.mem_cons_self))

end Primitive

/-! ## The flush versions on the writer's ring -/

section Pending

variable {q q' : RingBuffer WriterMsg} {msg : WriterMsg}

theorem pendingBumps_enqueue (hq : q.enqueue msg = some q') :
    pendingBumps q' = pendingBumps q ++ msg.entries.filterMap WriterEntry.bump := by
  rw [pendingBumps, pendingBumps, (RingBuffer.enqueue_eq_some hq).1, List.flatMap_append,
    List.filterMap_append, List.flatMap_singleton]

theorem mem_pendingBumps_drop {b : ℕ × ℕ} (n : ℕ) (hb : b ∈ pendingBumps (q.drop n)) :
    b ∈ pendingBumps q := by
  simp only [pendingBumps, RingBuffer.drop_items, List.mem_filterMap, List.mem_flatMap] at hb ⊢
  obtain ⟨e, ⟨x, hx, he⟩, hbe⟩ := hb
  exact ⟨e, ⟨x, List.mem_of_mem_drop hx, he⟩, hbe⟩

theorem mem_pendingBumps_enqueue_getD {b : ℕ × ℕ} (hb : b ∈ pendingBumps ((q.enqueue msg).getD q)) :
    b ∈ pendingBumps q ++ msg.entries.filterMap WriterEntry.bump := by
  rcases henq : q.enqueue msg with _ | q'
  · rw [henq, Option.getD_none] at hb
    exact List.mem_append_left _ hb
  · rwa [henq, Option.getD_some, pendingBumps_enqueue henq] at hb

theorem mem_pendingBumps_of_engWriterCycle {commits : String → Bool} {w : EngWriter} {b : ℕ × ℕ}
    (hb : b ∈ (engWriterCycle commits w).2) : b ∈ pendingBumps w.queue := by
  simp only [engWriterCycle, RingBuffer.dequeueUpTo_eq, flushBumps, foldl_groupEntriesByContainer,
    List.mem_flatMap, List.mem_filter, List.mem_filterMap] at hb
  obtain ⟨g, ⟨hg, -⟩, e, he, hbe⟩ := hb
  have hmem := mem_of_mem_groupBy hg he
  simp only [List.mem_flatMap] at hmem
  obtain ⟨x, hx, hex⟩ := hmem
  simp only [pendingBumps, List.mem_filterMap, List.mem_flatMap]
  exact ⟨e, ⟨x, List.mem_of_mem_take hx, hex⟩, hbe⟩

end Pending

/-! ## A consumer's world -/

/-- One consumer and what it shares with the other threads: the heap, and the writer with its
ring and LMDB. -/
structure ConsumerWorld where
  cache : ConsumerCache
  mem : Mem
  writer : EngWriter

namespace ConsumerWorld

/-- The consumer processes a container's batch, its bitmaps loaded from `snap`. -/
def batch (w : ConsumerWorld) (snap : Lmdb) (b : String × List (String × List OpQueueMsg)) :
    ConsumerWorld :=
  ⟨(processBatch snap (w.cache, w.mem) b).1, (processBatch snap (w.cache, w.mem) b).2, w.writer⟩

/-- The consumer flushes its dirty entries. -/
def flush (w : ConsumerWorld) : ConsumerWorld :=
  ⟨(flushDirty w.cache w.mem w.writer.queue).1, w.mem,
    { w.writer with queue := (flushDirty w.cache w.mem w.writer.queue).2 }⟩

/-- The writer runs a cycle and stores the flush versions it committed. -/
def writerCycle (w : ConsumerWorld) (commits : String → Bool) : ConsumerWorld :=
  ⟨w.cache, bumpFlushVersions w.mem (engWriterCycle commits w.writer).2,
    (engWriterCycle commits w.writer).1⟩

/-- The entries a flush would walk. -/
def dirtyCells (w : ConsumerWorld) : List ℕ :=
  walk w.mem.dirtyNext w.mem.nextAddr w.cache.dirtyHead

end ConsumerWorld

/-- What can happen to a consumer's world. -/
inductive ConsumerStep : ConsumerWorld → ConsumerWorld → Prop
  /-- The consumer processes a container's batch of ops, read from any snapshot. -/
  | batch (w : ConsumerWorld) (snap : Lmdb) (b : String × List (String × List OpQueueMsg)) :
      ConsumerStep w (w.batch snap b)
  /-- The consumer flushes. -/
  | flush (w : ConsumerWorld) : ConsumerStep w w.flush
  /-- A worker sends a message, which stores no flush version. -/
  | send (w : ConsumerWorld) (msg : WriterMsg) (q : RingBuffer WriterMsg)
      (hq : w.writer.queue.enqueue msg = some q) (hmsg : ∀ e ∈ msg.entries, e.bump = none) :
      ConsumerStep w ⟨w.cache, w.mem, { w.writer with queue := q }⟩
  /-- The writer runs a cycle. -/
  | writer (w : ConsumerWorld) (commits : String → Bool) : ConsumerStep w (w.writerCycle commits)

/-- The worlds of a consumer started with an empty cache, next to a writer whose ring stores no
flush version. -/
inductive ConsumerReachable : ConsumerWorld → Prop
  | init (writer : EngWriter) (h : pendingBumps writer.queue = []) :
      ConsumerReachable ⟨consumerCacheInit, Mem.empty, writer⟩
  | step {w w' : ConsumerWorld} : ConsumerReachable w → ConsumerStep w w' → ConsumerReachable w'

section World

variable {w w' : ConsumerWorld} {l : List ℕ} {lost : ℕ → Prop}

/-- The invariant of a consumer's world. -/
abbrev ConsumerWorld.Inv (w : ConsumerWorld) (l : List ℕ) (lost : ℕ → Prop) : Prop :=
  CacheInv w.cache w.mem l (pendingBumps w.writer.queue) lost

theorem ConsumerWorld.Inv.dirtyCells_eq (h : w.Inv l lost) : w.dirtyCells = l :=
  h.dirtyList.walk_eq

/-- **One step keeps the invariant.** -/
theorem ConsumerStep.inv (hs : ConsumerStep w w') (h : w.Inv l lost) : ∃ l', w'.Inv l' lost := by
  cases hs with
  | batch snap b => exact h.batch snap b
  | flush =>
    by_cases hl : l = []
    · subst hl
      refine ⟨[], ?_⟩
      simp only [ConsumerWorld.Inv, ConsumerWorld.flush, flushDirty_of_nil h.dirtyList]
      exact h
    · refine ⟨[], ?_⟩
      simp only [ConsumerWorld.Inv, ConsumerWorld.flush, flushDirty_of_dirtyList h.dirtyList hl]
      refine h.flush.mono fun b hb => ?_
      split at hb
      · exact mem_pendingBumps_enqueue_getD hb
      · exact List.mem_append_left _ hb
  | send msg q hq hmsg =>
    refine ⟨l, h.mono fun b hb => ?_⟩
    rw [pendingBumps_enqueue hq] at hb
    rcases List.mem_append.1 hb with hb | hb
    · exact hb
    · obtain ⟨e, he, hbe⟩ := List.mem_filterMap.1 hb
      rw [hmsg e he] at hbe
      cases hbe
  | writer commits =>
    refine ⟨l, (h.bumpAll fun b hb => mem_pendingBumps_of_engWriterCycle hb).mono fun b hb => ?_⟩
    simp only [ConsumerWorld.writerCycle, engWriterCycle_queue] at hb
    exact mem_pendingBumps_drop _ hb

/-- **Every run keeps the invariant.** -/
theorem ConsumerWorld.Inv.run (h : w.Inv l lost) (hrun : Relation.ReflTransGen ConsumerStep w w') :
    ∃ l', w'.Inv l' lost := by
  induction hrun with
  | refl => exact ⟨l, h⟩
  | tail _ hs ih =>
    obtain ⟨l', h'⟩ := ih
    exact hs.inv h'

theorem ConsumerReachable.inv (hw : ConsumerReachable w) : ∃ l, w.Inv l fun _ => False := by
  induction hw with
  | init writer h =>
    refine ⟨[], dirtyList_init _, (fun _ _ he => by cases he), (fun _ hp => by cases hp),
      (fun b hb => by rw [h] at hb; cases hb), fun _ hp => False.elim hp⟩
  | step _ hs ih =>
    obtain ⟨l, h⟩ := ih
    exact hs.inv h

/-- **A lost change never reaches the writer.**  From a reachable world in which the entry at `p`
is `Lost`, along every run the entry stays off the list a flush walks, with a version newer than
every flush version on the writer's ring: no flush sends its bitmap again, and it is never
evicted. -/
theorem lost_forever (hw : ConsumerReachable w) {p : ℕ}
    (hp : Lost w.mem w.dirtyCells (pendingBumps w.writer.queue) p)
    (hrun : Relation.ReflTransGen ConsumerStep w w') :
    Lost w'.mem w'.dirtyCells (pendingBumps w'.writer.queue) p := by
  obtain ⟨l, h⟩ := hw.inv
  rw [h.dirtyCells_eq] at hp
  -- follow `p` along the run as an entry the invariant knows to be lost
  obtain ⟨l', h'⟩ := ConsumerWorld.Inv.run (h.addLost hp) hrun
  rw [h'.dirtyCells_eq]
  exact h'.lost p (Or.inr rfl)

/-- An `ADD` of `v` to the key `key` of container `c`'s inverted index. -/
def sampleAddOp (key : String) (v : ℕ) : OpQueueMsg :=
  ⟨⟨.add, ⟨"c", .usr .invertedEventIndex, none, .str key⟩, v⟩, "c|0|" ++ key⟩

/-- The batch `consumer_batch_add_msg` makes of ops of container `c`. -/
def sampleBatch (ops : List OpQueueMsg) : String × List (String × List OpQueueMsg) :=
  ("c", groupBy OpQueueMsg.serDbKey ops)

/-- Two keys changed, flushed and committed; then the first changed again.  The flush cleared the
list but left the first entry linked to the second, so the second change finds it already dirty.
The keys `c|0|a:x` and `c|0|b:f` route to one op queue, so one consumer caches both. -/
def staleLinkWorld : ConsumerWorld :=
  ((((⟨consumerCacheInit, Mem.empty, ⟨RingBuffer.empty (engWriterQueueCapacity - 1), fun _ => none⟩⟩ :
      ConsumerWorld).batch (fun _ => none) (sampleBatch [sampleAddOp "a:x" 1, sampleAddOp "b:f" 2])).flush.writerCycle
      fun _ => true).batch (fun _ => none) (sampleBatch [sampleAddOp "a:x" 3]))

theorem staleLinkWorld_reachable : ConsumerReachable staleLinkWorld :=
  .step (.step (.step (.step (.init _ rfl) (.batch _ _ _)) (.flush _)) (.writer _ _)) (.batch _ _ _)

/-- The third `ADD` is lost, and a further flush and commit do not send it. -/
theorem lost_forever_staleLinkWorld :
    Lost staleLinkWorld.mem staleLinkWorld.dirtyCells (pendingBumps staleLinkWorld.writer.queue) 0 ∧
      Lost (staleLinkWorld.flush.writerCycle fun _ => true).mem
        (staleLinkWorld.flush.writerCycle fun _ => true).dirtyCells
        (pendingBumps (staleLinkWorld.flush.writerCycle fun _ => true).writer.queue) 0 :=
  ⟨by decide +kernel, lost_forever staleLinkWorld_reachable (by decide +kernel)
    (.tail (.single (.flush _)) (.writer _ _))⟩

end World

end Orrp.Engine
