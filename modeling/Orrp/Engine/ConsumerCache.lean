import Orrp.Lib.LinkedList
import Orrp.Engine.KeyFormat

/-!
# The consumer cache (`engine/consumer/consumer_cache_internal`, `consumer_cache_entry`)

A consumer caches the bitmap of every key its op queues carry, one `consumer_cache_entry_t` per
key, found through a hash table and ordered by an LRU list.  An entry changed since its last flush
is linked into the dirty list through its own `dirty_next` field; the cache keeps the list's head,
tail and count, and `consumer_cache_add_entry_to_dirty_list` takes an entry to be on the list
already when its link is set or it is the head or the tail.

The entries live in a heap (`Mem`) whose addresses stand for the source's pointers.  The LRU list
is kept as the list of its cells; the dirty list only through the links, as the source has it.

* `DirtyList` — the dirty list is well formed: from the head the links visit its cells and end at
  the tail, and the count is their number;
* `DirtyList.addEntryToDirtyList` — adding an entry that does not look dirty appends it;
* `DirtyList.isAlreadyDirty_of_mem` — every cell of the list looks dirty;
* `DirtyList.clear_next` — `consumer_cache_clear_dirty_list` resets the head, the tail and the
  count but not the links, so every cell of the old list but the last still looks dirty.
-/

namespace Orrp.Engine

open Orrp.Lib

/-- `consumer_cache_entry_t`: the dirty-list link, the bitmap `cc_bitmap` holds, the version the
writer stores once a flush of the entry commits, the version the consumer bumps on each change, and
the key. -/
structure CacheEntry where
  dirtyNext : Option ℕ
  bitmap : Finset ℕ
  flushVersion : ℕ
  version : ℕ
  dbKey : ContainerDbKey
  serDbKey : String
  deriving DecidableEq

/-- The cache entries of the process by address.  `calloc` hands out `nextAddr`; nothing at or
above it is allocated. -/
structure Mem where
  entries : ℕ → Option CacheEntry
  nextAddr : ℕ
  fresh : ∀ a, nextAddr ≤ a → entries a = none

namespace Mem

/-- The heap before any entry is allocated. -/
def empty : Mem := ⟨fun _ => none, 0, fun _ _ => rfl⟩

/-- The `dirty_next` link of the entry at `p`, null for an address not allocated. -/
def dirtyNext (m : Mem) (p : ℕ) : Option ℕ := (m.entries p).bind CacheEntry.dirtyNext

/-- A write to the fields of the entry at `p`; nothing, for an address not allocated. -/
def modify (m : Mem) (p : ℕ) (f : CacheEntry → CacheEntry) : Mem :=
  ⟨Function.update m.entries p ((m.entries p).map f), m.nextAddr, fun a ha => by
    rcases eq_or_ne a p with rfl | hne
    · simp [m.fresh a ha]
    · rw [Function.update_of_ne hne, m.fresh a ha]⟩

/-- `calloc` of an entry, at the fresh address. -/
def alloc (m : Mem) (e : CacheEntry) : ℕ × Mem :=
  (m.nextAddr, ⟨Function.update m.entries m.nextAddr (some e), m.nextAddr + 1, fun a ha => by
    rw [Function.update_of_ne (by omega)]
    exact m.fresh a (by omega)⟩)

/-- `free` of the entry at `p`. -/
def free (m : Mem) (p : ℕ) : Mem :=
  ⟨Function.update m.entries p none, m.nextAddr, fun a ha => by
    rcases eq_or_ne a p with rfl | hne
    · simp
    · rw [Function.update_of_ne hne, m.fresh a ha]⟩

variable {m : Mem} {p q : ℕ} {f : CacheEntry → CacheEntry} {e : CacheEntry}

theorem lt_of_isSome (h : (m.entries p).isSome) : p < m.nextAddr := by
  by_contra hp
  rw [m.fresh p (by omega)] at h
  cases h

@[simp] theorem modify_nextAddr : (m.modify p f).nextAddr = m.nextAddr := rfl

@[simp] theorem modify_entries_self : (m.modify p f).entries p = (m.entries p).map f := by
  simp [modify]

theorem modify_entries_of_ne (h : q ≠ p) : (m.modify p f).entries q = m.entries q := by
  simp [modify, Function.update_of_ne h]

theorem modify_entries (q : ℕ) :
    (m.modify p f).entries q = if q = p then (m.entries q).map f else m.entries q := by
  split
  · subst q
    exact modify_entries_self
  · exact modify_entries_of_ne ‹_›

theorem dirtyNext_modify (hf : ∀ e, (f e).dirtyNext = e.dirtyNext) (q : ℕ) :
    (m.modify p f).dirtyNext q = m.dirtyNext q := by
  rw [dirtyNext, dirtyNext, modify_entries]
  split
  · cases m.entries q <;> simp [hf]
  · rfl

@[simp] theorem alloc_fst : (m.alloc e).1 = m.nextAddr := rfl

@[simp] theorem alloc_nextAddr : (m.alloc e).2.nextAddr = m.nextAddr + 1 := rfl

theorem alloc_entries (q : ℕ) :
    (m.alloc e).2.entries q = if q = m.nextAddr then some e else m.entries q := by
  simp only [alloc, Function.update_apply]

theorem alloc_entries_self : (m.alloc e).2.entries m.nextAddr = some e := by
  simp [alloc_entries]

theorem alloc_entries_of_lt (hq : q < m.nextAddr) : (m.alloc e).2.entries q = m.entries q := by
  rw [alloc_entries, if_neg (by omega)]

@[simp] theorem free_nextAddr : (m.free p).nextAddr = m.nextAddr := rfl

theorem free_entries (q : ℕ) : (m.free p).entries q = if q = p then none else m.entries q := by
  simp only [free, Function.update_apply]

theorem modify_eq_some {e' : CacheEntry} (h : (m.modify p f).entries q = some e') :
    ∃ e, m.entries q = some e ∧ ((q = p ∧ e' = f e) ∨ (q ≠ p ∧ e' = e)) := by
  rw [modify_entries] at h
  split at h
  · obtain ⟨e, he, rfl⟩ := Option.map_eq_some_iff.1 h
    exact ⟨e, he, .inl ⟨‹_›, rfl⟩⟩
  · exact ⟨e', h, .inr ⟨‹_›, rfl⟩⟩

theorem isSome_modify : ((m.modify p f).entries q).isSome = (m.entries q).isSome := by
  rw [modify_entries]
  split <;> simp

theorem alloc_eq_some {e' : CacheEntry} (h : (m.alloc e).2.entries q = some e') :
    (q = m.nextAddr ∧ e' = e) ∨ (q < m.nextAddr ∧ m.entries q = some e') := by
  rw [alloc_entries] at h
  split at h
  · exact .inl ⟨‹_›, (Option.some.inj h).symm⟩
  · exact .inr ⟨lt_of_isSome (by rw [h]; rfl), h⟩

theorem free_eq_some {e' : CacheEntry} (h : (m.free p).entries q = some e') :
    q ≠ p ∧ m.entries q = some e' := by
  rw [free_entries] at h
  split at h
  · cases h
  · exact ⟨‹_›, h⟩

end Mem

/-- `consumer_cache_t`: the table from serialized keys to entries and its count, the LRU list
(most recently used first), and the dirty list's head, tail and count. -/
structure ConsumerCache where
  table : String → Option ℕ
  nEntries : ℕ
  lru : List ℕ
  dirtyHead : Option ℕ
  dirtyTail : Option ℕ
  numDirtyEntries : ℕ

/-- `consumer_cache_init`: an empty cache. -/
def consumerCacheInit : ConsumerCache := ⟨fun _ => none, 0, [], none, none, 0⟩

/-! ## The dirty list -/

/-- The test by which `consumer_cache_add_entry_to_dirty_list` finds an entry already dirty: its
link is set, or it is the head or the tail. -/
def isAlreadyDirty (c : ConsumerCache) (m : Mem) (p : ℕ) : Bool :=
  (m.dirtyNext p).isSome || c.dirtyHead == some p || c.dirtyTail == some p

/-- `consumer_cache_add_entry_to_dirty_list`: link the entry after the tail.  The source also nulls
the entry's own link, which the test has just found null. -/
def consumerCacheAddEntryToDirtyList (c : ConsumerCache) (m : Mem) (p : ℕ) : ConsumerCache × Mem :=
  if (m.entries p).isNone || isAlreadyDirty c m p then (c, m)
  else
    match c.dirtyHead, c.dirtyTail with
    | some _, some t => ({ c with dirtyTail := some p, numDirtyEntries := c.numDirtyEntries + 1 },
        m.modify t fun e => { e with dirtyNext := some p })
    -- a head without a tail does not occur (`DirtyList`); the source would dereference null
    | some _, none => ({ c with dirtyTail := some p, numDirtyEntries := c.numDirtyEntries + 1 }, m)
    | none, _ =>
      ({ c with dirtyHead := some p, dirtyTail := some p, numDirtyEntries := c.numDirtyEntries + 1 },
        m)

/-- `consumer_cache_clear_dirty_list`: the head, the tail and the count are reset; the links of the
entries are not. -/
def consumerCacheClearDirtyList (c : ConsumerCache) : ConsumerCache :=
  { c with dirtyHead := none, dirtyTail := none, numDirtyEntries := 0 }

/-! ## The table and the LRU list -/

/-- `_lru_move_to_front`. -/
def lruMoveToFront (lru : List ℕ) (p : ℕ) : List ℕ :=
  if lru.head? = some p then lru else p :: lru.erase p

/-- `consumer_cache_get_entry`: the entry of a key, moved to the front of the LRU list if asked. -/
def consumerCacheGetEntry (c : ConsumerCache) (serDbKey : String) (moveToFrontOfLru : Bool) :
    Option ℕ × ConsumerCache :=
  match c.table serDbKey with
  | none => (none, c)
  | some p => (some p, if moveToFrontOfLru then { c with lru := lruMoveToFront c.lru p } else c)

/-- `consumer_cache_evict_lru`: the LRU tail leaves the table and the LRU list, unless it changed
since its last committed flush (`version ≠ flush_version`) or the table does not hold its key. -/
def consumerCacheEvictLru (c : ConsumerCache) (m : Mem) : Option ℕ × ConsumerCache :=
  match c.lru.getLast? with
  | none => (none, c)
  | some victim =>
    match m.entries victim with
    | none => (none, c)
    | some e =>
      if e.version ≠ e.flushVersion then (none, c)
      else if (c.table e.serDbKey).isNone then (none, c)
      else
        (some victim,
          { c with
              table := Function.update c.table e.serDbKey none, lru := c.lru.dropLast,
              nEntries := c.nEntries - 1 })

/-- `consumer_cache_add_entry`: into the table, which refuses a key it holds, and at the head of
the LRU list. -/
def consumerCacheAddEntry (c : ConsumerCache) (serDbKey : String) (p : ℕ) : Bool × ConsumerCache :=
  if (c.table serDbKey).isSome then (false, c)
  else
    (true,
      { c with
          table := Function.update c.table serDbKey (some p), nEntries := c.nEntries + 1,
          lru := p :: c.lru })

/-- `consumer_cache_create_entry_bitmap`: a new unlinked entry at version `0`. -/
def consumerCacheCreateEntryBitmap (m : Mem) (dbKey : ContainerDbKey) (serDbKey : String)
    (bitmap : Finset ℕ) : ℕ × Mem :=
  m.alloc ⟨none, bitmap, 0, 0, dbKey, serDbKey⟩

/-! ## A well-formed dirty list -/

/-- The dirty list is the cells `l`: they are allocated, the links from the head visit them in
order and end at null, the tail is the last, and the count is their number. -/
structure DirtyList (c : ConsumerCache) (m : Mem) (l : List ℕ) : Prop where
  isList : IsList m.dirtyNext c.dirtyHead l
  tail : c.dirtyTail = l.getLast?
  num : c.numDirtyEntries = l.length
  alloc : ∀ p ∈ l, (m.entries p).isSome

section DirtyList

variable {c c' : ConsumerCache} {m m' : Mem} {l : List ℕ} {p : ℕ}

theorem dirtyList_init (m : Mem) : DirtyList consumerCacheInit m [] :=
  ⟨.nil, rfl, rfl, fun _ h => by cases h⟩

namespace DirtyList

theorem clear (m : Mem) : DirtyList (consumerCacheClearDirtyList c) m [] :=
  ⟨.nil, rfl, rfl, fun _ h => by cases h⟩

theorem congr_cache (h : DirtyList c m l) (hh : c'.dirtyHead = c.dirtyHead)
    (ht : c'.dirtyTail = c.dirtyTail) (hn : c'.numDirtyEntries = c.numDirtyEntries) :
    DirtyList c' m l :=
  ⟨hh ▸ h.isList, ht ▸ h.tail, hn ▸ h.num, h.alloc⟩

theorem congr_mem (h : DirtyList c m l) (hnext : ∀ x ∈ l, m'.dirtyNext x = m.dirtyNext x)
    (halloc : ∀ x ∈ l, (m'.entries x).isSome) : DirtyList c m' l :=
  ⟨h.isList.congr hnext, h.tail, h.num, halloc⟩

theorem congr_entries (h : DirtyList c m l) (hold : ∀ x ∈ l, m'.entries x = m.entries x) :
    DirtyList c m' l := by
  refine h.congr_mem (fun x hx => ?_) (fun x hx => ?_)
  · simp only [Mem.dirtyNext, hold x hx]
  · rw [hold x hx]
    exact h.alloc x hx

theorem lt_nextAddr (h : DirtyList c m l) (hp : p ∈ l) : p < m.nextAddr :=
  Mem.lt_of_isSome (h.alloc p hp)

theorem walk_eq (h : DirtyList c m l) : walk m.dirtyNext m.nextAddr c.dirtyHead = l :=
  h.isList.walk_eq (h.isList.length_le fun _ hx => h.lt_nextAddr hx)

theorem head_isSome (h : DirtyList c m l) (hl : l ≠ []) : c.dirtyHead.isSome := by
  cases hh : c.dirtyHead with
  | none =>
    have := h.isList
    rw [hh] at this
    cases this
    exact absurd rfl hl
  | some _ => rfl

/-- Every cell of the list looks dirty: the last is the tail, the others have their link set. -/
theorem isAlreadyDirty_of_mem (h : DirtyList c m l) (hp : p ∈ l) : isAlreadyDirty c m p = true := by
  obtain ⟨l₁, l₂, rfl⟩ := List.append_of_mem hp
  have hnext := h.isList.next_eq_head?
  cases l₂ with
  | nil =>
    have htail : c.dirtyTail = some p := by rw [h.tail]; simp
    simp [isAlreadyDirty, htail]
  | cons y l₂ => simp [isAlreadyDirty, hnext]

theorem not_mem_of_isAlreadyDirty (h : DirtyList c m l) (hp : isAlreadyDirty c m p = false) :
    p ∉ l := fun hmem => by
  rw [h.isAlreadyDirty_of_mem hmem] at hp
  cases hp

/-- Adding an allocated entry that does not look dirty appends it. -/
theorem addEntryToDirtyList (h : DirtyList c m l) (halloc : (m.entries p).isSome)
    (hp : isAlreadyDirty c m p = false) :
    DirtyList (consumerCacheAddEntryToDirtyList c m p).1 (consumerCacheAddEntryToDirtyList c m p).2
      (l ++ [p]) := by
  have hnotin := h.not_mem_of_isAlreadyDirty hp
  have hnone : (m.entries p).isNone = false := by simpa using halloc
  unfold consumerCacheAddEntryToDirtyList
  rw [hnone, hp, Bool.or_false, if_neg Bool.false_ne_true]
  simp only [isAlreadyDirty, Bool.or_eq_false_iff, Option.isSome_eq_false_iff,
    Option.isNone_iff_eq_none, beq_eq_false_iff_ne, ne_eq] at hp
  obtain ⟨⟨hnext, hhead⟩, htail⟩ := hp
  rcases hh : c.dirtyHead with _ | hd
  · -- an empty list: the entry becomes the head and the tail
    have hl : l = [] := IsList.none_left.1 (hh ▸ h.isList)
    subst hl
    dsimp only
    refine ⟨.cons (hnext ▸ .nil), rfl, by simp [h.num], by simpa using halloc⟩
  rcases ht : c.dirtyTail with _ | t
  · -- a list with a head has a tail
    obtain ⟨l', rfl⟩ : ∃ l', l = hd :: l' := by
      have hl := h.isList
      rw [hh] at hl
      cases hl
      exact ⟨_, rfl⟩
    have htl := h.tail
    rw [ht] at htl
    exact absurd (List.getLast?_eq_none_iff.1 htl.symm) (List.cons_ne_nil _ _)
  obtain ⟨l', rfl⟩ : ∃ l', l = l' ++ [t] :=
    ⟨l.dropLast, (List.dropLast_append_getLast? _ (h.tail.symm.trans ht)).symm⟩
  have hpt : p ≠ t := fun hpt => htail (hpt ▸ ht)
  have ht' : t ∉ l' := fun hmem =>
    (List.nodup_append.1 h.isList.nodup).2.2 t hmem t (List.mem_singleton_self t) rfl
  dsimp only
  refine ⟨?_, by simp, by simp [h.num], ?_⟩
  · rw [List.append_assoc, List.singleton_append]
    refine IsList.snoc (hh ▸ h.isList) ?_ ?_ ?_
    · obtain ⟨e, he⟩ := Option.isSome_iff_exists.1 (h.alloc t (by simp))
      simp [Mem.dirtyNext, he]
    · rw [Mem.dirtyNext, Mem.modify_entries_of_ne hpt]
      exact hnext
    · intro y hy
      rw [Mem.dirtyNext, Mem.dirtyNext, Mem.modify_entries_of_ne (ne_of_mem_of_not_mem hy ht')]
  · intro x hx
    rw [Mem.modify_entries]
    split
    · subst x
      simpa using h.alloc t (by simp)
    · rcases List.mem_append.1 hx with hx | hx
      · exact h.alloc x hx
      · rw [List.mem_singleton.1 hx]
        exact halloc

end DirtyList

theorem consumerCacheAddEntryToDirtyList_entries_of_ne {q : ℕ} (hq : c.dirtyTail ≠ some q) :
    (consumerCacheAddEntryToDirtyList c m p).2.entries q = m.entries q := by
  unfold consumerCacheAddEntryToDirtyList
  split
  · rfl
  · split
    · rename_i t _ ht
      exact Mem.modify_entries_of_ne fun hqt => hq (hqt ▸ ht)
    · rfl
    · rfl

theorem consumerCacheAddEntryToDirtyList_eq_some {q : ℕ} {e' : CacheEntry}
    (h : (consumerCacheAddEntryToDirtyList c m p).2.entries q = some e') :
    ∃ e, m.entries q = some e ∧ ∃ n, e' = { e with dirtyNext := n } := by
  revert h
  unfold consumerCacheAddEntryToDirtyList
  split
  · exact fun h => ⟨e', h, e'.dirtyNext, rfl⟩
  · split
    · intro h
      obtain ⟨e, he, ⟨-, rfl⟩ | ⟨-, rfl⟩⟩ := Mem.modify_eq_some h
      · exact ⟨e, he, _, rfl⟩
      · exact ⟨_, he, _, rfl⟩
    · exact fun h => ⟨e', h, e'.dirtyNext, rfl⟩
    · exact fun h => ⟨e', h, e'.dirtyNext, rfl⟩

@[simp] theorem consumerCacheAddEntryToDirtyList_nextAddr :
    (consumerCacheAddEntryToDirtyList c m p).2.nextAddr = m.nextAddr := by
  unfold consumerCacheAddEntryToDirtyList
  split
  · rfl
  · split <;> rfl

@[simp] theorem consumerCacheAddEntryToDirtyList_table :
    (consumerCacheAddEntryToDirtyList c m p).1.table = c.table := by
  unfold consumerCacheAddEntryToDirtyList
  split
  · rfl
  · split <;> rfl

/-- Clearing the list leaves every cell but the last linked to the next. -/
theorem DirtyList.clear_next {l₁ l₂ : List ℕ} {x y : ℕ} (h : DirtyList c m (l₁ ++ x :: y :: l₂)) :
    m.dirtyNext x = some y ∧ isAlreadyDirty (consumerCacheClearDirtyList c) m x = true := by
  have hnext : m.dirtyNext x = some y := h.isList.next_eq_head?
  exact ⟨hnext, by simp [isAlreadyDirty, hnext]⟩

end DirtyList

end Orrp.Engine
