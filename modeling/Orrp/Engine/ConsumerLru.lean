import Orrp.Engine.ConsumerCache
import Orrp.Lib.DList

/-!
# The consumer cache's LRU list, link by link (`engine/consumer/consumer_cache_internal.c`)

`ConsumerCache` keeps the LRU list as the list of its entries.  The source threads it through the
entries' `lru_next` and `lru_prev` fields, with `lru_head` and `lru_tail` in the cache; `LruCache`
is the cache so, and its operations make the source's writes one by one.

* `LruCache.Represents` — the links thread the LRU list of a `ConsumerCache` both ways, and the
  table and the count are the same; each operation on the links does what the list-level operation
  does (`represents_getEntry`, `represents_evictLru`, `represents_addEntry`);
* `ConsumerCache.LruInv` — the list holds exactly the table's entries, each under its own key, and
  `n_entries` counts them; the list-level operations keep it;
* `LruRun.represents` — every cache that `consumer_cache_init` and then gets, evictions and adds of
  new entries reach represents a list that keeps the invariant;
* `lruRemoveEntry_lruAddToHead` — an add the table refuses undoes its link writes.
-/

namespace Orrp.Engine

open Orrp.Lib

/-- `consumer_cache_t` with its LRU list as the source keeps it: `lru_head` and `lru_tail`, and the
`lru_next` and `lru_prev` fields of the entries by address.  The dirty list is left out: nothing
here reads it. -/
@[ext]
structure LruCache where
  table : String → Option ℕ
  nEntries : ℕ
  lruHead : Option ℕ
  lruTail : Option ℕ
  lruNext : ℕ → Option ℕ
  lruPrev : ℕ → Option ℕ

namespace LruCache

/-- `consumer_cache_init`: the table, the count and the ends of the list are reset; the links of
the entries are not the cache's. -/
def consumerCacheInit (c : LruCache) : LruCache :=
  { c with
    table := fun _ => none
    nEntries := 0
    lruHead := none
    lruTail := none }

/-- `_lru_move_to_front`.  Off the head the entry has a `prev`, and off the tail a `next`; the
source dereferences them, and where one is null the model leaves its write out. -/
def lruMoveToFront (c : LruCache) (p : ℕ) : LruCache :=
  if c.lruHead = some p then c
  else
    -- `entry->lru_prev->lru_next = entry->lru_next`
    let next := bypassLink c.lruNext c.lruPrev p
    -- the tail moves back, or `entry->lru_next->lru_prev = entry->lru_prev`
    let tail := if c.lruTail = some p then c.lruPrev p else c.lruTail
    let prev := if c.lruTail = some p then c.lruPrev else bypassLink c.lruPrev next p
    let links := linkFront next prev c.lruHead p
    { c with
      lruHead := some p
      lruTail := tail
      lruNext := links.1
      lruPrev := links.2 }

/-- `_lru_remove_entry`: the neighbours are linked to each other (`prev` side first), or the head
or the tail moves off the entry, and the entry's own links are cleared. -/
def lruRemoveEntry (c : LruCache) (p : ℕ) : LruCache :=
  let next := bypassLink c.lruNext c.lruPrev p
  let head := if c.lruPrev p = none then c.lruNext p else c.lruHead
  -- `entry->lru_next` is read after the first write
  let prev := bypassLink c.lruPrev next p
  let tail := if next p = none then c.lruPrev p else c.lruTail
  { c with
    lruHead := head
    lruTail := tail
    lruNext := Function.update next p none
    lruPrev := Function.update prev p none }

/-- `_lru_add_to_head`. -/
def lruAddToHead (c : LruCache) (p : ℕ) : LruCache :=
  let links := linkFront c.lruNext c.lruPrev c.lruHead p
  { c with
    lruHead := some p
    lruTail := if c.lruHead = none then some p else c.lruTail
    lruNext := links.1
    lruPrev := links.2 }

/-- `consumer_cache_get_entry`: the entry of a key, moved to the front if asked. -/
def consumerCacheGetEntry (c : LruCache) (serDbKey : String) (moveToFrontOfLru : Bool) :
    Option ℕ × LruCache :=
  match c.table serDbKey with
  | none => (none, c)
  | some p => (some p, if moveToFrontOfLru then c.lruMoveToFront p else c)

/-- `consumer_cache_evict_lru`: the tail leaves the table, then the list, unless it changed since
its last committed flush or the table does not hold its key. -/
def consumerCacheEvictLru (c : LruCache) (m : Mem) : Option ℕ × LruCache :=
  match c.lruTail with
  | none => (none, c)
  | some victim =>
    match m.entries victim with
    | none => (none, c)
    | some e =>
      if e.version ≠ e.flushVersion then (none, c)
      else if (c.table e.serDbKey).isNone then (none, c)
      else
        let c' := lruRemoveEntry { c with table := Function.update c.table e.serDbKey none } victim
        (some victim, { c' with nEntries := c.nEntries - 1 })

/-- `consumer_cache_add_entry`: the entry goes to the head, then into the table; when the table
refuses the key, the entry is taken off the list again. -/
def consumerCacheAddEntry (c : LruCache) (serDbKey : String) (p : ℕ) : Bool × LruCache :=
  let c' := c.lruAddToHead p
  if (c.table serDbKey).isSome then (false, c'.lruRemoveEntry p)
  else
    (true,
      { c' with
        table := Function.update c.table serDbKey (some p)
        nEntries := c.nEntries + 1 })

@[simp] theorem lruMoveToFront_table (c : LruCache) (p : ℕ) : (c.lruMoveToFront p).table = c.table := by
  unfold lruMoveToFront
  split <;> rfl

@[simp] theorem lruMoveToFront_nEntries (c : LruCache) (p : ℕ) :
    (c.lruMoveToFront p).nEntries = c.nEntries := by
  unfold lruMoveToFront
  split <;> rfl

@[simp] theorem lruRemoveEntry_table (c : LruCache) (p : ℕ) : (c.lruRemoveEntry p).table = c.table :=
  rfl

@[simp] theorem lruRemoveEntry_nEntries (c : LruCache) (p : ℕ) :
    (c.lruRemoveEntry p).nEntries = c.nEntries :=
  rfl

@[simp] theorem lruAddToHead_table (c : LruCache) (p : ℕ) : (c.lruAddToHead p).table = c.table :=
  rfl

@[simp] theorem lruAddToHead_nEntries (c : LruCache) (p : ℕ) :
    (c.lruAddToHead p).nEntries = c.nEntries :=
  rfl

end LruCache

/-! ## The writes on the links -/

section Links

variable {c : LruCache} {l : List ℕ} {p : ℕ}

/-- **`_lru_move_to_front`** of an entry of the list does to the links what `lruMoveToFront` does
to the list. -/
theorem lruMoveToFront_links (h : IsDList c.lruNext c.lruPrev c.lruHead c.lruTail l) (hp : p ∈ l) :
    IsDList (c.lruMoveToFront p).lruNext (c.lruMoveToFront p).lruPrev (c.lruMoveToFront p).lruHead
      (c.lruMoveToFront p).lruTail (lruMoveToFront l p) := by
  unfold LruCache.lruMoveToFront lruMoveToFront
  by_cases hhead : c.lruHead = some p
  · have hfirst : l.head? = some p := h.head_eq ▸ hhead
    rw [if_pos hhead, if_pos hfirst]
    exact h
  · have hfirst : l.head? ≠ some p := h.head_eq ▸ hhead
    rw [if_neg hhead, if_neg hfirst]
    have hprev : (if c.lruTail = some p then c.lruPrev
        else bypassLink c.lruPrev (bypassLink c.lruNext c.lruPrev p) p) =
        bypassLink c.lruPrev (bypassLink c.lruNext c.lruPrev p) p := by
      split_ifs with htail
      · rw [bypassLink_of_eq_none (by rw [h.bypassLink_self hp]; exact (h.next_eq_none_iff hp).2 htail)]
      · rfl
    have hunlinked := h.unlink hp
    rw [if_neg hhead] at hunlinked
    have hne : l.erase p ≠ [] := by
      cases l with
      | nil => cases hp
      | cons y l =>
        have hy : y ≠ p := fun hyp => hhead (by rw [h.head_eq, hyp]; rfl)
        exact List.ne_nil_of_mem ((List.mem_erase_of_ne hy).2 List.mem_cons_self)
    dsimp only
    rw [hprev]
    exact hunlinked.linkFront_of_ne_nil h.nodup.not_mem_erase hne

/-- **`_lru_remove_entry`** of an entry of the list takes it out of the links.  The source finds
the head by the entry's null `prev` and the tail by its null `next`. -/
theorem lruRemoveEntry_links (h : IsDList c.lruNext c.lruPrev c.lruHead c.lruTail l) (hp : p ∈ l) :
    IsDList (c.lruRemoveEntry p).lruNext (c.lruRemoveEntry p).lruPrev (c.lruRemoveEntry p).lruHead
      (c.lruRemoveEntry p).lruTail (l.erase p) := by
  have hunlinked := h.unlink hp
  dsimp only [LruCache.lruRemoveEntry]
  rw [h.bypassLink_self hp]
  simp only [h.prev_eq_none_iff hp, h.next_eq_none_iff hp]
  exact hunlinked.update_of_not_mem h.nodup.not_mem_erase none none

/-- **`_lru_add_to_head`** of an entry off the list links it in front. -/
theorem lruAddToHead_links (h : IsDList c.lruNext c.lruPrev c.lruHead c.lruTail l) (hp : p ∉ l) :
    IsDList (c.lruAddToHead p).lruNext (c.lruAddToHead p).lruPrev (c.lruAddToHead p).lruHead
      (c.lruAddToHead p).lruTail (p :: l) := by
  have htail : (if c.lruHead = none then some p else c.lruTail) = c.lruTail.or (some p) := by
    by_cases hnone : c.lruHead = none
    · rw [if_pos hnone, h.tail_eq_none_iff.2 hnone]
      rfl
    · rw [if_neg hnone, Option.or_of_isSome (Option.isSome_iff_ne_none.2 (mt h.tail_eq_none_iff.1 hnone))]
  dsimp only [LruCache.lruAddToHead]
  rw [htail]
  exact h.linkFront hp

/-- **A refused add undoes its writes.**  Linking an entry off the list in front and taking it out
again leaves every link as it was but the entry's own, which are cleared. -/
theorem lruRemoveEntry_lruAddToHead (h : IsDList c.lruNext c.lruPrev c.lruHead c.lruTail l)
    (hp : p ∉ l) :
    (c.lruAddToHead p).lruRemoveEntry p =
      { c with
        lruNext := Function.update c.lruNext p none
        lruPrev := Function.update c.lruPrev p none } := by
  have hprev : (c.lruAddToHead p).lruPrev p = none := (lruAddToHead_links h hp).prev_head rfl
  have hnext : (c.lruAddToHead p).lruNext p = c.lruHead := by
    simp [LruCache.lruAddToHead, linkFront]
  have hbypass : bypassLink (c.lruAddToHead p).lruNext (c.lruAddToHead p).lruPrev p =
      (c.lruAddToHead p).lruNext :=
    bypassLink_of_eq_none hprev
  apply LruCache.ext
  · rfl
  · rfl
  · show (if _ then _ else _) = c.lruHead
    rw [if_pos hprev, hnext]
  · show (if bypassLink _ _ p p = none then _ else _) = c.lruTail
    rw [hbypass, hnext, hprev]
    show (if c.lruHead = none then none else if c.lruHead = none then some p else c.lruTail) = c.lruTail
    split_ifs with hnone
    · exact (h.tail_eq_none_iff.2 hnone).symm
    · rfl
  · show Function.update (bypassLink _ _ p) p none = _
    rw [hbypass]
    simp [LruCache.lruAddToHead, linkFront]
  · show Function.update (bypassLink _ (bypassLink _ _ p) p) p none = _
    rw [hbypass]
    unfold bypassLink
    rw [hnext]
    rcases hhead : c.lruHead with _ | x
    · simp [LruCache.lruAddToHead, linkFront, hhead]
    · -- the old head linked back to null before the add, and does so again
      have hx : c.lruPrev x = none := h.prev_head hhead
      have hxp : x ≠ p := fun hxp => hp (hxp ▸ List.mem_of_mem_head? (h.head_eq ▸ hhead))
      funext y
      simp only [LruCache.lruAddToHead, linkFront, hhead, Function.update_apply]
      by_cases hyp : y = p
      · simp [hyp]
      · by_cases hyx : y = x
        · simp [hyx, hxp, Ne.symm hxp, hx]
        · simp [hyp, hyx]

end Links

/-! ## The links represent the list -/

/-- The links of `c` thread the LRU list of the list-level cache `a` both ways, and the two have
the same table and count. -/
structure LruCache.Represents (c : LruCache) (a : ConsumerCache) : Prop where
  table : c.table = a.table
  nEntries : c.nEntries = a.nEntries
  links : IsDList c.lruNext c.lruPrev c.lruHead c.lruTail a.lru

section Represents

variable {c : LruCache} {a : ConsumerCache}

/-- **`consumer_cache_init`** leaves no list. -/
theorem represents_init (c : LruCache) : c.consumerCacheInit.Represents consumerCacheInit :=
  ⟨rfl, rfl, .nil⟩

/-- **`consumer_cache_get_entry`**, from a table whose entries are on the list, finds what the
list-level get finds and moves the same entry. -/
theorem represents_getEntry (h : c.Represents a) (hmem : ∀ k p, a.table k = some p → p ∈ a.lru)
    (serDbKey : String) (moveToFrontOfLru : Bool) :
    (c.consumerCacheGetEntry serDbKey moveToFrontOfLru).1 =
        (consumerCacheGetEntry a serDbKey moveToFrontOfLru).1 ∧
      (c.consumerCacheGetEntry serDbKey moveToFrontOfLru).2.Represents
        (consumerCacheGetEntry a serDbKey moveToFrontOfLru).2 := by
  unfold LruCache.consumerCacheGetEntry consumerCacheGetEntry
  rw [h.table]
  cases hk : a.table serDbKey with
  | none => exact ⟨rfl, h⟩
  | some p =>
    refine ⟨rfl, ?_⟩
    cases moveToFrontOfLru with
    | false => exact h
    | true =>
      show (c.lruMoveToFront p).Represents { a with lru := lruMoveToFront a.lru p }
      exact ⟨by rw [LruCache.lruMoveToFront_table, h.table],
        by rw [LruCache.lruMoveToFront_nEntries, h.nEntries],
        lruMoveToFront_links h.links (hmem serDbKey p hk)⟩

/-- **`consumer_cache_evict_lru`** takes the tail, the list's last entry, under the same checks,
and the links lose it. -/
theorem represents_evictLru (h : c.Represents a) (m : Mem) :
    (c.consumerCacheEvictLru m).1 = (consumerCacheEvictLru a m).1 ∧
      (c.consumerCacheEvictLru m).2.Represents (consumerCacheEvictLru a m).2 := by
  obtain ⟨table, n, head, tail, next, prev⟩ := c
  obtain ⟨rfl, rfl, hl⟩ := h
  have htail := hl.tail_eq
  subst htail
  unfold LruCache.consumerCacheEvictLru consumerCacheEvictLru
  dsimp only
  cases hv : a.lru.getLast? with
  | none =>
    rw [hv] at hl
    exact ⟨rfl, rfl, rfl, hl⟩
  | some victim =>
    have hl' : IsDList next prev head (some victim) a.lru := hv ▸ hl
    dsimp only
    cases he : m.entries victim with
    | none => exact ⟨rfl, rfl, rfl, hl'⟩
    | some e =>
      dsimp only
      by_cases hver : e.version ≠ e.flushVersion
      · rw [if_pos hver, if_pos hver]
        exact ⟨rfl, rfl, rfl, hl'⟩
      · rw [if_neg hver, if_neg hver]
        by_cases hkey : (a.table e.serDbKey).isNone
        · rw [if_pos hkey, if_pos hkey]
          exact ⟨rfl, rfl, rfl, hl'⟩
        · rw [if_neg hkey, if_neg hkey]
          refine ⟨rfl, rfl, rfl, ?_⟩
          have hout := lruRemoveEntry_links
            (c := ⟨Function.update a.table e.serDbKey none, a.nEntries, head, some victim, next, prev⟩)
            hl' (List.mem_of_getLast? hv)
          rwa [hl'.erase_tail rfl] at hout

/-- **`consumer_cache_add_entry`** of an entry off the list puts it at the head of the links, or,
when the table refuses the key, leaves them threading the same list. -/
theorem represents_addEntry (h : c.Represents a) {p : ℕ} (hp : p ∉ a.lru) (serDbKey : String) :
    (c.consumerCacheAddEntry serDbKey p).1 = (consumerCacheAddEntry a serDbKey p).1 ∧
      (c.consumerCacheAddEntry serDbKey p).2.Represents (consumerCacheAddEntry a serDbKey p).2 := by
  have hfront := lruAddToHead_links h.links hp
  unfold LruCache.consumerCacheAddEntry consumerCacheAddEntry
  rw [h.table]
  by_cases hk : (a.table serDbKey).isSome
  · rw [if_pos hk, if_pos hk]
    have hback := lruRemoveEntry_links hfront List.mem_cons_self
    rw [List.erase_cons_head] at hback
    exact ⟨rfl, by simp [h.table], by simp [h.nEntries], hback⟩
  · rw [if_neg hk, if_neg hk]
    exact ⟨rfl, rfl, by simp [h.nEntries], hfront⟩

end Represents

/-! ## The list-level invariant -/

/-- The LRU list holds the entries of the table, each once, each the entry of its own key in the
heap `m`, and `n_entries` counts them. -/
structure ConsumerCache.LruInv (a : ConsumerCache) (m : Mem) : Prop where
  nodup : a.lru.Nodup
  table : ∀ p, p ∈ a.lru ↔ ∃ k, a.table k = some p
  keys : ∀ k p, a.table k = some p → ∃ e, m.entries p = some e ∧ e.serDbKey = k
  nEntries : a.nEntries = a.lru.length

theorem lruInv_init (m : Mem) : consumerCacheInit.LruInv m :=
  ⟨List.nodup_nil, fun _ => by simp [consumerCacheInit], fun _ _ h => (by cases h), rfl⟩

theorem lruMoveToFront_perm {l : List ℕ} {p : ℕ} (hp : p ∈ l) : (lruMoveToFront l p).Perm l := by
  unfold lruMoveToFront
  split
  · exact List.Perm.refl l
  · exact (List.perm_cons_erase hp).symm

namespace ConsumerCache.LruInv

variable {a : ConsumerCache} {m : Mem}

theorem mem_of_table (h : a.LruInv m) {k : String} {p : ℕ} (hk : a.table k = some p) : p ∈ a.lru :=
  (h.table p).2 ⟨k, hk⟩

theorem table_eq (h : a.LruInv m) {k : String} {p : ℕ} {e : CacheEntry} (hk : a.table k = some p)
    (he : m.entries p = some e) : e.serDbKey = k := by
  obtain ⟨e', he', hkey⟩ := h.keys k p hk
  rw [he] at he'
  cases he'
  exact hkey

/-- **No key twice.**  The entries of the list have distinct keys. -/
theorem nodup_keys (h : a.LruInv m) :
    (a.lru.map fun p => (m.entries p).map CacheEntry.serDbKey).Nodup := by
  refine h.nodup.map_on fun p hp q hq hpq => ?_
  obtain ⟨k, hk⟩ := (h.table p).1 hp
  obtain ⟨k', hk'⟩ := (h.table q).1 hq
  obtain ⟨e, he, rfl⟩ := h.keys k p hk
  obtain ⟨e', he', rfl⟩ := h.keys k' q hk'
  rw [he, he', Option.map_some, Option.map_some, Option.some.injEq] at hpq
  rw [hpq] at hk
  exact Option.some.inj (hk.symm.trans hk')

theorem perm (h : a.LruInv m) {l : List ℕ} (hl : l.Perm a.lru) : { a with lru := l }.LruInv m :=
  ⟨hl.nodup_iff.2 h.nodup, fun p => hl.mem_iff.trans (h.table p), h.keys,
    h.nEntries.trans hl.length_eq.symm⟩

/-- **`consumer_cache_get_entry`** keeps the invariant. -/
theorem getEntry (h : a.LruInv m) (serDbKey : String) (moveToFrontOfLru : Bool) :
    (consumerCacheGetEntry a serDbKey moveToFrontOfLru).2.LruInv m := by
  unfold consumerCacheGetEntry
  cases hk : a.table serDbKey with
  | none => exact h
  | some p =>
    cases moveToFrontOfLru with
    | false => exact h
    | true => exact h.perm (lruMoveToFront_perm (h.mem_of_table hk))

theorem remove (h : a.LruInv m) {k : String} {v : ℕ} (hk : a.table k = some v) :
    { a with
      table := Function.update a.table k none
      lru := a.lru.erase v
      nEntries := a.nEntries - 1 }.LruInv m := by
  have hunique : ∀ k', a.table k' = some v → k' = k := fun k' hk' => by
    obtain ⟨e, he, rfl⟩ := h.keys k' v hk'
    exact h.table_eq hk he
  refine ⟨h.nodup.erase v, fun q => ?_, fun k' q hq => ?_, ?_⟩
  · show q ∈ a.lru.erase v ↔ ∃ k', Function.update a.table k none k' = some q
    rw [h.nodup.mem_erase_iff, h.table q]
    constructor
    · rintro ⟨hqv, k', hk'⟩
      have hne : k' ≠ k := fun hkk => hqv (Option.some.inj (hk'.symm.trans (hkk ▸ hk)))
      exact ⟨k', by rw [Function.update_of_ne hne]; exact hk'⟩
    · rintro ⟨k', hk'⟩
      have hne : k' ≠ k := fun hkk => by rw [hkk, Function.update_self] at hk'; cases hk'
      rw [Function.update_of_ne hne] at hk'
      exact ⟨fun hqv => hne (hunique k' (hqv ▸ hk')), k', hk'⟩
  · dsimp only at hq
    have hne : k' ≠ k := fun hkk => by rw [hkk, Function.update_self] at hq; cases hq
    rw [Function.update_of_ne hne] at hq
    exact h.keys k' q hq
  · show a.nEntries - 1 = (a.lru.erase v).length
    rw [List.length_erase_of_mem (h.mem_of_table hk), h.nEntries]

theorem insert (h : a.LruInv m) {k : String} (hk : a.table k = none) {p : ℕ}
    (hp : ∀ k', a.table k' ≠ some p) {e : CacheEntry} (he : m.entries p = some e)
    (hkey : e.serDbKey = k) :
    { a with
      table := Function.update a.table k (some p)
      nEntries := a.nEntries + 1
      lru := p :: a.lru }.LruInv m := by
  have hpl : p ∉ a.lru := fun hpl => by
    obtain ⟨k', hk'⟩ := (h.table p).1 hpl
    exact hp k' hk'
  refine ⟨List.nodup_cons.2 ⟨hpl, h.nodup⟩, fun q => ?_, fun k' q hq => ?_, ?_⟩
  · show q ∈ p :: a.lru ↔ ∃ k', Function.update a.table k (some p) k' = some q
    rw [List.mem_cons, h.table q]
    constructor
    · rintro (rfl | ⟨k', hk'⟩)
      · exact ⟨k, Function.update_self _ _ _⟩
      · -- the new key held nothing
        have hne : k' ≠ k := fun hkk => by rw [hkk, hk] at hk'; cases hk'
        exact ⟨k', by rw [Function.update_of_ne hne]; exact hk'⟩
    · rintro ⟨k', hk'⟩
      by_cases hkk : k' = k
      · rw [hkk, Function.update_self] at hk'
        exact .inl (Option.some.inj hk').symm
      · rw [Function.update_of_ne hkk] at hk'
        exact .inr ⟨k', hk'⟩
  · dsimp only at hq
    by_cases hkk : k' = k
    · rw [hkk, Function.update_self] at hq
      cases hq
      exact ⟨e, he, hkey.trans hkk.symm⟩
    · rw [Function.update_of_ne hkk] at hq
      exact h.keys k' q hq
  · show a.nEntries + 1 = (p :: a.lru).length
    rw [List.length_cons, h.nEntries]

/-- **`consumer_cache_evict_lru`** keeps the invariant: the victim, the last entry, is the one the
table holds under the victim's key. -/
theorem evictLru (h : a.LruInv m) : (consumerCacheEvictLru a m).2.LruInv m := by
  unfold consumerCacheEvictLru
  cases hv : a.lru.getLast? with
  | none => exact h
  | some victim =>
    dsimp only
    cases he : m.entries victim with
    | none => exact h
    | some e =>
      dsimp only
      split_ifs with hver hkey
      · exact h
      · exact h
      · obtain ⟨k, hk⟩ := (h.table victim).1 (List.mem_of_getLast? hv)
        have hvictim : a.table e.serDbKey = some victim := by rw [h.table_eq hk he]; exact hk
        have hremove := h.remove hvictim
        rwa [erase_eq_dropLast h.nodup hv] at hremove

/-- **`consumer_cache_add_entry`** of an entry not in the cache, created for its key, keeps the
invariant. -/
theorem addEntry (h : a.LruInv m) {p : ℕ} (hp : ∀ k, a.table k ≠ some p) {e : CacheEntry}
    (he : m.entries p = some e) {serDbKey : String} (hkey : e.serDbKey = serDbKey) :
    (consumerCacheAddEntry a serDbKey p).2.LruInv m := by
  unfold consumerCacheAddEntry
  split_ifs with hk
  · exact h
  · exact h.insert (Option.not_isSome_iff_eq_none.1 hk) hp he hkey

end ConsumerCache.LruInv

/-! ## Runs -/

/-- A call on the cache. -/
inductive LruOp
  | getEntry (serDbKey : String) (moveToFrontOfLru : Bool)
  | evictLru
  | addEntry (serDbKey : String) (p : ℕ)

namespace LruOp

/-- The cache after a call, on the links. -/
def apply (m : Mem) (c : LruCache) : LruOp → LruCache
  | .getEntry serDbKey moveToFrontOfLru => (c.consumerCacheGetEntry serDbKey moveToFrontOfLru).2
  | .evictLru => (c.consumerCacheEvictLru m).2
  | .addEntry serDbKey p => (c.consumerCacheAddEntry serDbKey p).2

/-- The cache after a call, on the list. -/
def applyList (m : Mem) (a : ConsumerCache) : LruOp → ConsumerCache
  | .getEntry serDbKey moveToFrontOfLru => (consumerCacheGetEntry a serDbKey moveToFrontOfLru).2
  | .evictLru => (consumerCacheEvictLru a m).2
  | .addEntry serDbKey p => (consumerCacheAddEntry a serDbKey p).2

/-- The calls the consumer makes: an add is of an entry not in the cache, created for its key
(`_get_or_Create_cache_entry`). -/
def Allowed (m : Mem) (c : LruCache) : LruOp → Prop
  | .addEntry serDbKey p => (∀ k, c.table k ≠ some p) ∧ ∃ e, m.entries p = some e ∧ e.serDbKey = serDbKey
  | _ => True

theorem represents {m : Mem} {c : LruCache} {a : ConsumerCache} (h : c.Represents a) (hinv : a.LruInv m) :
    ∀ op : LruOp, op.Allowed m c → (op.apply m c).Represents (op.applyList m a) ∧ (op.applyList m a).LruInv m
  | .getEntry serDbKey moveToFrontOfLru, _ =>
    ⟨(represents_getEntry h (fun _ _ hk => hinv.mem_of_table hk) serDbKey moveToFrontOfLru).2,
      hinv.getEntry serDbKey moveToFrontOfLru⟩
  | .evictLru, _ => ⟨(represents_evictLru h m).2, hinv.evictLru⟩
  | .addEntry serDbKey p, ⟨hp, e, he, hkey⟩ => by
    have hp' : ∀ k, a.table k ≠ some p := fun k => h.table ▸ hp k
    have hpl : p ∉ a.lru := fun hpl => by
      obtain ⟨k, hk⟩ := (hinv.table p).1 hpl
      exact hp' k hk
    exact ⟨(represents_addEntry h hpl serDbKey).2, hinv.addEntry hp' he hkey⟩

end LruOp

/-- The caches over the heap `m` that `consumer_cache_init` and then any sequence of allowed calls
reach. -/
inductive LruRun (m : Mem) : LruCache → Prop
  | init (c : LruCache) : LruRun m c.consumerCacheInit
  | step {c : LruCache} (op : LruOp) : LruRun m c → op.Allowed m c → LruRun m (op.apply m c)

/-- **Runs.**  Every cache a run reaches represents a list that keeps the invariant; induction on
the run. -/
theorem LruRun.represents {m : Mem} {c : LruCache} (h : LruRun m c) :
    ∃ a : ConsumerCache, c.Represents a ∧ a.LruInv m := by
  induction h with
  | init c => exact ⟨consumerCacheInit, represents_init c, lruInv_init m⟩
  | step op _ hop ih =>
    obtain ⟨a, hr, hinv⟩ := ih
    exact ⟨op.applyList m a, LruOp.represents hr hinv op hop⟩

/-- **The LRU list over every run.**  Every cache that `consumer_cache_init` and any sequence of
gets, evictions and adds of new entries reach is linked both ways, from the head and from the tail
to null, through exactly the entries of the table, no key twice, and `n_entries` counts them.  An
eviction never takes an entry with a change not yet flushed, and an add the table refuses leaves
every link but the new entry's own as it was. -/
theorem consumerCache_lruRun :
    (∀ {m : Mem} {c : LruCache}, LruRun m c →
      ∃ l : List ℕ, IsDList c.lruNext c.lruPrev c.lruHead c.lruTail l ∧
        (∀ p, p ∈ l ↔ ∃ k, c.table k = some p) ∧
        (l.map fun p => (m.entries p).map CacheEntry.serDbKey).Nodup ∧ c.nEntries = l.length) ∧
    (∀ {m : Mem} {c : LruCache} {v : ℕ}, (c.consumerCacheEvictLru m).1 = some v →
      ∃ e, m.entries v = some e ∧ e.version = e.flushVersion) ∧
    ∀ {m : Mem} {c : LruCache} {serDbKey : String} {p : ℕ}, LruRun m c → (∀ k, c.table k ≠ some p) →
      (c.consumerCacheAddEntry serDbKey p).1 = false →
      (c.consumerCacheAddEntry serDbKey p).2 =
        { c with
          lruNext := Function.update c.lruNext p none
          lruPrev := Function.update c.lruPrev p none } := by
  refine ⟨fun hrun => ?_, fun {m c v} hv => ?_, fun {m c serDbKey p} hrun hp hfail => ?_⟩
  · obtain ⟨a, hr, hinv⟩ := hrun.represents
    refine ⟨a.lru, hr.links, fun p => ?_, hinv.nodup_keys, hr.nEntries.trans hinv.nEntries⟩
    rw [hr.table]
    exact hinv.table p
  · -- every branch but the last returns null
    unfold LruCache.consumerCacheEvictLru at hv
    cases ht : c.lruTail with
    | none =>
      rw [ht] at hv
      cases hv
    | some victim =>
      rw [ht] at hv
      dsimp only at hv
      cases he : m.entries victim with
      | none =>
        rw [he] at hv
        cases hv
      | some e =>
        rw [he] at hv
        dsimp only at hv
        split_ifs at hv with hver
        obtain rfl : victim = v := Option.some.inj hv
        exact ⟨e, he, not_not.1 hver⟩
  · obtain ⟨a, hr, hinv⟩ := hrun.represents
    have hpl : p ∉ a.lru := fun hpl => by
      obtain ⟨k, hk⟩ := (hinv.table p).1 hpl
      exact hp k (hr.table ▸ hk)
    unfold LruCache.consumerCacheAddEntry at hfail ⊢
    split_ifs at hfail ⊢
    exact lruRemoveEntry_lruAddToHead hr.links hpl

theorem consumerCache_lruRun_refused :
    LruRun (Mem.empty.alloc ⟨none, ∅, 0, 0, ⟨"c", .usr .invertedEventIndex, none, .str "a:x"⟩, "c|0|a:x"⟩).2
        ((⟨fun _ => none, 0, none, none, fun _ => none, fun _ => none⟩ : LruCache).consumerCacheInit.consumerCacheAddEntry
          "c|0|a:x" 0).2 ∧
    (∀ k, ((⟨fun _ => none, 0, none, none, fun _ => none, fun _ => none⟩ : LruCache).consumerCacheInit.consumerCacheAddEntry
          "c|0|a:x" 0).2.table k ≠ some 1) ∧
    (((⟨fun _ => none, 0, none, none, fun _ => none, fun _ => none⟩ : LruCache).consumerCacheInit.consumerCacheAddEntry
          "c|0|a:x" 0).2.consumerCacheAddEntry "c|0|a:x" 1).1 = false ∧
    (((⟨fun _ => none, 0, none, none, fun _ => none, fun _ => none⟩ : LruCache).consumerCacheInit.consumerCacheAddEntry
          "c|0|a:x" 0).2.consumerCacheAddEntry "c|0|a:x" 1).2 =
      { ((⟨fun _ => none, 0, none, none, fun _ => none, fun _ => none⟩ : LruCache).consumerCacheInit.consumerCacheAddEntry
          "c|0|a:x" 0).2 with
        lruNext := Function.update (((⟨fun _ => none, 0, none, none, fun _ => none, fun _ => none⟩ :
          LruCache).consumerCacheInit.consumerCacheAddEntry "c|0|a:x" 0).2.lruNext) 1 none
        lruPrev := Function.update (((⟨fun _ => none, 0, none, none, fun _ => none, fun _ => none⟩ :
          LruCache).consumerCacheInit.consumerCacheAddEntry "c|0|a:x" 0).2.lruPrev) 1 none } := by
  have hrun : LruRun (Mem.empty.alloc ⟨none, ∅, 0, 0, ⟨"c", .usr .invertedEventIndex, none, .str "a:x"⟩,
      "c|0|a:x"⟩).2 ((⟨fun _ => none, 0, none, none, fun _ => none, fun _ => none⟩ :
        LruCache).consumerCacheInit.consumerCacheAddEntry "c|0|a:x" 0).2 :=
    .step (.addEntry "c|0|a:x" 0) (.init _) ⟨fun _ => by simp [LruCache.consumerCacheInit], _, rfl, rfl⟩
  have hfresh : ∀ k, ((⟨fun _ => none, 0, none, none, fun _ => none, fun _ => none⟩ :
      LruCache).consumerCacheInit.consumerCacheAddEntry "c|0|a:x" 0).2.table k ≠ some 1 := fun k => by
    simp [LruCache.consumerCacheAddEntry, LruCache.consumerCacheInit, Function.update_apply]
  have hfail : (((⟨fun _ => none, 0, none, none, fun _ => none, fun _ => none⟩ :
      LruCache).consumerCacheInit.consumerCacheAddEntry "c|0|a:x" 0).2.consumerCacheAddEntry "c|0|a:x" 1).1 =
        false := by
    simp [LruCache.consumerCacheAddEntry, LruCache.consumerCacheInit]
  exact ⟨hrun, hfresh, hfail, consumerCache_lruRun.2.2 hrun hfresh hfail⟩

end Orrp.Engine
