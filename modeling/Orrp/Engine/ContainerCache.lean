import Orrp.Lib.DList

/-!
# The container cache (`engine/container/container_cache.c`)

The open user containers are kept in a cache: a hash table from a container's name to its node,
and a list of the nodes threaded through their `next` and `prev` links, most recently used first.
A cache is well formed (`ContainerCache.WellFormed`) when the links make a doubly linked list of
exactly the nodes of the table, and `size` is its length.

`container_cache_move_to_front` unlinks the node and links it in front of the head.  When the node
is the head already, the unlinking leaves the head where it is, and linking the node in front of
itself makes it its own `next` and `prev`.  `container_get_user` checks for the head only before it
gives up its read lock for the write lock, so another thread may make the node the head between
the check and the move.

* `containerCachePut_wellFormed`, `containerCacheMoveToFront_wellFormed`,
  `containerCacheRemove_wellFormed` — each operation keeps the cache well formed, a move of a node
  other than the head taking it to the front and keeping the order of the others;
* `CacheRun.wellFormed` — so does every run of them whose moves are of nodes other than the head;
* `containerCacheMoveToFront_head` — a move of the head links it to itself.
-/

namespace Orrp.Engine

open Orrp.Lib

/-- `container_cache_t`, with the `next` and `prev` links of its nodes.  A node is an address, and
its container is known by its name, the key of the node in the table. -/
structure ContainerCache where
  nodes : String → Option ℕ
  head : Option ℕ
  tail : Option ℕ
  size : ℕ
  next : ℕ → Option ℕ
  prev : ℕ → Option ℕ

/-- `container_cache_create`: an empty cache. -/
def containerCacheCreate : ContainerCache :=
  ⟨fun _ => none, none, none, 0, fun _ => none, fun _ => none⟩

/-- `container_cache_get`. -/
def containerCacheGet (c : ContainerCache) (name : String) : Option ℕ := c.nodes name

/-- `container_cache_put` of the node `p` of the container `name`: in front of the head, the tail
too of an empty cache, and into the table. -/
def containerCachePut (c : ContainerCache) (p : ℕ) (name : String) : ContainerCache :=
  let links := linkFront c.next c.prev c.head p
  { nodes := Function.update c.nodes name (some p)
    head := some p
    tail := c.tail.or (some p)
    size := c.size + 1
    next := links.1
    prev := links.2 }

/-- `container_cache_move_to_front`: the node's neighbours are linked to each other (`prev` side
first), the tail moves back if it was the node, and the node is linked in front of the head. -/
def containerCacheMoveToFront (c : ContainerCache) (p : ℕ) : ContainerCache :=
  -- `if (node->prev) node->prev->next = node->next`
  let next := bypassLink c.next c.prev p
  -- `if (node->next) node->next->prev = node->prev`, reading the link just written
  let prev := bypassLink c.prev next p
  let tail := if c.tail = some p then prev p else c.tail
  let links := linkFront next prev c.head p
  { c with
    head := some p
    tail := tail.or (some p)
    next := links.1
    prev := links.2 }

/-- `container_cache_remove`: the node's neighbours are linked to each other (`next` side first),
the head and the tail move off it, and it leaves the table with its links cleared. -/
def containerCacheRemove (c : ContainerCache) (p : ℕ) : ContainerCache :=
  -- `if (node->next) node->next->prev = node->prev`
  let prev := bypassLink c.prev c.next p
  -- `if (node->prev) node->prev->next = node->next`, reading the link just written
  let next := bypassLink c.next prev p
  { nodes := fun k => if c.nodes k = some p then none else c.nodes k
    head := if c.head = some p then next p else c.head
    tail := if c.tail = some p then prev p else c.tail
    size := c.size - 1
    next := Function.update next p none
    prev := Function.update prev p none }

/-- The cache holds the nodes `l`, in LRU order: they are linked both ways from the head and the
tail, they are the nodes of the table, each under one name, and `size` counts them. -/
structure ContainerCache.WellFormed (c : ContainerCache) (l : List ℕ) : Prop where
  links : IsDList c.next c.prev c.head c.tail l
  table : ∀ p, p ∈ l ↔ ∃ name, c.nodes name = some p
  unique : ∀ n₁ n₂ p, c.nodes n₁ = some p → c.nodes n₂ = some p → n₁ = n₂
  size : c.size = l.length

theorem containerCacheCreate_wellFormed : containerCacheCreate.WellFormed [] :=
  ⟨.nil, fun _ => by simp [containerCacheCreate], fun _ _ _ h => (by cases h), rfl⟩

/-! ## One operation -/

section Step

variable {c : ContainerCache} {l : List ℕ} {p : ℕ}

/-- **`container_cache_put`** of a node not in the cache, under a name not in the table, puts it
at the head. -/
theorem containerCachePut_wellFormed (h : c.WellFormed l) (hp : p ∉ l) {name : String}
    (hname : c.nodes name = none) : (containerCachePut c p name).WellFormed (p :: l) where
  links := h.links.linkFront hp
  table q := by
    simp only [containerCachePut, List.mem_cons, h.table q, Function.update_apply]
    constructor
    · rintro (rfl | ⟨n, hn⟩)
      · exact ⟨name, by simp⟩
      · -- the new name held no node
        refine ⟨n, ?_⟩
        rw [if_neg fun hnn => by rw [hnn, hname] at hn; cases hn]
        exact hn
    · rintro ⟨n, hn⟩
      by_cases hnn : n = name
      · rw [if_pos hnn] at hn
        exact .inl (Option.some.inj hn).symm
      · rw [if_neg hnn] at hn
        exact .inr ⟨n, hn⟩
  unique n₁ n₂ q h₁ h₂ := by
    simp only [containerCachePut, Function.update_apply] at h₁ h₂
    have hold : ∀ n, n ≠ name → c.nodes n = some q → q ≠ p := fun n _ hn hqp =>
      hp (hqp ▸ (h.table q).2 ⟨n, hn⟩)
    split_ifs at h₁ h₂ with e₁ e₂ e₂
    · rw [e₁, e₂]
    · exact absurd (Option.some.inj h₁).symm (hold n₂ e₂ h₂)
    · exact absurd (Option.some.inj h₂).symm (hold n₁ e₁ h₁)
    · exact h.unique n₁ n₂ q h₁ h₂
  size := by simp [containerCachePut, h.size]

/-- **`container_cache_move_to_front`** of a node of the cache other than the head puts it at the
head and keeps the order of the others. -/
theorem containerCacheMoveToFront_wellFormed (h : c.WellFormed l) (hp : p ∈ l) (hhead : c.head ≠ some p) :
    (containerCacheMoveToFront c p).WellFormed (p :: l.erase p) where
  links := by
    have hunlinked := h.links.unlink hp
    rw [if_neg hhead] at hunlinked
    have hprev : bypassLink c.prev (bypassLink c.next c.prev p) p p = c.prev p := by
      rw [bypassLink_congr (h.links.bypassLink_self hp),
        h.links.reverse.bypassLink_self (List.mem_reverse.2 hp)]
    dsimp only [containerCacheMoveToFront]
    rw [hprev]
    exact hunlinked.linkFront h.links.nodup.not_mem_erase
  table q := by
    show q ∈ p :: l.erase p ↔ ∃ name, c.nodes name = some q
    rw [← h.table q, List.mem_cons, h.links.nodup.mem_erase_iff]
    constructor
    · rintro (rfl | ⟨-, hq⟩)
      · exact hp
      · exact hq
    · intro hq
      by_cases hqp : q = p
      · exact .inl hqp
      · exact .inr ⟨hqp, hq⟩
  unique := h.unique
  size := by
    show c.size = (p :: l.erase p).length
    rw [List.length_cons, List.length_erase_of_mem hp, h.size]
    have := List.length_pos_of_mem hp
    omega

/-- **`container_cache_remove`** of a node of the cache takes it out of the list and the table. -/
theorem containerCacheRemove_wellFormed (h : c.WellFormed l) (hp : p ∈ l) :
    (containerCacheRemove c p).WellFormed (l.erase p) where
  links := by
    have hprev : bypassLink c.prev c.next p p = c.prev p :=
      h.links.reverse.bypassLink_self (List.mem_reverse.2 hp)
    have hread : bypassLink c.next (bypassLink c.prev c.next p) p = bypassLink c.next c.prev p :=
      bypassLink_congr hprev
    have hunlinked := h.links.bypassLink_erase hp
    rw [← hread, ← h.links.bypassLink_self hp, ← hread, ← hprev] at hunlinked
    exact hunlinked.update_of_not_mem h.links.nodup.not_mem_erase none none
  table q := by
    simp only [containerCacheRemove, h.links.nodup.mem_erase_iff, h.table q]
    constructor
    · rintro ⟨hqp, n, hn⟩
      exact ⟨n, by rw [if_neg (by rw [hn]; exact fun e => hqp (Option.some.inj e)), hn]⟩
    · rintro ⟨n, hn⟩
      split_ifs at hn with hnp
      exact ⟨fun hqp => hnp (hqp ▸ hn), n, hn⟩
  unique n₁ n₂ q h₁ h₂ := by
    simp only [containerCacheRemove] at h₁ h₂
    split_ifs at h₁ h₂
    exact h.unique n₁ n₂ q h₁ h₂
  size := by
    simp only [containerCacheRemove, List.length_erase_of_mem hp, h.size]

/-- **A move of the head** links it to itself: after it no list is linked. -/
theorem containerCacheMoveToFront_head_next (h : c.WellFormed l) (hhead : c.head = some p) :
    (containerCacheMoveToFront c p).next p = some p := by
  have hnone : c.prev p = none := h.links.prev_head hhead
  simp [containerCacheMoveToFront, linkFront, hhead]

end Step

/-! ## Runs -/

/-- A call on the cache. -/
inductive CacheOp
  | put (p : ℕ) (name : String)
  | moveToFront (p : ℕ)
  | remove (p : ℕ)

/-- The cache after a call. -/
def CacheOp.apply (c : ContainerCache) : CacheOp → ContainerCache
  | .put p name => containerCachePut c p name
  | .moveToFront p => containerCacheMoveToFront c p
  | .remove p => containerCacheRemove c p

/-- What a call is meant to make of the LRU order. -/
def CacheOp.lru (l : List ℕ) : CacheOp → List ℕ
  | .put p _ => p :: l
  | .moveToFront p => p :: l.erase p
  | .remove p => l.erase p

/-- The calls the cache is given: a put of a node not in the cache under a name not in the table,
a move of a node of the cache other than the head, a remove of a node of the cache. -/
def CacheOp.Allowed (c : ContainerCache) : CacheOp → Prop
  | .put p name => (∀ n, c.nodes n ≠ some p) ∧ c.nodes name = none
  | .moveToFront p => (∃ n, c.nodes n = some p) ∧ c.head ≠ some p
  | .remove p => ∃ n, c.nodes n = some p

/-- The caches a run of allowed calls reaches from an empty one, with the LRU order the calls are
meant to make. -/
inductive CacheRun : ContainerCache → List ℕ → Prop
  | create : CacheRun containerCacheCreate []
  | step {c : ContainerCache} {l : List ℕ} (op : CacheOp) :
      CacheRun c l → op.Allowed c → CacheRun (op.apply c) (op.lru l)

theorem CacheOp.wellFormed {c : ContainerCache} {l : List ℕ} (h : c.WellFormed l) :
    ∀ op : CacheOp, op.Allowed c → (op.apply c).WellFormed (op.lru l)
  | .put p name, ⟨hp, hname⟩ =>
    containerCachePut_wellFormed h (fun hpl => by
      obtain ⟨n, hn⟩ := (h.table p).1 hpl
      exact hp n hn) hname
  | .moveToFront p, ⟨hp, hhead⟩ => containerCacheMoveToFront_wellFormed h ((h.table p).2 hp) hhead
  | .remove p, hp => containerCacheRemove_wellFormed h ((h.table p).2 hp)

/-- **Runs.**  Every cache a run of allowed calls reaches is well formed, in the order the calls
make; induction on the run. -/
theorem CacheRun.wellFormed {c : ContainerCache} {l : List ℕ} (h : CacheRun c l) : c.WellFormed l := by
  induction h with
  | create => exact containerCacheCreate_wellFormed
  | step op _ hop ih => exact CacheOp.wellFormed ih op hop

/-- **The head moved to the front.**  Every run whose moves are of nodes other than the head keeps
the cache well formed, but a move of the head, from any well-formed cache, links the head to
itself and leaves no list well formed. -/
theorem containerCacheMoveToFront_head :
    (∀ {c : ContainerCache} {l : List ℕ}, CacheRun c l → c.WellFormed l) ∧
    ∀ {c : ContainerCache} {l : List ℕ} {p : ℕ}, c.WellFormed l → c.head = some p →
      (containerCacheMoveToFront c p).next p = some p ∧
        ∀ l', ¬ (containerCacheMoveToFront c p).WellFormed l' := by
  refine ⟨fun h => h.wellFormed, fun {c l p} h hhead => ⟨containerCacheMoveToFront_head_next h hhead, ?_⟩⟩
  intro l' h'
  have hmem : p ∈ l' := List.mem_of_mem_head? (h'.links.head_eq ▸ rfl : l'.head? = some p)
  exact h'.links.next_ne_self hmem (containerCacheMoveToFront_head_next h hhead)

theorem containerCacheMoveToFront_head_single :
    CacheRun (containerCachePut containerCacheCreate 0 "a") [0] ∧
    (containerCacheMoveToFront (containerCachePut containerCacheCreate 0 "a") 0).next 0 = some 0 ∧
    ∀ l', ¬ (containerCacheMoveToFront (containerCachePut containerCacheCreate 0 "a") 0).WellFormed l' := by
  have hrun : CacheRun (containerCachePut containerCacheCreate 0 "a") [0] :=
    .step (.put 0 "a") .create ⟨fun _ => by simp [containerCacheCreate], rfl⟩
  exact ⟨hrun, containerCacheMoveToFront_head.2 (containerCacheMoveToFront_head.1 hrun) rfl⟩

end Orrp.Engine
