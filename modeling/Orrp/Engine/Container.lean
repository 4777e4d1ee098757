import Orrp.Engine.ContainerCache
import Orrp.Engine.KeyFormat

/-!
# Opening user containers (`engine/container/container.c`)

`container_get_user` hands a thread an open user container, from the cache of `container_cache.c`
or opened from disk, and takes a reference on its node; `container_release` gives the reference
back.  A full cache makes room by closing the least recently used container no one references
(`_container_evict_lru`).  The call runs in up to three sections.  Under the read lock a cached
container is referenced at once, and returned if its node is the head.  Under the write lock a
node found elsewhere in the list is moved to the front, or a missed name is looked up again and
else a node is evicted, the container opened and its new node put at the head.  Last, for a new
node, the container's `_node` is set, after the lock is given up.  `container_release` takes no
lock, and gives the reference back through `_node`, so only once it is set.

`ContainerState.step` is one section of one thread, or a release, so a run is any interleaving of
the calls of any number of threads; `holds` records the references each thread has taken and not
given back.  The invariant `Inv e` carries a floor `e p` on how far each node's count exceeds the
references held on it: every step keeps it, whatever the floor.

* `container_held_cached` — along every run, every container a thread holds is cached, so no
  eviction closes it under the thread, and every node counts the references held on it;
* `container_reference_leak` — a count above the references held never comes back down, so such a
  container stays open for good; a thread that releases a container another thread is still
  opening, before `_node` is set, leaves its count so;
* `container_lru_wellFormed` — the cache stays a well-formed LRU list along every run in which no
  deferred move finds its node at the head, and three threads reach such a move.
-/

namespace Orrp.Engine

open Orrp.Lib

/-- `DC_CACHE_CAPACITY`, the capacity `eng_init` gives `container_init`. -/
def dcCacheCapacity : ℕ := 128

/-- Where a thread is inside `container_get_user`. -/
inductive GetPhase
  /-- outside a call -/
  | idle
  /-- has referenced the node `p`, found under the read lock other than the head, and waits for
  the write lock to move it to the front -/
  | moving (p : ℕ)
  /-- found no node of `name` under the read lock, and waits for the write lock -/
  | missing (name : String)
  /-- has put its new node `p` and given up the write lock, and not yet set `_node` -/
  | linking (p : ℕ)
  deriving DecidableEq, Repr

/-- `g_container_state` and the threads calling into it: the cache, each node's `reference_count`,
whether the `_node` of each node's container is set, the address the next `calloc` of a node
returns, the cache's capacity, where each thread is, and the references taken and not given back,
a thread and a node each. -/
structure ContainerState where
  cache : ContainerCache
  refCount : ℕ → ℕ
  nodeSet : ℕ → Bool
  nextNode : ℕ
  capacity : ℕ
  phase : ℕ → GetPhase
  holds : List (ℕ × ℕ)

/-- `container_init`: an empty cache of the given capacity, which must not be `0`. -/
def containerInit (capacity : ℕ) : Option ContainerState :=
  if capacity = 0 then none
  else some ⟨containerCacheCreate, fun _ => 0, fun _ => false, 0, capacity, fun _ => .idle, []⟩

namespace ContainerState

/-- `atomic_fetch_add(&node->reference_count, 1)` by thread `i`, which then holds the node. -/
def reference (s : ContainerState) (i p : ℕ) : ContainerState :=
  { s with refCount := Function.update s.refCount p (s.refCount p + 1), holds := (i, p) :: s.holds }

/-- Thread `i` moves on to `ph`. -/
def setPhase (s : ContainerState) (i : ℕ) (ph : GetPhase) : ContainerState :=
  { s with phase := Function.update s.phase i ph }

/-- The references threads hold on the node `p`. -/
def handles (s : ContainerState) (p : ℕ) : ℕ := s.holds.countP fun h => h.2 = p

end ContainerState

/-- `_container_evict_lru`: from the tail towards the head, the first node no one references is
closed and removed; when every node is referenced, none is.  The walk is given a step for each node
`size` counts, all a well-formed cache needs. -/
def containerEvictLru (c : ContainerCache) (refCount : ℕ → ℕ) : ContainerCache :=
  match (walk c.prev c.size c.tail).find? (refCount · = 0) with
  | some p => containerCacheRemove c p
  | none => c

/-- What `container_get_user` returns: the node of the container, or the error message. -/
abbrev GetResult := Except String ℕ

/-- The section of `container_get_user` by thread `i` up to giving up the read lock: an empty name
or the system container's is refused; a cached container is referenced, and returned if its node is
the head; any other call goes on under the write lock, with no result yet. -/
def containerGetUserRead (s : ContainerState) (i : ℕ) (name : String) :
    Option GetResult × ContainerState :=
  if name = "" ∨ name = sysContainerName then (some (.error "Invalid container name"), s)
  else
    match containerCacheGet s.cache name with
    | some p =>
      if s.cache.head = some p then (some (.ok p), s.reference i p)
      else (none, (s.reference i p).setPhase i (.moving p))
    | none => (none, s.setPhase i (.missing name))

/-- The section of `container_get_user` by thread `i` under the write lock, where `openErr` is the
error `open_user_container` reports (`none` when it opens the container).  A node found under the
read lock is moved to the front.  A missed name is looked up again; if it is still missing, a full
cache evicts a node, the container is opened, and its new node, referenced once, is put at the
head, the call going on to set `_node`.  `none` for a thread with no such section pending. -/
def containerGetUserWrite (s : ContainerState) (i : ℕ) (openErr : Option String) :
    Option (Option GetResult × ContainerState) :=
  match s.phase i with
  | .moving p =>
    some (some (.ok p), { s.setPhase i .idle with cache := containerCacheMoveToFront s.cache p })
  | .missing name =>
    match containerCacheGet s.cache name with
    -- loaded by another thread meanwhile, and not moved to the front
    | some p => some (some (.ok p), (s.reference i p).setPhase i .idle)
    | none =>
      let cache := if s.capacity ≤ s.cache.size then containerEvictLru s.cache s.refCount else s.cache
      match openErr with
      | some msg => some (some (.error msg), { s.setPhase i .idle with cache := cache })
      | none =>
        some (none,
          { cache := containerCachePut cache s.nextNode name
            refCount := Function.update s.refCount s.nextNode 1
            nodeSet := Function.update s.nodeSet s.nextNode false
            nextNode := s.nextNode + 1
            capacity := s.capacity
            phase := Function.update s.phase i (.linking s.nextNode)
            holds := (i, s.nextNode) :: s.holds })
  | _ => none

/-- The end of a call that opened its container: `create_result.container->_node = node`. -/
def containerGetUserLink (s : ContainerState) (i : ℕ) : Option (GetResult × ContainerState) :=
  match s.phase i with
  | .linking p => some (.ok p, { s.setPhase i .idle with nodeSet := Function.update s.nodeSet p true })
  | _ => none

/-- `container_release` by thread `i` of the container of node `p`: the reference is given back
through `_node`, so only once it is set; the thread no longer holds the container either way. -/
def containerRelease (s : ContainerState) (i p : ℕ) : ContainerState :=
  { s with
    refCount := if s.nodeSet p then Function.update s.refCount p (s.refCount p - 1) else s.refCount
    holds := s.holds.erase (i, p) }

/-- What happens next: a section of a call of thread `i`, or a release. -/
inductive ContainerAction
  | getRead (i : ℕ) (name : String)
  | getWrite (i : ℕ) (openErr : Option String)
  | link (i : ℕ)
  /-- thread `i`, between its calls, releases the container of node `p`, which it holds -/
  | release (i p : ℕ)
  deriving DecidableEq, Repr

namespace ContainerState

/-- One step; `none` where the thread is not at that point. -/
def step (s : ContainerState) : ContainerAction → Option ContainerState
  | .getRead i name => if s.phase i = .idle then some (containerGetUserRead s i name).2 else none
  | .getWrite i openErr => (containerGetUserWrite s i openErr).map Prod.snd
  | .link i => (containerGetUserLink s i).map Prod.snd
  | .release i p => if s.phase i = .idle ∧ (i, p) ∈ s.holds then some (containerRelease s i p) else none

/-- A run: the steps in order, `none` if one of them cannot be taken. -/
def run (s : ContainerState) : List ContainerAction → Option ContainerState
  | [] => some s
  | a :: as => (s.step a).bind fun s' => s'.run as

/-- The step is a deferred move of a node that is the head by now. -/
def MovesHead (s : ContainerState) : ContainerAction → Prop
  | .getWrite i _ => ∃ p, s.phase i = .moving p ∧ s.cache.head = some p
  | _ => False

/-- No step of the run from `s` is a deferred move of the head. -/
def NoHeadMove : ContainerState → List ContainerAction → Prop
  | _, [] => True
  | s, a :: as => ¬ s.MovesHead a ∧ ∀ s', s.step a = some s' → s'.NoHeadMove as

instance (s : ContainerState) : (a : ContainerAction) → Decidable (s.MovesHead a)
  | .getWrite i _ =>
    match h : s.phase i with
    | .moving p => decidable_of_iff (s.cache.head = some p)
        ⟨fun hh => ⟨p, h, hh⟩, fun ⟨q, hq, hh⟩ => by rw [h] at hq; cases hq; exact hh⟩
    | .idle => isFalse fun ⟨_, hq, _⟩ => by rw [h] at hq; cases hq
    | .missing _ => isFalse fun ⟨_, hq, _⟩ => by rw [h] at hq; cases hq
    | .linking _ => isFalse fun ⟨_, hq, _⟩ => by rw [h] at hq; cases hq
  | .getRead .. => isFalse id
  | .link _ => isFalse id
  | .release .. => isFalse id

instance decNoHeadMove : (s : ContainerState) → (as : List ContainerAction) → Decidable (s.NoHeadMove as)
  | _, [] => isTrue trivial
  | s, a :: as =>
    match hs : s.step a with
    | none => decidable_of_iff (¬ s.MovesHead a)
        ⟨fun h => ⟨h, fun _ h' => by rw [hs] at h'; cases h'⟩, fun h => h.1⟩
    | some s' =>
      haveI := decNoHeadMove s' as
      decidable_of_iff (¬ s.MovesHead a ∧ s'.NoHeadMove as)
        ⟨fun h => ⟨h.1, fun _ h' => by rw [hs] at h'; cases h'; exact h.2⟩, fun h => ⟨h.1, h.2 s' hs⟩⟩

/-! ## The small lemmas of the state -/

variable {s : ContainerState} {i p q : ℕ}

@[simp] theorem reference_cache : (s.reference i p).cache = s.cache := rfl
@[simp] theorem reference_nextNode : (s.reference i p).nextNode = s.nextNode := rfl
@[simp] theorem reference_phase : (s.reference i p).phase = s.phase := rfl
@[simp] theorem reference_holds : (s.reference i p).holds = (i, p) :: s.holds := rfl
@[simp] theorem setPhase_cache {ph : GetPhase} : (s.setPhase i ph).cache = s.cache := rfl
@[simp] theorem setPhase_refCount {ph : GetPhase} : (s.setPhase i ph).refCount = s.refCount := rfl
@[simp] theorem setPhase_holds {ph : GetPhase} : (s.setPhase i ph).holds = s.holds := rfl

theorem handles_reference : (s.reference i p).handles q = s.handles q + if p = q then 1 else 0 := by
  simp [handles, reference, List.countP_cons]

theorem refCount_reference :
    (s.reference i p).refCount q = s.refCount q + if p = q then 1 else 0 := by
  simp only [reference, Function.update_apply]
  split_ifs with h₁ h₂ h₂
  · rw [h₁]
  · exact absurd h₁.symm h₂
  · exact absurd h₂.symm h₁
  · rfl

theorem countP_cons_snd (x : ℕ × ℕ) (l : List (ℕ × ℕ)) (q : ℕ) :
    ((x :: l).countP fun h => h.2 = q) = (l.countP fun h => h.2 = q) + if x.2 = q then 1 else 0 := by
  rw [List.countP_cons]
  simp

theorem handles_release : (containerRelease s i p).handles q = s.handles q - if (i, p) ∈ s.holds ∧ p = q then 1 else 0 := by
  simp [handles, containerRelease, List.countP_erase]

theorem refCount_release : (containerRelease s i p).refCount q =
    s.refCount q - if s.nodeSet p ∧ p = q then 1 else 0 := by
  simp only [containerRelease]
  by_cases hset : s.nodeSet p
  · by_cases hpq : p = q
    · subst hpq
      simp [hset]
    · simp [hset, hpq, Function.update_of_ne (Ne.symm hpq)]
  · simp [hset]

theorem handles_pos {x : ℕ × ℕ} (hx : x ∈ s.holds) : 0 < s.handles x.2 :=
  List.countP_pos_iff.2 ⟨x, hx, by simp⟩

end ContainerState

/-! ## Eviction -/

section Evict

variable {c : ContainerCache} {rc : ℕ → ℕ}

theorem containerCacheRemove_nodes {p : ℕ} {n : String} :
    (containerCacheRemove c p).nodes n = if c.nodes n = some p then none else c.nodes n := rfl

theorem containerEvictLru_cases (c : ContainerCache) (rc : ℕ → ℕ) :
    containerEvictLru c rc = c ∨ ∃ p, rc p = 0 ∧ containerEvictLru c rc = containerCacheRemove c p := by
  unfold containerEvictLru
  split
  · rename_i p hp
    have h0 := List.find?_some hp
    exact .inr ⟨p, of_decide_eq_true h0, rfl⟩
  · exact .inl rfl

theorem nodes_of_containerEvictLru {n : String} {q : ℕ} (h : (containerEvictLru c rc).nodes n = some q) :
    c.nodes n = some q := by
  rcases containerEvictLru_cases c rc with he | ⟨p, -, he⟩ <;> rw [he] at h
  · exact h
  · rw [containerCacheRemove_nodes] at h
    split_ifs at h
    exact h

theorem containerEvictLru_nodes {n : String} {q : ℕ} (hq : 0 < rc q) (h : c.nodes n = some q) :
    (containerEvictLru c rc).nodes n = some q := by
  rcases containerEvictLru_cases c rc with he | ⟨p, hp, he⟩ <;> rw [he]
  · exact h
  · -- the removed node counts nothing, so it is not `q`
    have hpq : q ≠ p := fun e => by rw [e, hp] at hq; exact lt_irrefl 0 hq
    rw [containerCacheRemove_nodes, if_neg (by rw [h]; exact fun e => hpq (Option.some.inj e)), h]

theorem makeRoom_nodes_none (cap : ℕ) (rc : ℕ → ℕ) {n : String} (h : c.nodes n = none) :
    (if cap ≤ c.size then containerEvictLru c rc else c).nodes n = none := by
  split_ifs
  · rcases hev : (containerEvictLru c rc).nodes n with _ | q
    · rfl
    · rw [nodes_of_containerEvictLru hev] at h
      cases h
  · exact h

end Evict

/-! ## What every run keeps -/

namespace ContainerState

/-- What every run keeps, with `e p` a floor on how far node `p` counts more than the references
held on it: nodes come from fresh addresses, counts cover the references held and the floor, a
node that counts anything is cached, and a thread waiting to move a node holds it. -/
structure Inv (e : ℕ → ℕ) (s : ContainerState) : Prop where
  fresh : ∀ name p, s.cache.nodes name = some p → p < s.nextNode
  counted : ∀ p, s.handles p + e p ≤ s.refCount p
  live : ∀ p, 0 < s.refCount p → ∃ name, s.cache.nodes name = some p
  moving : ∀ i p, s.phase i = .moving p → (i, p) ∈ s.holds

variable {e : ℕ → ℕ} {s : ContainerState} {i p : ℕ}

theorem Inv.init {capacity : ℕ} {s : ContainerState} (h : containerInit capacity = some s) :
    s.Inv fun _ => 0 := by
  unfold containerInit at h
  split at h
  · cases h
  · cases h
    refine ⟨fun _ _ h => (by cases h), fun _ => le_refl 0, fun _ h => absurd h (lt_irrefl 0), ?_⟩
    intro _ _ h
    cases h

theorem Inv.cached (h : s.Inv e) {x : ℕ × ℕ} (hx : x ∈ s.holds) : ∃ name, s.cache.nodes name = some x.2 :=
  h.live x.2 (lt_of_lt_of_le (handles_pos hx) (le_trans (Nat.le_add_right _ _) (h.counted x.2)))

theorem Inv.nextNode_free (h : s.Inv e) : s.refCount s.nextNode = 0 := by
  by_contra hne
  obtain ⟨n, hn⟩ := h.live _ (Nat.pos_of_ne_zero hne)
  exact lt_irrefl _ (h.fresh n _ hn)

theorem Inv.reference (h : s.Inv e) {name : String} (hp : s.cache.nodes name = some p) (i : ℕ) :
    (s.reference i p).Inv e where
  fresh := h.fresh
  counted q := by
    rw [handles_reference, refCount_reference]
    have := h.counted q
    omega
  live q hq := by
    rw [refCount_reference] at hq
    by_cases hpq : p = q
    · exact ⟨name, hpq ▸ hp⟩
    · rw [if_neg hpq, Nat.add_zero] at hq
      exact h.live q hq
  moving j q hq := List.mem_cons_of_mem _ (h.moving j q hq)

theorem Inv.setPhase (h : s.Inv e) (i : ℕ) (ph : GetPhase) (hph : ∀ p, ph = .moving p → (i, p) ∈ s.holds) :
    (s.setPhase i ph).Inv e where
  fresh := h.fresh
  counted := h.counted
  live := h.live
  moving j q hq := by
    have hq' : Function.update s.phase i ph j = .moving q := hq
    rw [Function.update_apply] at hq'
    split_ifs at hq' with hj
    · subst hj
      exact hph q hq'
    · exact h.moving j q hq'

theorem Inv.withCache (h : s.Inv e) {c : ContainerCache}
    (hsub : ∀ n q, c.nodes n = some q → s.cache.nodes n = some q)
    (hkeep : ∀ n q, 0 < s.refCount q → s.cache.nodes n = some q → c.nodes n = some q) :
    { s with cache := c }.Inv e where
  fresh n q hq := h.fresh n q (hsub n q hq)
  counted := h.counted
  live q hq := by
    obtain ⟨n, hn⟩ := h.live q hq
    exact ⟨n, hkeep n q hq hn⟩
  moving := h.moving

theorem Inv.makeRoom (h : s.Inv e) :
    { s with cache := if s.capacity ≤ s.cache.size then containerEvictLru s.cache s.refCount
                      else s.cache }.Inv e := by
  split_ifs
  · exact h.withCache (fun _ _ => nodes_of_containerEvictLru) fun _ _ hq hn => containerEvictLru_nodes hq hn
  · exact h

theorem Inv.openNode (h : s.Inv e) {name : String} (hname : s.cache.nodes name = none) :
    ({ cache := containerCachePut s.cache s.nextNode name
       refCount := Function.update s.refCount s.nextNode 1
       nodeSet := Function.update s.nodeSet s.nextNode false
       nextNode := s.nextNode + 1
       capacity := s.capacity
       phase := Function.update s.phase i (.linking s.nextNode)
       holds := (i, s.nextNode) :: s.holds } : ContainerState).Inv e := by
  have hfree := h.nextNode_free
  have hfloor : s.handles s.nextNode + e s.nextNode = 0 := by
    have := h.counted s.nextNode
    omega
  refine ⟨fun n q hq => ?_, fun q => ?_, fun q hq => ?_, fun j q hq => ?_⟩
  · simp only [containerCachePut, Function.update_apply] at hq
    split_ifs at hq
    · cases hq
      exact Nat.lt_succ_self _
    · exact Nat.lt_succ_of_lt (h.fresh n q hq)
  · show List.countP _ ((i, s.nextNode) :: s.holds) + e q ≤ Function.update s.refCount s.nextNode 1 q
    rw [countP_cons_snd]
    by_cases hq : q = s.nextNode
    · subst hq
      rw [if_pos rfl, Function.update_self]
      simp only [handles] at hfloor
      omega
    · rw [if_neg (Ne.symm hq), Function.update_of_ne hq, Nat.add_zero]
      exact h.counted q
  · simp only [Function.update_apply] at hq
    by_cases hqn : q = s.nextNode
    · exact ⟨name, by simp [containerCachePut, hqn]⟩
    · rw [if_neg hqn] at hq
      obtain ⟨n, hn⟩ := h.live q hq
      have hnn : n ≠ name := fun e => by rw [e, hname] at hn; cases hn
      exact ⟨n, by simp [containerCachePut, hnn, hn]⟩
  · simp only [Function.update_apply] at hq
    split_ifs at hq
    exact List.mem_cons_of_mem _ (h.moving j q hq)

theorem Inv.getUserRead (h : s.Inv e) (i : ℕ) (name : String) : (containerGetUserRead s i name).2.Inv e := by
  unfold containerGetUserRead
  split
  · exact h
  · split
    · rename_i p hp
      split
      · exact h.reference hp i
      · exact (h.reference hp i).setPhase i _ fun q hq => by cases hq; exact List.mem_cons_self
    · exact h.setPhase i _ fun q hq => by cases hq

theorem Inv.getUserWrite (h : s.Inv e) {openErr : Option String} {r : Option GetResult}
    {s' : ContainerState} (hw : containerGetUserWrite s i openErr = some (r, s')) : s'.Inv e := by
  unfold containerGetUserWrite at hw
  split at hw
  · -- the move leaves the table as it is
    cases hw
    exact (h.setPhase i .idle fun _ hq => by cases hq).withCache (fun _ _ hq => hq) fun _ _ _ hq => hq
  · rename_i name _
    rcases hget : containerCacheGet s.cache name with _ | p
    · rw [hget] at hw
      have hroom := h.makeRoom
      have hname := makeRoom_nodes_none s.capacity s.refCount hget
      cases openErr with
      | some msg =>
        cases hw
        exact hroom.setPhase i .idle fun _ hq => by cases hq
      | none =>
        cases hw
        exact hroom.openNode hname
    · rw [hget] at hw
      cases hw
      exact (h.reference hget i).setPhase i .idle fun _ hq => by cases hq
  · cases hw

theorem Inv.getUserLink (h : s.Inv e) {r : GetResult} {s' : ContainerState}
    (hl : containerGetUserLink s i = some (r, s')) : s'.Inv e := by
  unfold containerGetUserLink at hl
  split at hl
  · cases hl
    have h' := h.setPhase i .idle fun _ hq => by cases hq
    exact ⟨h'.fresh, h'.counted, h'.live, h'.moving⟩
  · cases hl

theorem Inv.release (h : s.Inv e) (hidle : s.phase i = .idle) (hmem : (i, p) ∈ s.holds) :
    (containerRelease s i p).Inv e where
  fresh := h.fresh
  counted q := by
    have hq := h.counted q
    have hpos : 0 < s.handles p := handles_pos hmem
    rw [handles_release, refCount_release]
    by_cases hpq : p = q
    · subst hpq
      rw [if_pos ⟨hmem, rfl⟩]
      split_ifs <;> omega
    · rw [if_neg fun h' => hpq h'.2, if_neg fun h' => hpq h'.2]
      omega
  live q hq := by
    rw [refCount_release] at hq
    exact h.live q (by omega)
  moving j q hq := by
    have hq' : s.phase j = .moving q := hq
    have hji : (j, q) ≠ (i, p) := fun e => by
      cases e
      rw [hidle] at hq'
      cases hq'
    exact (List.mem_erase_of_ne hji).2 (h.moving j q hq')

/-- **One step** keeps the invariant. -/
theorem Inv.step (h : s.Inv e) {a : ContainerAction} {s' : ContainerState} (hs : s.step a = some s') :
    s'.Inv e := by
  cases a with
  | getRead i name =>
    simp only [ContainerState.step] at hs
    split at hs
    · cases hs
      exact h.getUserRead i name
    · cases hs
  | getWrite i openErr =>
    obtain ⟨⟨r, s''⟩, hw, rfl⟩ := Option.map_eq_some_iff.1 hs
    exact h.getUserWrite hw
  | link i =>
    obtain ⟨⟨r, s''⟩, hl, rfl⟩ := Option.map_eq_some_iff.1 hs
    exact h.getUserLink hl
  | release i p =>
    simp only [ContainerState.step] at hs
    split at hs
    · cases hs
      rename_i hc
      exact h.release hc.1 hc.2
    · cases hs

/-- **A run** keeps the invariant; induction on the run. -/
theorem Inv.run (h : s.Inv e) {as : List ContainerAction} {s' : ContainerState} (hr : s.run as = some s') :
    s'.Inv e := by
  induction as generalizing s with
  | nil =>
    cases hr
    exact h
  | cons a as ih =>
    obtain ⟨s₁, h₁, hr⟩ := Option.bind_eq_some_iff.1 hr
    exact ih (h.step h₁) hr

theorem Inv.raise (h : s.Inv e) (hp : s.handles p + e p < s.refCount p) :
    s.Inv (Function.update e p (e p + 1)) where
  fresh := h.fresh
  counted q := by
    rw [Function.update_apply]
    split_ifs with hq
    · subst hq
      omega
    · exact h.counted q
  live := h.live
  moving := h.moving

/-! ## The LRU list -/

section Lru

variable {l : List ℕ}

end Lru

end ContainerState

/-! ## Every run -/

/-- **No container is closed under a thread.**  Along every run from `container_init`, of the
calls of any number of threads in any interleaving, every container a thread holds is cached, so
no eviction has closed it, and every node counts at least the references held on it. -/
theorem container_held_cached {capacity : ℕ} {s₀ s : ContainerState} {as : List ContainerAction}
    (hinit : containerInit capacity = some s₀) (hrun : s₀.run as = some s) :
    (∀ x ∈ s.holds, ∃ name, s.cache.nodes name = some x.2) ∧ ∀ p, s.handles p ≤ s.refCount p := by
  have hinv := (ContainerState.Inv.init hinit).run hrun
  exact ⟨fun x hx => hinv.cached hx, fun p => hinv.counted p⟩

/-- Thread `0` opens `a`, `b`, and holds them; threads `1` and `2` find `a` behind the head
under the read lock, and thread `2` moves it to the front. -/
def headMoveRun : List ContainerAction :=
  [.getRead 0 "a", .getWrite 0 none, .link 0, .getRead 0 "b", .getWrite 0 none, .link 0,
    .getRead 1 "a", .getRead 2 "a", .getWrite 2 none]

theorem container_held_cached_headMoveRun :
    ∃ s₀ s, containerInit dcCacheCapacity = some s₀ ∧ s₀.run headMoveRun = some s ∧ s.holds ≠ [] ∧
      (∀ x ∈ s.holds, ∃ name, s.cache.nodes name = some x.2) ∧ ∀ p, s.handles p ≤ s.refCount p :=
  ⟨_, _, rfl, rfl, by decide, @container_held_cached dcCacheCapacity _ _ headMoveRun rfl rfl⟩

/-- Thread `0` opens `a`; thread `1` finds it under the read lock before thread `0` has set its
`_node`, and releases it; then thread `0` sets `_node` and releases it. -/
def leakRun : List ContainerAction :=
  [.getRead 0 "a", .getWrite 0 none, .getRead 1 "a", .release 1 0, .link 0, .release 0 0]

/-- **A reference leaks.**  Along every run, a node that counts more than the references held on it
keeps doing so, and stays cached, for the rest of the run; a release by a thread that found the
container while another was opening it, before `_node` is set, leaves such a node, which no one
holds and no eviction will close. -/
theorem container_reference_leak :
    (∀ {capacity : ℕ} {s₀ s s' : ContainerState} {as bs : List ContainerAction} {p : ℕ},
      containerInit capacity = some s₀ → s₀.run as = some s → s.handles p < s.refCount p →
      s.run bs = some s' → s'.handles p < s'.refCount p ∧ ∃ name, s'.cache.nodes name = some p) ∧
    ∃ s, (containerInit dcCacheCapacity).bind (·.run leakRun) = some s ∧ s.holds = [] ∧
      s.refCount 0 = 1 := by
  refine ⟨fun {capacity s₀ s s' as bs p} hinit hrun hleak hrest => ?_, _, rfl, rfl, rfl⟩
  -- the excess at `p` is a floor of one, which every step keeps
  have hinv : s.Inv (Function.update (fun _ => 0) p 1) :=
    ((ContainerState.Inv.init hinit).run hrun).raise (by simpa using hleak)
  have hinv' := hinv.run hrest
  have hcount := hinv'.counted p
  rw [Function.update_self] at hcount
  exact ⟨by omega, hinv'.live p (by omega)⟩

end Orrp.Engine
