import Orrp.Engine.Worker

/-!
# Runs of the engine: workers, the writer and restarts

A run starts from empty storage and interleaves three kinds of steps: a worker handles an `EVENT`,
the writer runs a cycle, or the process restarts on what persisted (LMDB and the mmap'd maps).

The invariant `CounterInv` holds of every reachable state: a container's persisted
`next_event_id` names an event id already taken in it, the system metadata database holds only
the entity counter, which names an entity id already taken, and the writer's ring only carries
entries of that kind.  Both counters are written as the last id handed out, not the next one to
hand out, and `_write_to_db` ignores the `INT32_GREATER_THAN` condition, so after a restart:

* `restart_reassigns_event_id` — the container's next event gets an event id already taken;
* `restart_reassigns_entity_id` — every entity gets the entity id of the last new entity.
-/

namespace Orrp.Engine

open Orrp.Query Orrp.Lib

/-! ## Steps and runs -/

/-- What happens next in a run. -/
inductive Action
  /-- Worker `w` handles an `EVENT` that arrived at `arrivalTs`. -/
  | event (w : ℕ) (cmd : Command) (arrivalTs : ℤ)
  /-- The writer runs a cycle; `commits` says which containers' batches commit. -/
  | writer (commits : String → Bool)
  /-- The process stops and starts again on what persisted. -/
  | restart

/-- A writer cycle on the engine's ring and LMDB. -/
def EngState.writerCycle (commits : String → Bool) (e : EngState) : EngState :=
  let w := (engWriterCycle commits ⟨e.writerQueue, e.lmdb⟩).1
  { e with writerQueue := w.queue, lmdb := w.lmdb }

/-- A restart: `eng_init` on LMDB and the mmap'd maps as they are. -/
def EngState.restart (e : EngState) : EngState :=
  EngState.start e.lmdb e.entityIdMap e.eventToEntityMap

/-- One step. -/
def EngState.step (cfg : EngineConfig) : Action → EngState → EngState
  | .event w cmd ts, e => (processMsg cfg w (buildCmdContext cmd ts) e).2
  | .writer commits, e => e.writerCycle commits
  | .restart, e => e.restart

/-- The states of the runs that start on empty storage. -/
inductive Reachable (cfg : EngineConfig) : EngState → Prop
  | fresh : Reachable cfg freshState
  | step {e : EngState} (a : Action) : Reachable cfg e → Reachable cfg (e.step cfg a)

/-- A run: the actions in order. -/
def EngState.run (cfg : EngineConfig) (e : EngState) (as : List Action) : EngState :=
  as.foldl (fun e a => e.step cfg a) e

theorem Reachable.run {cfg : EngineConfig} {e : EngState} (he : Reachable cfg e) :
    ∀ as : List Action, Reachable cfg (e.run cfg as)
  | [] => he
  | a :: as => (he.step a).run as

/-! ## Ids taken -/

/-- The maps only gain ids: what `event_to_entity_map` and `entity_id_map` record stays. -/
structure EngState.Grows (e e' : EngState) : Prop where
  events : ∀ c id, (e.eventToEntityMap c id).isSome → (e'.eventToEntityMap c id).isSome
  entities : ∀ id, (e.entityIdMap id).isSome → (e'.entityIdMap id).isSome

theorem EngState.Grows.refl (e : EngState) : e.Grows e := ⟨fun _ _ h => h, fun _ h => h⟩

theorem EngState.Grows.trans {e₁ e₂ e₃ : EngState} (h₁ : e₁.Grows e₂) (h₂ : e₂.Grows e₃) :
    e₁.Grows e₃ :=
  ⟨fun c id h => h₂.events c id (h₁.events c id h), fun id h => h₂.entities id (h₁.entities id h)⟩

theorem isSome_update_of_isSome {α β : Type*} [DecidableEq α] {f : α → Option β} {a b : α}
    {v : β} (h : (f b).isSome) : (Function.update f a (some v) b).isSome := by
  by_cases hab : b = a
  · subst hab
    simp
  · rwa [Function.update_of_ne hab]

section Assign

variable {w : ℕ} {c : String} {ent : Literal} {e : EngState}

theorem getEntityMapping_grows : e.Grows (getEntityMapping w ent e).2.2 := by
  unfold getEntityMapping
  split
  · exact .refl e
  · exact ⟨fun _ _ h => h, fun _ h => isSome_update_of_isSome h⟩

theorem getEntityMapping_taken
    (hcache : ∀ x id, e.entityCache w x = some id → (e.entityIdMap id).isSome) :
    ((getEntityMapping w ent e).2.2.entityIdMap (getEntityMapping w ent e).1).isSome := by
  unfold getEntityMapping
  split
  · rename_i id hid
    exact hcache ent id hid
  · simp

theorem getEntityMapping_cache
    (hcache : ∀ w x id, e.entityCache w x = some id → (e.entityIdMap id).isSome) :
    ∀ w' x id, (getEntityMapping w ent e).2.2.entityCache w' x = some id →
      ((getEntityMapping w ent e).2.2.entityIdMap id).isSome := by
  unfold getEntityMapping
  split
  · exact hcache
  · intro w' x id h
    dsimp only at h ⊢
    by_cases hw : w' = w
    · subst hw
      by_cases hx : x = ent
      · subst hx
        simp only [Function.update_self, Option.some.injEq] at h
        subst h
        simp
      · simp only [Function.update_self, Function.update_of_ne hx] at h
        exact isSome_update_of_isSome (hcache w' x id h)
    · rw [Function.update_of_ne hw] at h
      exact isSome_update_of_isSome (hcache w' x id h)

theorem assignEventIds_eq : assignEventIds w c ent e =
    ((getEntityMapping w ent e).1, (getEntityMapping w ent e).2.1,
      (getNextEventIdForContainer c (getEntityMapping w ent e).2.2).1,
      writeToEventEntMap c (getEntityMapping w ent e).1
        (getNextEventIdForContainer c (getEntityMapping w ent e).2.2).1
        (getNextEventIdForContainer c (getEntityMapping w ent e).2.2).2) := rfl

theorem assignEventIds_grows : e.Grows (assignEventIds w c ent e).2.2.2 := by
  refine getEntityMapping_grows.trans ⟨fun c' id h => ?_, fun _ h => h⟩
  simp only [assignEventIds_eq, writeToEventEntMap, getNextEventIdForContainer_eventToEntityMap]
  by_cases hc : c' = c
  · subst hc
    simpa using isSome_update_of_isSome h
  · rwa [Function.update_of_ne hc]

@[simp] theorem assignEventIds_lmdb : (assignEventIds w c ent e).2.2.2.lmdb = e.lmdb := by
  simp [assignEventIds]

@[simp] theorem assignEventIds_writerQueue :
    (assignEventIds w c ent e).2.2.2.writerQueue = e.writerQueue := by
  simp [assignEventIds]

@[simp] theorem assignEventIds_opQueues :
    (assignEventIds w c ent e).2.2.2.opQueues = e.opQueues := by
  simp [assignEventIds]

theorem assignEventIds_event_taken :
    ((assignEventIds w c ent e).2.2.2.eventToEntityMap c (assignEventIds w c ent e).2.2.1).isSome := by
  simp [assignEventIds, writeToEventEntMap]

theorem assignEventIds_entity_taken
    (hcache : ∀ w x id, e.entityCache w x = some id → (e.entityIdMap id).isSome) :
    ((assignEventIds w c ent e).2.2.2.entityIdMap (assignEventIds w c ent e).1).isSome := by
  simpa [assignEventIds, writeToEventEntMap] using getEntityMapping_taken (hcache w)

theorem assignEventIds_cache
    (hcache : ∀ w x id, e.entityCache w x = some id → (e.entityIdMap id).isSome) :
    ∀ w' x id, (assignEventIds w c ent e).2.2.2.entityCache w' x = some id →
      ((assignEventIds w c ent e).2.2.2.entityIdMap id).isSome := by
  simpa [assignEventIds, writeToEventEntMap] using getEntityMapping_cache hcache

end Assign

/-! ## The counter invariant -/

/-- What a value under a key tells: a container's event counter names an event id taken in it,
and the system metadata database holds only the entity counter, which names an entity id taken. -/
def ValueInv (e : EngState) (k : ContainerDbKey) (val : DbValue) : Prop :=
  (∀ c, k = nextEventIdDbKey c → ∃ v, val = .u32 v ∧ (e.eventToEntityMap c v).isSome) ∧
  (k.db = .sys .metadata → k = nextEntIdDbKey ∧ ∃ v, val = .u32 v ∧ (e.entityIdMap v).isSome)

theorem ValueInv.mono {e e' : EngState} {k : ContainerDbKey} {val : DbValue} (h : ValueInv e k val)
    (hg : e.Grows e') : ValueInv e' k val := by
  refine ⟨fun c hc => ?_, fun hk => ?_⟩
  · obtain ⟨v, hv, ht⟩ := h.1 c hc
    exact ⟨v, hv, hg.events c v ht⟩
  · obtain ⟨hk', v, hv, ht⟩ := h.2 hk
    exact ⟨hk', v, hv, hg.entities v ht⟩

/-- The invariant of every reachable state. -/
structure CounterInv (e : EngState) : Prop where
  lmdb : ∀ k val, e.lmdb k = some val → ValueInv e k val
  queue : ∀ m ∈ e.writerQueue.items, ∀ x ∈ m.entries, ValueInv e x.dbKey x.value
  cache : ∀ w x id, e.entityCache w x = some id → (e.entityIdMap id).isSome

theorem counterInv_fresh : CounterInv freshState := by
  refine ⟨?_, ?_, ?_⟩ <;> simp [freshState, EngState.start, RingBuffer.empty]

theorem workerCreateWriterMsg_valueInv {ctx : CmdCtx} {containerName : String}
    {eventId entId : ℕ} {ent : Literal} {isNewEnt : Bool} {keyToIndex : List String}
    {msg : WriterMsg} {e : EngState}
    (h : workerCreateWriterMsg ctx containerName eventId entId ent isNewEnt keyToIndex = some msg)
    (hev : (e.eventToEntityMap containerName eventId).isSome) (hent : (e.entityIdMap entId).isSome) :
    ∀ x ∈ msg.entries, ValueInv e x.dbKey x.value := by
  simp only [workerCreateWriterMsg, createMpackEntry, Option.map_map, Option.map_eq_some_iff,
    Function.comp_apply] at h
  obtain ⟨r, -, rfl⟩ := h
  intro x hx
  simp only [List.cons_append, List.append_assoc, List.mem_cons, List.mem_append] at hx
  rcases hx with rfl | hx | hx | hx
  · -- the event record, in the container's events database
    exact ⟨fun c hc => by simp [eventDbKey, nextEventIdDbKey] at hc, by simp [eventDbKey]⟩
  · -- the container's event counter holds the event id
    split_ifs at hx
    · rw [List.mem_singleton] at hx
      subst hx
      refine ⟨fun c hc => ?_, by simp [createEventCounterEntry, nextEventIdDbKey]⟩
      simp only [createEventCounterEntry, nextEventIdDbKey, ContainerDbKey.mk.injEq] at hc
      rw [← hc.1]
      exact ⟨eventId, rfl, hev⟩
    · simp at hx
  · -- an index entry, in one of the container's index databases
    obtain ⟨idxKey, v, hk⟩ := createIndexEntries_dbKey hx
    rw [hk]
    exact ⟨fun c hc => by simp [nextEventIdDbKey] at hc, by simp⟩
  · -- the entity counter and the entity's mapping
    split_ifs at hx with hnew hz
    · simp only [List.singleton_append, List.mem_cons, List.not_mem_nil, or_false] at hx
      rcases hx with rfl | rfl
      · refine ⟨fun c hc => by simp [createEntCounterEntry, nextEntIdDbKey, nextEventIdDbKey] at hc,
          fun _ => ⟨rfl, entId, rfl, hent⟩⟩
      · cases ent <;>
          exact ⟨fun c hc => by simp [createEntEntry, entityDbKey, nextEventIdDbKey] at hc,
            by simp [createEntEntry, entityDbKey]⟩
    · simp only [List.nil_append, List.mem_cons, List.not_mem_nil, or_false] at hx
      subst hx
      cases ent <;>
        exact ⟨fun c hc => by simp [createEntEntry, entityDbKey, nextEventIdDbKey] at hc,
          by simp [createEntEntry, entityDbKey]⟩
    · simp at hx

/-! ## Every step keeps the invariant -/

section Steps

variable {cfg : EngineConfig} {e : EngState}

theorem CounterInv.of_grows {e' : EngState} (hinv : CounterInv e) (hg : e.Grows e')
    (hlmdb : e'.lmdb = e.lmdb)
    (hqueue : ∀ m ∈ e'.writerQueue.items, m ∈ e.writerQueue.items ∨
      ∀ x ∈ m.entries, ValueInv e' x.dbKey x.value)
    (hcache : ∀ w x id, e'.entityCache w x = some id → (e'.entityIdMap id).isSome) :
    CounterInv e' := by
  refine ⟨fun k val hk => ?_, fun m hm x hx => ?_, hcache⟩
  · rw [hlmdb] at hk
    exact (hinv.lmdb k val hk).mono hg
  · rcases hqueue m hm with hm | hnew
    · exact (hinv.queue m hm x hx).mono hg
    · exact hnew x hx

theorem processMsg_counterInv (hinv : CounterInv e) (w : ℕ) (ctx : CmdCtx) :
    CounterInv (processMsg cfg w ctx e).2 := by
  rcases processMsg_cases cfg w ctx e with hsame | ⟨c, ent, -, -, hstop | ⟨msg, hmsg, hrun⟩⟩
  · rw [hsame]
    exact hinv
  · rw [hstop]
    refine hinv.of_grows assignEventIds_grows assignEventIds_lmdb (fun m hm => ?_)
      (assignEventIds_cache hinv.cache)
    rw [assignEventIds_writerQueue] at hm
    exact .inl hm
  · obtain ⟨n, -, hw, -, -, hframe⟩ := issueEvent_prefix cfg msg
      (workerCreateOps ctx c (assignEventIds w c ent e).1 (assignEventIds w c ent e).2.2.1)
      (assignEventIds w c ent e).2.2.2
    rw [hrun]
    have hg : e.Grows (assignEventIds w c ent e).2.2.2 := assignEventIds_grows
    have hl : (assignEventIds w c ent e).2.2.2.lmdb = e.lmdb := assignEventIds_lmdb
    have hc : ∀ w' x id, (assignEventIds w c ent e).2.2.2.entityCache w' x = some id →
        ((assignEventIds w c ent e).2.2.2.entityIdMap id).isSome :=
      assignEventIds_cache hinv.cache
    have hmsgInv := workerCreateWriterMsg_valueInv hmsg assignEventIds_event_taken
      (assignEventIds_entity_taken hinv.cache)
    rw [hframe]
    refine hinv.of_grows ⟨hg.1, hg.2⟩ hl (fun m hm => ?_) hc
    simp only at hm
    rw [hw, assignEventIds_writerQueue, List.mem_append] at hm
    rcases hm with hm | hm
    · exact .inl hm
    · rw [List.mem_singleton.1 (List.mem_of_mem_take hm)]
      exact .inr hmsgInv

theorem EngWriter.mem_pending {w : EngWriter} {x : WriterEntry} (hx : x ∈ w.pending) :
    ∃ m ∈ w.queue.items, x ∈ m.entries := by
  obtain ⟨m, hm, hx⟩ := List.mem_flatMap.1 hx
  exact ⟨m, List.mem_of_mem_take hm, hx⟩

theorem writerCycle_counterInv (hinv : CounterInv e) (commits : String → Bool) :
    CounterInv (e.writerCycle commits) := by
  refine ⟨fun k val hk => ?_, fun m hm x hx => ?_, hinv.cache⟩
  · -- a key holds its last dequeued entry's value, or what it held
    simp only [EngState.writerCycle] at hk ⊢
    rw [engWriterCycle_lmdb] at hk
    split at hk
    · cases hlast : ((EngWriter.pending ⟨e.writerQueue, e.lmdb⟩).filter
          fun x => x.dbKey = k).getLast? with
      | none =>
        rw [hlast] at hk
        exact hinv.lmdb k val hk
      | some x =>
        rw [hlast] at hk
        simp only [Option.map_some, Option.getD_some, Option.some.injEq] at hk
        have hmem := List.mem_filter.1 (List.mem_of_getLast? hlast)
        obtain ⟨m, hm, hxm⟩ := EngWriter.mem_pending hmem.1
        have hk' : x.dbKey = k := of_decide_eq_true hmem.2
        rw [← hk, ← hk']
        exact hinv.queue m hm x hxm
    · exact hinv.lmdb k val hk
  · -- the ring only loses messages
    simp only [EngState.writerCycle, engWriterCycle_queue, RingBuffer.drop_items] at hm
    exact hinv.queue m (List.mem_of_mem_drop hm) x hx

theorem restart_counterInv (hinv : CounterInv e) : CounterInv e.restart := by
  refine ⟨hinv.lmdb, ?_, ?_⟩ <;> simp [EngState.restart, EngState.start, RingBuffer.empty]

/-- **The counter invariant holds along every run.** -/
theorem Reachable.counterInv {e : EngState} (he : Reachable cfg e) : CounterInv e := by
  induction he with
  | fresh => exact counterInv_fresh
  | step a _ ih =>
    cases a with
    | event w cmd ts => exact processMsg_counterInv ih w _
    | writer commits => exact writerCycle_counterInv ih commits
    | restart => exact restart_counterInv ih

end Steps

/-! ## What a restart reloads -/

section Restart

variable {cfg : EngineConfig} {e : EngState}

@[simp] theorem restart_lmdb : e.restart.lmdb = e.lmdb := rfl

@[simp] theorem restart_nextEventIdByContainer (c : String) :
    e.restart.nextEventIdByContainer c = none := rfl

@[simp] theorem restart_entityCache (w : ℕ) (x : Literal) : e.restart.entityCache w x = none := rfl

@[simp] theorem restart_nextEntityId : e.restart.nextEntityId = loadNextEntId e.lmdb := rfl

/-- **A restart hands out a taken event id.** In every reachable state in which a container's
`next_event_id` has been persisted as `v`, the first event of that container after a restart gets
event id `v`, which `event_to_entity_map` already records for an earlier event. -/
theorem restart_reassigns_event_id {c : String} {v : ℕ} (he : Reachable cfg e)
    (hv : e.lmdb (nextEventIdDbKey c) = some (.u32 v)) (w : ℕ) (ent : Literal) :
    (assignEventIds w c ent e.restart).2.2.1 = v ∧ (e.restart.eventToEntityMap c v).isSome := by
  obtain ⟨v', hv', htaken⟩ := (he.counterInv.lmdb _ _ hv).1 c rfl
  cases hv'
  refine ⟨?_, htaken⟩
  simp [assignEventIds_eq, getNextEventIdForContainer, loadNextEventId, hv]

theorem restart_reassigns_event_id_sampleEvent :
    (freshState.run sampleCfg [.event 0 sampleEvent 0, .writer fun _ => true]).lmdb
        (nextEventIdDbKey "c") = some (.u32 1) ∧
    (assignEventIds 0 "c" (.str "u")
        (freshState.run sampleCfg [.event 0 sampleEvent 0, .writer fun _ => true]).restart).2.2.1 = 1 ∧
    ((freshState.run sampleCfg [.event 0 sampleEvent 0, .writer fun _ => true]).restart.eventToEntityMap
        "c" 1).isSome := by
  have hv : (freshState.run sampleCfg [.event 0 sampleEvent 0, .writer fun _ => true]).lmdb
      (nextEventIdDbKey "c") = some (.u32 1) := by
    decide
  exact ⟨hv, restart_reassigns_event_id (Reachable.fresh.run _) hv 0 (.str "u")⟩

theorem CounterInv.sys_metadata (hinv : CounterInv e) {k : ContainerDbKey} (hk : k.db = .sys .metadata)
    (hne : k ≠ nextEntIdDbKey) : e.lmdb k = none := by
  cases h : e.lmdb k with
  | none => rfl
  | some val => exact absurd ((hinv.lmdb k val h).2 hk).1 hne

/-- **A restart maps every entity to the last new entity's id.** In every reachable state in which
the entity counter has been persisted as `v`, `entity_id_map` records an entity under `v`, and after
a restart every entity, on any worker, is mapped to `v` and written to `entity_id_map` under it. -/
theorem restart_reassigns_entity_id {v : ℕ} (he : Reachable cfg e)
    (hv : e.lmdb nextEntIdDbKey = some (.u32 v)) :
    (e.entityIdMap v).isSome ∧ ∀ w x, (getEntityMapping w x e.restart).1 = v ∧
      (getEntityMapping w x e.restart).2.2.entityIdMap v = some x := by
  have hinv := he.counterInv
  obtain ⟨-, v', hv', htaken⟩ := (hinv.lmdb _ _ hv).2 rfl
  cases hv'
  have hid : ∀ x, (loadOrCreateEntityId x e.restart).1 = v := by
    intro x
    by_cases hx : entityMetadataDbKey x = nextEntIdDbKey
    · simp [loadOrCreateEntityId, hx, hv]
    · have hnone : e.lmdb (entityMetadataDbKey x) = none := by
        refine hinv.sys_metadata ?_ hx
        cases x <;> rfl
      simp [loadOrCreateEntityId, hnone, loadNextEntId, hv]
  refine ⟨htaken, fun w x => ⟨?_, ?_⟩⟩
  · simp [getEntityMapping, hid]
  · simp [getEntityMapping, hid]

theorem restart_reassigns_entity_id_sampleEvent :
    (freshState.run sampleCfg [.event 0 sampleEvent 0, .writer fun _ => true]).lmdb
        nextEntIdDbKey = some (.u32 1) ∧
    ((freshState.run sampleCfg [.event 0 sampleEvent 0, .writer fun _ => true]).entityIdMap 1).isSome ∧
    (getEntityMapping 0 (.str "v")
        (freshState.run sampleCfg [.event 0 sampleEvent 0, .writer fun _ => true]).restart).1 = 1 ∧
    (getEntityMapping 0 (.str "v")
        (freshState.run sampleCfg [.event 0 sampleEvent 0, .writer fun _ => true]).restart).2.2.entityIdMap
        1 = some (.str "v") := by
  have hv : (freshState.run sampleCfg [.event 0 sampleEvent 0, .writer fun _ => true]).lmdb
      nextEntIdDbKey = some (.u32 1) := by
    decide
  obtain ⟨htaken, hall⟩ := restart_reassigns_entity_id (Reachable.fresh.run _) hv
  exact ⟨hv, htaken, hall 0 (.str "v")⟩

end Restart

end Orrp.Engine
