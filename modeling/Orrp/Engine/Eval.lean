import Mathlib.Data.Finset.SymmDiff
import Mathlib.Order.Interval.Finset.Nat
import Orrp.Lib.Store
import Orrp.Engine.Compare
import Orrp.Engine.KeyFormat
import Orrp.Engine.Validator

/-!
# Evaluating a where-expression (`engine/eng_eval/eng_eval.c`)

`eval` is `_eval`: a walk over the expression that returns a pointer to an `eval_bitmap_t` slot,
either one of the `intermediate_bitmaps` or the bitmap of an entry of the per-query tag cache.
A slot records a bitmap and whether the evaluation owns it; `_and` and `_or` write the result into
an owned operand in place.  Bitmaps live in `EvalState.heap`, addressed by position, which starts
with the consumers' cached bitmaps.

* `eval_spec` — on an expression whose tags have pairwise distinct keys, within `MAX_EVAL_STACK`
  intermediate bitmaps and cache entries, `_eval` returns a slot holding the expression's meaning
  `Snapshot.denote`, and writes no bitmap it did not allocate;
* `engEvalResolveExpToEvents_eq_denote` — the public entry returns that meaning, where `NOT` is
  `bitmap_flip` over `[0, m)`, the complement when every id is below `m` (`bitmapFlip_zero_of_lt`);
* `engEvalResolveExpToEvents_repeatedTag` — a tag that occurs twice can be read back after `_and`
  wrote into its cached bitmap: `(b:y AND c:z) OR b:y` evaluates to `[[b:y]] ∩ [[c:z]]`;
* `engEvalResolveExpToEvents_nestNot` — `NOT` nested more deeply than `MAX_EVAL_STACK` fails;
* `engEvalResolveExpToEvents_error_mem` — a failed evaluation says so with one of the source's texts.
-/

namespace Orrp.Query

/-- The set operation of a logical operator. -/
def LogicOp.apply : LogicOp → Finset ℕ → Finset ℕ → Finset ℕ
  | .and => (· ∩ ·)
  | .or => (· ∪ ·)

@[simp] theorem LogicOp.apply_and (x y : Finset ℕ) : LogicOp.and.apply x y = x ∩ y := rfl

@[simp] theorem LogicOp.apply_or (x y : Finset ℕ) : LogicOp.or.apply x y = x ∪ y := rfl

end Orrp.Query

namespace Orrp.Engine

open Orrp.Query Orrp.Lib

/-- `MAX_EVAL_STACK`: the number of intermediate bitmaps and of cache entries. -/
def maxEvalStack : ℕ := 128

/-- `bitmap_flip(bm, range_start, range_end)`: membership flipped on `[range_start, range_end)`. -/
def bitmapFlip (bm : Finset ℕ) (rangeStart rangeEnd : ℕ) : Finset ℕ :=
  symmDiff bm (Finset.Ico rangeStart rangeEnd)

theorem bitmapFlip_zero_of_lt {bm : Finset ℕ} {m : ℕ} (h : ∀ x ∈ bm, x < m) :
    bitmapFlip bm 0 m = Finset.range m \ bm := by
  ext x
  simp only [bitmapFlip, Finset.mem_symmDiff, Finset.mem_Ico, Finset.mem_sdiff, Finset.mem_range,
    Nat.zero_le, true_and]
  constructor
  · rintro (⟨hx, hxm⟩ | ⟨hxm, hx⟩)
    · exact absurd (h x hx) hxm
    · exact ⟨hxm, hx⟩
  · rintro ⟨hxm, hx⟩
    exact .inr ⟨hxm, hx⟩

/-- `eval_bitmap_t`: a bitmap, by its address, and whether the evaluation owns it. -/
structure EvalBitmap where
  bm : ℕ
  own : Bool
  deriving DecidableEq, Repr, Inhabited

/-- A pointer to an `eval_bitmap_t` of the state: `intermediate_bitmaps[i]` or `cache_bitmaps[i]`. -/
inductive SlotRef
  | inter (i : ℕ)
  | cache (i : ℕ)
  deriving DecidableEq, Repr

/-- `eval_state_t`, with the bitmaps its slots point to.  Entry `i` of `cacheEntries` is
`cache_entries[i].ser_db_key` with `cache_bitmaps[i]`. -/
structure EvalState where
  heap : List (Finset ℕ)
  cacheEntries : List (String × EvalBitmap)
  intermediateBitmaps : List EvalBitmap
  deriving DecidableEq

/-- What an evaluation reads: the container, the consumers' caches, the user transaction and the
index registry, as of the start of the query. -/
structure Snapshot where
  containerName : String
  /-- The consumers' cached bitmaps. -/
  bitmaps : List (Finset ℕ)
  /-- `consumer_cache_get_bm` of the consumer the key routes to: the address of its bitmap. -/
  consumerCache : String → Option ℕ
  /-- `db_get` in the user transaction, deserialized. -/
  userDb : ContainerDbKey → Option (Finset ℕ)
  /-- `key_to_index`. -/
  keyToIndex : String → Option IndexDb
  /-- The `uint32_t` stored under `USR_NEXT_EVENT_ID_KEY`, `0` when there is none. -/
  nextEventId : ℕ
  consumerCache_lt : ∀ ser a, consumerCache ser = some a → a < bitmaps.length

namespace EvalState

/-- The slot a pointer designates. -/
def slot (s : EvalState) : SlotRef → EvalBitmap
  | .inter i => s.intermediateBitmaps.getD i default
  | .cache i => (s.cacheEntries.getD i default).2

/-- The bitmap a slot points to. -/
def bitmapOf (s : EvalState) (r : SlotRef) : Finset ℕ := s.heap.getD (s.slot r).bm ∅

/-- A new bitmap at the end of the heap. -/
def alloc (s : EvalState) (bm : Finset ℕ) : EvalState := { s with heap := s.heap ++ [bm] }

/-- `_store_intermediate_bitmap`. -/
def storeIntermediateBitmap (s : EvalState) (bm : ℕ) (own : Bool) : Option (SlotRef × EvalState) :=
  if maxEvalStack ≤ s.intermediateBitmaps.length then none
  else some (.inter s.intermediateBitmaps.length,
    { s with intermediateBitmaps := s.intermediateBitmaps ++ [⟨bm, own⟩] })

/-- `_check_eval_local_cache`. -/
def checkEvalLocalCache (s : EvalState) (serDbKey : String) : Option SlotRef :=
  (s.cacheEntries.findIdx? fun e => e.1 = serDbKey).map .cache

/-- `_add_to_eval_local_cache`. -/
def addToEvalLocalCache (s : EvalState) (serDbKey : String) (bm : ℕ) (own : Bool) :
    Option (SlotRef × EvalState) :=
  if maxEvalStack ≤ s.cacheEntries.length then none
  else some (.cache s.cacheEntries.length,
    { s with cacheEntries := s.cacheEntries ++ [(serDbKey, ⟨bm, own⟩)] })

end EvalState

/-- The key of a tag in the container's inverted event index. -/
def Snapshot.tagDbKey (snap : Snapshot) (tagKey : String) : ContainerDbKey :=
  ⟨snap.containerName, .usr .invertedEventIndex, none, .str tagKey⟩

/-- `_fetch_bitmap_data`: the tag cache, then the consumer's cache (not owned), then LMDB (a new
bitmap, owned; empty when the key is absent). -/
def fetchBitmapData (snap : Snapshot) (dbKey : ContainerDbKey) (s : EvalState) :
    Option (SlotRef × EvalState) :=
  match dbKeyInto 512 dbKey with
  | none => none
  | some ser =>
    match s.checkEvalLocalCache ser with
    | some r => some (r, s)
    | none =>
      match snap.consumerCache ser with
      | some a => s.addToEvalLocalCache ser a false
      | none => (s.alloc ((snap.userDb dbKey).getD ∅)).addToEvalLocalCache ser s.heap.length true

/-- A `NULL` slot without a message. -/
def orFail : Option (SlotRef × EvalState) → Except (Option String) (SlotRef × EvalState)
  | none => .error none
  | some x => .ok x

/-- `_tag`. -/
def evalTag (snap : Snapshot) (key : TagKey) (value : Node) (s : EvalState) :
    Except (Option String) (SlotRef × EvalState) :=
  match customTagInto 512 key value with
  | none => .error (some "Failed to format tag key")
  | some tagKey => orFail (fetchBitmapData snap (snap.tagDbKey tagKey) s)

/-- `_not`: the flip of `[0, max_event_id)` as a new owned intermediate bitmap. -/
def evalNot (snap : Snapshot) (operand : SlotRef) (s : EvalState) : Option (SlotRef × EvalState) :=
  (s.alloc (bitmapFlip (s.bitmapOf operand) 0 snap.nextEventId)).storeIntermediateBitmap
    s.heap.length true

/-- `_and` and `_or` for the bitmap operation `f`: in place into the left operand if owned, else
into the right one if owned, else into a new intermediate bitmap. -/
def evalCombine (f : Finset ℕ → Finset ℕ → Finset ℕ) (left right : SlotRef) (s : EvalState) :
    Option (SlotRef × EvalState) :=
  let l := s.slot left
  let r := s.slot right
  if l.own then
    some (left, { s with heap := s.heap.set l.bm (f (s.bitmapOf left) (s.bitmapOf right)) })
  else if r.own then
    some (right, { s with heap := s.heap.set r.bm (f (s.bitmapOf right) (s.bitmapOf left)) })
  else (s.alloc (f (s.bitmapOf left) (s.bitmapOf right))).storeIntermediateBitmap s.heap.length true

/-- `_and`. -/
def evalAnd (left right : SlotRef) (s : EvalState) : Option (SlotRef × EvalState) :=
  evalCombine (· ∩ ·) left right s

/-- `_or`. -/
def evalOr (left right : SlotRef) (s : EvalState) : Option (SlotRef × EvalState) :=
  evalCombine (· ∪ ·) left right s

/-- The operator switch of `_eval`'s logical case. -/
def evalLogical : LogicOp → SlotRef → SlotRef → EvalState → Option (SlotRef × EvalState)
  | .and => evalAnd
  | .or => evalOr

/-- `_compare`, with its bitmap stored as an owned intermediate bitmap. -/
def evalCompare (snap : Snapshot) (op : CompOp) (left right : Node) (s : EvalState) :
    Except (Option String) (SlotRef × EvalState) :=
  match compare snap.keyToIndex op left right with
  | .error e => .error e
  | .ok bm => orFail ((s.alloc bm).storeIntermediateBitmap s.heap.length true)

/-- `_eval`. -/
def eval (snap : Snapshot) : Node → EvalState → Except (Option String) (SlotRef × EvalState)
  | .not a, s =>
    match eval snap a s with
    | .error e => .error e
    | .ok (r, s) => orFail (evalNot snap r s)
  | .logical op a b, s =>
    match eval snap a s with
    | .error e => .error e
    | .ok (ra, s) =>
      match eval snap b s with
      | .error e => .error e
      | .ok (rb, s) => orFail (evalLogical op ra rb s)
  | .tag k v, s => evalTag snap k v s
  | .comparison op l r, s => evalCompare snap op l r s
  | .literal _, _ => .error (some "Invalid node type")

/-- The state a query starts from (`eval_state_t state = {0}`). -/
def Snapshot.initState (snap : Snapshot) : EvalState := ⟨snap.bitmaps, [], []⟩

/-- `eng_eval_resolve_exp_to_events`: the bitmap of the returned slot, taken over or copied. -/
def engEvalResolveExpToEvents (snap : Snapshot) (exp : Node) : Except String (Finset ℕ) :=
  match eval snap exp snap.initState with
  | .ok (r, s) => .ok (s.bitmapOf r)
  | .error msg => .error (msg.getD "Evaluation failed")

/-! ## What an expression means -/

/-- The serialized key a tag is cached and routed under. -/
def Snapshot.serKey (snap : Snapshot) (key : TagKey) (value : Node) : Option String :=
  (customTagInto 512 key value).bind fun tagKey => dbKeyInto 512 (snap.tagDbKey tagKey)

/-- The bitmap of a tag: its consumer's cached bitmap when there is one, else the inverted index in
LMDB, empty when the key is absent. -/
def Snapshot.index (snap : Snapshot) (key : TagKey) (value : Node) : Option (Finset ℕ) :=
  match customTagInto 512 key value with
  | none => none
  | some tagKey =>
    (dbKeyInto 512 (snap.tagDbKey tagKey)).map fun ser =>
      match snap.consumerCache ser with
      | some a => snap.bitmaps.getD a ∅
      | none => (snap.userDb (snap.tagDbKey tagKey)).getD ∅

/-- `[[e]]`: tags by `Snapshot.index`, comparisons by `_compare`, `AND`/`OR` as intersection and
union, `NOT` as the flip of `[0, m)` for the stored counter `m`. -/
def Snapshot.denote (snap : Snapshot) : Node → Option (Finset ℕ)
  | .tag k v => snap.index k v
  | .comparison op l r => (compare snap.keyToIndex op l r).toOption
  | .logical op a b => (snap.denote a).bind fun x => (snap.denote b).map (op.apply x)
  | .not a => (snap.denote a).map fun x => bitmapFlip x 0 snap.nextEventId
  | .literal _ => none

/-- Whether `_eval` returns a slot it owns: all but a tag served from a consumer's cache. -/
def Snapshot.owned (snap : Snapshot) : Node → Bool
  | .tag k v =>
    match snap.serKey k v with
    | some ser => (snap.consumerCache ser).isNone
    | none => true
  | _ => true

/-- The intermediate bitmaps `_eval` stores: one per comparison and `NOT`, and one per `AND`/`OR`
neither of whose operands it owns. -/
def Snapshot.intermediateNeed (snap : Snapshot) : Node → ℕ
  | .not a => snap.intermediateNeed a + 1
  | .logical _ a b =>
    snap.intermediateNeed a + snap.intermediateNeed b +
      if snap.owned a || snap.owned b then 0 else 1
  | .comparison .. => 1
  | _ => 0

/-- The serialized keys of the tags, in evaluation order. -/
def Snapshot.tagKeys (snap : Snapshot) : Node → List String
  | .tag k v => (snap.serKey k v).toList
  | .logical _ a b => snap.tagKeys a ++ snap.tagKeys b
  | .not a => snap.tagKeys a
  | _ => []

/-! ## Slots and the states that keep them -/

namespace EvalState

/-- A pointer to an existing slot. -/
def Valid (s : EvalState) : SlotRef → Prop
  | .inter i => i < s.intermediateBitmaps.length
  | .cache i => i < s.cacheEntries.length

/-- `s'` keeps every bitmap, cache slot and intermediate slot of `s`. -/
structure Extends (s s' : EvalState) : Prop where
  heap : s.heap <+: s'.heap
  cache : s.cacheEntries <+: s'.cacheEntries
  inter : s.intermediateBitmaps <+: s'.intermediateBitmaps

variable {s s' s'' : EvalState} {r : SlotRef}

theorem Extends.refl (s : EvalState) : s.Extends s := ⟨List.prefix_refl _, List.prefix_refl _, List.prefix_refl _⟩

theorem Extends.trans (h : s.Extends s') (h' : s'.Extends s'') : s.Extends s'' :=
  ⟨h.heap.trans h'.heap, h.cache.trans h'.cache, h.inter.trans h'.inter⟩

theorem Extends.valid (h : s.Extends s') (hr : s.Valid r) : s'.Valid r := by
  cases r with
  | inter i => exact lt_of_lt_of_le hr h.inter.length_le
  | cache i => exact lt_of_lt_of_le hr h.cache.length_le

theorem Extends.slot_eq (h : s.Extends s') (hr : s.Valid r) : s'.slot r = s.slot r := by
  cases r with
  | inter i => exact getD_of_prefix h.inter hr
  | cache i => exact congrArg Prod.snd <| getD_of_prefix h.cache hr

theorem Extends.bitmapOf_eq (h : s.Extends s') (hr : s.Valid r) (hb : (s.slot r).bm < s.heap.length) :
    s'.bitmapOf r = s.bitmapOf r := by
  rw [bitmapOf, h.slot_eq hr, getD_of_prefix h.heap hb, bitmapOf]

theorem Extends.set (h : s.Extends s') {a : ℕ} (ha : s.heap.length ≤ a) (bm : Finset ℕ) :
    s.Extends { s' with heap := s'.heap.set a bm } :=
  ⟨prefix_set_of_le h.heap ha, h.cache, h.inter⟩

@[simp] theorem alloc_heap (s : EvalState) (bm : Finset ℕ) : (s.alloc bm).heap = s.heap ++ [bm] :=
  rfl

@[simp] theorem alloc_cacheEntries (s : EvalState) (bm : Finset ℕ) :
    (s.alloc bm).cacheEntries = s.cacheEntries := rfl

@[simp] theorem alloc_intermediateBitmaps (s : EvalState) (bm : Finset ℕ) :
    (s.alloc bm).intermediateBitmaps = s.intermediateBitmaps := rfl

theorem storeIntermediateBitmap_of_ge (h : maxEvalStack ≤ s.intermediateBitmaps.length) (bm : ℕ)
    (own : Bool) : s.storeIntermediateBitmap bm own = none := by
  rw [storeIntermediateBitmap, if_pos h]

theorem storeIntermediateBitmap_of_lt (h : s.intermediateBitmaps.length < maxEvalStack) (bm : ℕ)
    (own : Bool) :
    s.storeIntermediateBitmap bm own = some (.inter s.intermediateBitmaps.length,
      { s with intermediateBitmaps := s.intermediateBitmaps ++ [⟨bm, own⟩] }) := by
  rw [storeIntermediateBitmap, if_neg (not_le.2 h)]

theorem addToEvalLocalCache_of_lt (h : s.cacheEntries.length < maxEvalStack) (ser : String)
    (bm : ℕ) (own : Bool) :
    s.addToEvalLocalCache ser bm own = some (.cache s.cacheEntries.length,
      { s with cacheEntries := s.cacheEntries ++ [(ser, ⟨bm, own⟩)] }) := by
  rw [addToEvalLocalCache, if_neg (not_le.2 h)]

theorem checkEvalLocalCache_eq_none {ser : String} (h : ser ∉ s.cacheEntries.map Prod.fst) :
    s.checkEvalLocalCache ser = none := by
  rw [checkEvalLocalCache, Option.map_eq_none_iff, List.findIdx?_eq_none_iff]
  intro x hx
  exact decide_eq_false fun hser => h (List.mem_map.2 ⟨x, hx, hser⟩)

end EvalState

theorem Snapshot.index_eq_some {snap : Snapshot} {k : TagKey} {v : Node} {d : Finset ℕ}
    (h : snap.index k v = some d) :
    ∃ tk ser, customTagInto 512 k v = some tk ∧ dbKeyInto 512 (snap.tagDbKey tk) = some ser ∧
      d = match snap.consumerCache ser with
        | some a => snap.bitmaps.getD a ∅
        | none => (snap.userDb (snap.tagDbKey tk)).getD ∅ := by
  unfold Snapshot.index at h
  cases htk : customTagInto 512 k v with
  | none => simp [htk] at h
  | some tk =>
    simp only [htk, Option.map_eq_some_iff] at h
    obtain ⟨ser, hser, hd⟩ := h
    exact ⟨tk, ser, rfl, hser, hd.symm⟩

/-! ## The three paths of `_tag` -/

section Tag

variable {snap : Snapshot} {s : EvalState} {k : TagKey} {v : Node} {tk ser : String}

theorem evalTag_of_cached (htk : customTagInto 512 k v = some tk)
    (hser : dbKeyInto 512 (snap.tagDbKey tk) = some ser) {r : SlotRef}
    (hhit : s.checkEvalLocalCache ser = some r) : evalTag snap k v s = .ok (r, s) := by
  simp only [evalTag, htk, fetchBitmapData, hser, hhit, orFail]

theorem evalTag_of_consumer (htk : customTagInto 512 k v = some tk)
    (hser : dbKeyInto 512 (snap.tagDbKey tk) = some ser) (hmiss : s.checkEvalLocalCache ser = none)
    {a : ℕ} (hc : snap.consumerCache ser = some a) (hlt : s.cacheEntries.length < maxEvalStack) :
    evalTag snap k v s = .ok (.cache s.cacheEntries.length,
      ⟨s.heap, s.cacheEntries ++ [(ser, ⟨a, false⟩)], s.intermediateBitmaps⟩) := by
  simp only [evalTag, htk, fetchBitmapData, hser, hmiss, hc,
    EvalState.addToEvalLocalCache_of_lt hlt, orFail]

theorem evalTag_of_lmdb (htk : customTagInto 512 k v = some tk)
    (hser : dbKeyInto 512 (snap.tagDbKey tk) = some ser) (hmiss : s.checkEvalLocalCache ser = none)
    (hc : snap.consumerCache ser = none) (hlt : s.cacheEntries.length < maxEvalStack) :
    evalTag snap k v s = .ok (.cache s.cacheEntries.length,
      ⟨s.heap ++ [(snap.userDb (snap.tagDbKey tk)).getD ∅],
        s.cacheEntries ++ [(ser, ⟨s.heap.length, true⟩)], s.intermediateBitmaps⟩) := by
  simp only [evalTag, htk, fetchBitmapData, hser, hmiss, hc,
    EvalState.addToEvalLocalCache_of_lt (s := s.alloc _) hlt, orFail]
  rfl

end Tag

/-! ## One step of `_eval` -/

/-- What `_eval` of an expression meaning `d` guarantees, run from `s` to `s'` returning `r`: the
state grows by the expression's intermediate bitmaps and cache entries, the slot holds `d`, and
an owned slot points to a bitmap allocated by this run, an unowned one to a consumer's bitmap. -/
structure EvalPost (snap : Snapshot) (e : Node) (d : Finset ℕ) (s s' : EvalState) (r : SlotRef) :
    Prop where
  ext : s.Extends s'
  interCount :
    s'.intermediateBitmaps.length = s.intermediateBitmaps.length + snap.intermediateNeed e
  cacheKeys : s'.cacheEntries.map Prod.fst = s.cacheEntries.map Prod.fst ++ snap.tagKeys e
  valid : s'.Valid r
  value : s'.bitmapOf r = d
  own : (s'.slot r).own = snap.owned e
  fresh : (s'.slot r).own = true → s.heap.length ≤ (s'.slot r).bm ∧ (s'.slot r).bm < s'.heap.length
  shared : (s'.slot r).own = false → (s'.slot r).bm < snap.bitmaps.length

section Steps

variable {snap : Snapshot} {e : Node} {s₀ s : EvalState}

theorem evalPost_storeNew (hext : s₀.Extends s)
    (hcount : s.intermediateBitmaps.length + 1 =
      s₀.intermediateBitmaps.length + snap.intermediateNeed e)
    (hkeys : s.cacheEntries.map Prod.fst = s₀.cacheEntries.map Prod.fst ++ snap.tagKeys e)
    (hown : snap.owned e = true) (hroom : s.intermediateBitmaps.length < maxEvalStack)
    (bm : Finset ℕ) :
    ∃ s', (s.alloc bm).storeIntermediateBitmap s.heap.length true =
        some (.inter s.intermediateBitmaps.length, s') ∧
      EvalPost snap e bm s₀ s' (.inter s.intermediateBitmaps.length) := by
  refine ⟨⟨s.heap ++ [bm], s.cacheEntries, s.intermediateBitmaps ++ [⟨s.heap.length, true⟩]⟩,
    by rw [EvalState.storeIntermediateBitmap_of_lt (s := s.alloc bm) hroom]; rfl, ?_⟩
  have hslot : EvalState.slot ⟨s.heap ++ [bm], s.cacheEntries,
      s.intermediateBitmaps ++ [⟨s.heap.length, true⟩]⟩ (.inter s.intermediateBitmaps.length) =
      ⟨s.heap.length, true⟩ := getD_append_length
  refine ⟨?_, ?_, hkeys, ?_, ?_, ?_, ?_, ?_⟩
  · exact hext.trans ⟨List.prefix_append _ _, List.prefix_refl _, List.prefix_append _ _⟩
  · simpa using hcount
  · show s.intermediateBitmaps.length < (s.intermediateBitmaps ++ _).length
    simp
  · rw [EvalState.bitmapOf, hslot]
    exact getD_append_length
  · rw [hslot, hown]
  · intro _
    rw [hslot]
    simpa using hext.heap.length_le
  · intro h
    rw [hslot] at h
    cases h

theorem evalPost_setOwned {d : Finset ℕ} {r : SlotRef} (hext : s₀.Extends s) (hvalid : s.Valid r)
    (hown : (s.slot r).own = true) (hfresh : s₀.heap.length ≤ (s.slot r).bm)
    (hlt : (s.slot r).bm < s.heap.length)
    (hcount : s.intermediateBitmaps.length =
      s₀.intermediateBitmaps.length + snap.intermediateNeed e)
    (hkeys : s.cacheEntries.map Prod.fst = s₀.cacheEntries.map Prod.fst ++ snap.tagKeys e)
    (howned : snap.owned e = true) :
    EvalPost snap e d s₀ { s with heap := s.heap.set (s.slot r).bm d } r := by
  have hslot : EvalState.slot { s with heap := s.heap.set (s.slot r).bm d } r = s.slot r := rfl
  refine ⟨hext.set hfresh d, hcount, hkeys, hvalid, ?_, ?_, ?_, ?_⟩
  · rw [EvalState.bitmapOf, hslot]
    exact getD_set_self hlt
  · rw [hslot, hown, howned]
  · intro _
    rw [hslot]
    exact ⟨hfresh, by simpa using hlt⟩
  · intro h
    rw [hslot, hown] at h
    cases h

theorem evalPost_cacheNew {k : TagKey} {v : Node} {d : Finset ℕ} {ser : String}
    {heap : List (Finset ℕ)} {slot : EvalBitmap} (hheap : s.heap <+: heap)
    (hkeys : snap.tagKeys (.tag k v) = [ser]) (hval : heap.getD slot.bm ∅ = d)
    (hown : slot.own = snap.owned (.tag k v))
    (hfresh : slot.own = true → s.heap.length ≤ slot.bm ∧ slot.bm < heap.length)
    (hshared : slot.own = false → slot.bm < snap.bitmaps.length) :
    EvalPost snap (.tag k v) d s ⟨heap, s.cacheEntries ++ [(ser, slot)], s.intermediateBitmaps⟩
      (.cache s.cacheEntries.length) := by
  have hslot : EvalState.slot ⟨heap, s.cacheEntries ++ [(ser, slot)], s.intermediateBitmaps⟩
      (.cache s.cacheEntries.length) = slot := congrArg Prod.snd getD_append_length
  refine ⟨⟨hheap, List.prefix_append _ _, List.prefix_refl _⟩, by simp [Snapshot.intermediateNeed],
    by simp [hkeys], ?_, ?_, ?_, ?_, ?_⟩
  · show s.cacheEntries.length < (s.cacheEntries ++ _).length
    simp
  · rw [EvalState.bitmapOf, hslot, hval]
  · rw [hslot, hown]
  · rw [hslot]
    exact hfresh
  · rw [hslot]
    exact hshared

theorem evalPost_tag {k : TagKey} {v : Node} {d : Finset ℕ} (hd : snap.index k v = some d)
    (hbase : snap.bitmaps <+: s.heap)
    (hfresh : ∀ ser ∈ snap.tagKeys (.tag k v), ser ∉ s.cacheEntries.map Prod.fst)
    (hroom : s.cacheEntries.length + (snap.tagKeys (.tag k v)).length ≤ maxEvalStack) :
    ∃ r s', evalTag snap k v s = .ok (r, s') ∧ EvalPost snap (.tag k v) d s s' r := by
  obtain ⟨tk, ser, htk, hser, rfl⟩ := snap.index_eq_some hd
  have hserKey : snap.serKey k v = some ser := by simp [Snapshot.serKey, htk, hser]
  have hkeys : snap.tagKeys (.tag k v) = [ser] := by simp [Snapshot.tagKeys, hserKey]
  rw [hkeys] at hfresh hroom
  have hmiss := EvalState.checkEvalLocalCache_eq_none (hfresh ser List.mem_cons_self)
  have hlt : s.cacheEntries.length < maxEvalStack := by
    simp only [List.length_singleton] at hroom
    omega
  cases hc : snap.consumerCache ser with
  | some a =>
    have ha := snap.consumerCache_lt ser a hc
    refine ⟨_, _, evalTag_of_consumer htk hser hmiss hc hlt,
      evalPost_cacheNew (List.prefix_refl _) hkeys ?_ ?_ (fun h => by cases h) fun _ => ha⟩
    · exact getD_of_prefix hbase ha
    · simp [Snapshot.owned, hserKey, hc]
  | none =>
    refine ⟨_, _, evalTag_of_lmdb htk hser hmiss hc hlt,
      evalPost_cacheNew (List.prefix_append _ _) hkeys getD_append_length ?_ ?_ (fun h => by cases h)⟩
    · simp [Snapshot.owned, hserKey, hc]
    · intro _
      simp

theorem LogicOp.apply_comm (op : LogicOp) (x y : Finset ℕ) : op.apply x y = op.apply y x := by
  cases op
  · exact Finset.inter_comm x y
  · exact Finset.union_comm x y

theorem evalLogical_eq (op : LogicOp) : evalLogical op = evalCombine op.apply := by
  cases op <;> rfl

theorem evalPost_logical {op : LogicOp} {a b : Node} {da db : Finset ℕ} {s₁ s₂ : EvalState}
    {ra rb : SlotRef} (hbase : snap.bitmaps <+: s.heap) (ha : EvalPost snap a da s s₁ ra)
    (hb : EvalPost snap b db s₁ s₂ rb)
    (hroom : s.intermediateBitmaps.length + snap.intermediateNeed (.logical op a b) ≤ maxEvalStack) :
    ∃ r s₃, evalCombine op.apply ra rb s₂ = some (r, s₃) ∧
      EvalPost snap (.logical op a b) (op.apply da db) s s₃ r := by
  have hext := ha.ext.trans hb.ext
  have hslota : s₂.slot ra = s₁.slot ra := hb.ext.slot_eq ha.valid
  have hbma : (s₁.slot ra).bm < s₁.heap.length := by
    cases hown : (s₁.slot ra).own
    · exact lt_of_lt_of_le (ha.shared hown) (hbase.trans ha.ext.heap).length_le
    · exact (ha.fresh hown).2
  have hva : s₂.bitmapOf ra = da := (hb.ext.bitmapOf_eq ha.valid hbma).trans ha.value
  have hcount : s₂.intermediateBitmaps.length =
      s.intermediateBitmaps.length + snap.intermediateNeed a + snap.intermediateNeed b := by
    rw [hb.interCount, ha.interCount]
  have hkeys : s₂.cacheEntries.map Prod.fst =
      s.cacheEntries.map Prod.fst ++ snap.tagKeys (.logical op a b) := by
    rw [hb.cacheKeys, ha.cacheKeys, Snapshot.tagKeys, List.append_assoc]
  have hneed : snap.intermediateNeed (.logical op a b) = snap.intermediateNeed a +
      snap.intermediateNeed b + if snap.owned a || snap.owned b then 0 else 1 := rfl
  unfold evalCombine
  by_cases hla : (s₂.slot ra).own = true
  · -- in place into the left operand
    have hoa : snap.owned a = true := by rw [← ha.own, ← hslota, hla]
    refine ⟨ra, { s₂ with
      heap := s₂.heap.set (s₂.slot ra).bm (op.apply (s₂.bitmapOf ra) (s₂.bitmapOf rb)) },
      by simp only [hla, if_true], ?_⟩
    rw [hva, hb.value]
    refine evalPost_setOwned hext (hb.ext.valid ha.valid) hla ?_ (hslota ▸ hbma.trans_le
      hb.ext.heap.length_le) (by rw [hcount, hneed, hoa, Bool.true_or, if_pos rfl]; omega) hkeys rfl
    rw [hslota]
    exact (ha.fresh (hslota ▸ hla)).1
  · by_cases hlb : (s₂.slot rb).own = true
    · -- in place into the right operand
      have hob : snap.owned b = true := by rw [← hb.own, hlb]
      refine ⟨rb, { s₂ with
        heap := s₂.heap.set (s₂.slot rb).bm (op.apply (s₂.bitmapOf rb) (s₂.bitmapOf ra)) },
        by simp [hla, hlb], ?_⟩
      rw [hva, hb.value, LogicOp.apply_comm]
      refine evalPost_setOwned hext hb.valid hlb ?_ (hb.fresh hlb).2
        (by rw [hcount, hneed, hob, Bool.or_true, if_pos rfl]; omega) hkeys rfl
      exact ha.ext.heap.length_le.trans (hb.fresh hlb).1
    · -- neither is owned: a new intermediate bitmap
      have hoa : snap.owned a = false := by
        rw [← ha.own, ← hslota]
        simpa using hla
      have hob : snap.owned b = false := by
        rw [← hb.own]
        simpa using hlb
      have hroom' : s₂.intermediateBitmaps.length < maxEvalStack := by
        rw [hneed, hoa, hob] at hroom
        simp only [Bool.or_false, Bool.false_eq_true, if_false] at hroom
        omega
      obtain ⟨s₃, hstore, hpost⟩ := evalPost_storeNew (e := .logical op a b) hext
        (by rw [hcount, hneed, hoa, hob]; simp; omega) hkeys rfl hroom'
        (op.apply (s₂.bitmapOf ra) (s₂.bitmapOf rb))
      refine ⟨_, s₃, by simp only [hla, hlb, Bool.false_eq_true, if_false]; exact hstore, ?_⟩
      rwa [hva, hb.value] at hpost

end Steps

/-! ## A whole evaluation -/

/-- A state `_eval` of `e` can start from: it still holds the consumers' bitmaps, has not cached
any tag of `e`, and has room for the intermediate bitmaps and cache entries `e` takes. -/
structure EvalPre (snap : Snapshot) (e : Node) (s : EvalState) : Prop where
  base : snap.bitmaps <+: s.heap
  keysNodup : (snap.tagKeys e).Nodup
  keysFresh : ∀ k ∈ snap.tagKeys e, k ∉ s.cacheEntries.map Prod.fst
  interRoom : s.intermediateBitmaps.length + snap.intermediateNeed e ≤ maxEvalStack
  cacheRoom : s.cacheEntries.length + (snap.tagKeys e).length ≤ maxEvalStack

namespace EvalPre

variable {snap : Snapshot} {s : EvalState}

theorem of_not {a : Node} (h : EvalPre snap (.not a) s) : EvalPre snap a s :=
  ⟨h.base, h.keysNodup, h.keysFresh, by have := h.interRoom; simp [Snapshot.intermediateNeed] at this; omega,
    h.cacheRoom⟩

theorem left {op : LogicOp} {a b : Node} (h : EvalPre snap (.logical op a b) s) :
    EvalPre snap a s := by
  have hnodup := h.keysNodup
  have hroom := h.interRoom
  have hcache := h.cacheRoom
  simp only [Snapshot.tagKeys, List.nodup_append, List.length_append] at hnodup hcache
  simp only [Snapshot.intermediateNeed] at hroom
  exact ⟨h.base, hnodup.1, fun k hk => h.keysFresh k (List.mem_append_left _ hk), by omega,
    by omega⟩

theorem right {op : LogicOp} {a b : Node} {da : Finset ℕ} {s₁ : EvalState} {ra : SlotRef}
    (h : EvalPre snap (.logical op a b) s) (ha : EvalPost snap a da s s₁ ra) :
    EvalPre snap b s₁ := by
  have hnodup := h.keysNodup
  have hroom := h.interRoom
  have hcache := h.cacheRoom
  simp only [Snapshot.tagKeys, List.nodup_append, List.length_append] at hnodup hcache
  simp only [Snapshot.intermediateNeed] at hroom
  have hlen : s₁.cacheEntries.length = s.cacheEntries.length + (snap.tagKeys a).length := by
    simpa using congrArg List.length ha.cacheKeys
  refine ⟨h.base.trans ha.ext.heap, hnodup.2.1, fun k hk hk₁ => ?_, by rw [ha.interCount]; omega,
    by omega⟩
  rw [ha.cacheKeys, List.mem_append] at hk₁
  rcases hk₁ with hk₁ | hk₁
  · exact h.keysFresh k (List.mem_append_right _ hk) hk₁
  · exact hnodup.2.2 k hk₁ k hk rfl

end EvalPre

/-- **`_eval` computes the meaning.**  From a state that has room for it and has cached none of
its tags, `_eval` of an expression with pairwise distinct tag keys succeeds with a slot holding
`[[e]]`, and writes only bitmaps it allocated. -/
theorem eval_spec {snap : Snapshot} {e : Node} {d : Finset ℕ} {s : EvalState}
    (hd : snap.denote e = some d) (hpre : EvalPre snap e s) :
    ∃ r s', eval snap e s = .ok (r, s') ∧ EvalPost snap e d s s' r := by
  induction e generalizing d s with
  | tag k v => exact evalPost_tag hd hpre.base hpre.keysFresh hpre.cacheRoom
  | literal l => cases hd
  | comparison op l r =>
    have hc : compare snap.keyToIndex op l r = .ok d := by
      simp only [Snapshot.denote] at hd
      cases hcmp : compare snap.keyToIndex op l r <;> simp_all [Except.toOption]
    have hroom := hpre.interRoom
    simp only [Snapshot.intermediateNeed] at hroom
    obtain ⟨s', hstore, hpost⟩ := evalPost_storeNew (e := .comparison op l r)
      (EvalState.Extends.refl s) rfl (by simp [Snapshot.tagKeys]) rfl (by omega) d
    exact ⟨_, s', by simp only [eval, evalCompare, hc, hstore, orFail], hpost⟩
  | logical op a b iha ihb =>
    simp only [Snapshot.denote, Option.bind_eq_some_iff, Option.map_eq_some_iff] at hd
    obtain ⟨da, hda, db, hdb, rfl⟩ := hd
    obtain ⟨ra, s₁, hea, ha⟩ := iha hda hpre.left
    obtain ⟨rb, s₂, heb, hb⟩ := ihb hdb (hpre.right ha)
    obtain ⟨r, s₃, hc, hpost⟩ := evalPost_logical hpre.base ha hb hpre.interRoom
    refine ⟨r, s₃, ?_, hpost⟩
    simp only [eval, hea, heb, evalLogical_eq, hc, orFail]
  | not a ih =>
    simp only [Snapshot.denote, Option.map_eq_some_iff] at hd
    obtain ⟨da, hda, rfl⟩ := hd
    obtain ⟨ra, s₁, hea, ha⟩ := ih hda hpre.of_not
    have hroom := hpre.interRoom
    simp only [Snapshot.intermediateNeed] at hroom
    obtain ⟨s₂, hstore, hpost⟩ := evalPost_storeNew (e := .not a) ha.ext
      (by rw [ha.interCount]; rfl) (by rw [ha.cacheKeys]; rfl) rfl (by rw [ha.interCount]; omega)
      (bitmapFlip (s₁.bitmapOf ra) 0 snap.nextEventId)
    refine ⟨.inter s₁.intermediateBitmaps.length, s₂,
      by simp only [eval, hea, evalNot, hstore, orFail], ?_⟩
    rwa [ha.value] at hpost

theorem evalPre_initState {snap : Snapshot} {e : Node} (hnodup : (snap.tagKeys e).Nodup)
    (hinter : snap.intermediateNeed e ≤ maxEvalStack)
    (hcache : (snap.tagKeys e).length ≤ maxEvalStack) : EvalPre snap e snap.initState :=
  ⟨List.prefix_refl _, hnodup, fun _ _ hk => by simp [Snapshot.initState] at hk,
    by simpa [Snapshot.initState] using hinter, by simpa [Snapshot.initState] using hcache⟩

/-- **`eng_eval_resolve_exp_to_events` returns the meaning** of every expression whose tags have
pairwise distinct keys, at most `MAX_EVAL_STACK` of them, and that needs at most
`MAX_EVAL_STACK` intermediate bitmaps. -/
theorem engEvalResolveExpToEvents_eq_denote {snap : Snapshot} {e : Node} {d : Finset ℕ}
    (hd : snap.denote e = some d) (hnodup : (snap.tagKeys e).Nodup)
    (hinter : snap.intermediateNeed e ≤ maxEvalStack)
    (hcache : (snap.tagKeys e).length ≤ maxEvalStack) :
    engEvalResolveExpToEvents snap e = .ok d := by
  obtain ⟨r, s', he, hpost⟩ := eval_spec hd (evalPre_initState hnodup hinter hcache)
  simp only [engEvalResolveExpToEvents, he, hpost.value]

/-- A container `c` whose consumer caches the bitmap `{1, 2}` of `a:x`, whose inverted index holds
`{2, 3}` under `b:y`, and whose counter is `4`. -/
def sampleSnapshot : Snapshot where
  containerName := "c"
  bitmaps := [{1, 2}]
  consumerCache ser := if ser = "c|0|a:x" then some 0 else none
  userDb k := if k = ⟨"c", .usr .invertedEventIndex, none, .str "b:y"⟩ then some {2, 3} else none
  keyToIndex _ := none
  nextEventId := 4
  consumerCache_lt ser a h := by
    by_cases hs : ser = "c|0|a:x"
    · rw [if_pos hs, Option.some_inj] at h
      rw [← h]
      decide
    · rw [if_neg hs] at h
      cases h

/-- `a:"x" AND NOT b:"y"`. -/
def sampleExp : Node :=
  .logical .and (.strTag "a" "x") (.not (.strTag "b" "y"))

theorem engEvalResolveExpToEvents_sampleExp :
    sampleSnapshot.denote sampleExp = some {1} ∧ (sampleSnapshot.tagKeys sampleExp).Nodup ∧
      sampleSnapshot.intermediateNeed sampleExp ≤ maxEvalStack ∧
      (sampleSnapshot.tagKeys sampleExp).length ≤ maxEvalStack ∧
      engEvalResolveExpToEvents sampleSnapshot sampleExp = .ok {1} := by
  have hd : sampleSnapshot.denote sampleExp = some {1} := by decide
  have hnodup : (sampleSnapshot.tagKeys sampleExp).Nodup := by decide
  have hinter : sampleSnapshot.intermediateNeed sampleExp ≤ maxEvalStack := by decide
  have hcache : (sampleSnapshot.tagKeys sampleExp).length ≤ maxEvalStack := by decide
  exact ⟨hd, hnodup, hinter, hcache, engEvalResolveExpToEvents_eq_denote hd hnodup hinter hcache⟩

/-! ## A tag read twice -/

section Repeated

variable {snap : Snapshot} {ka kb : TagKey} {va vb : Node} {tka tkb sa sb : String}

theorem evalCombine_of_own_left {f : Finset ℕ → Finset ℕ → Finset ℕ} {l r : SlotRef}
    {s : EvalState} (h : (s.slot l).own = true) :
    evalCombine f l r s =
      some (l, { s with heap := s.heap.set (s.slot l).bm (f (s.bitmapOf l) (s.bitmapOf r)) }) := by
  simp [evalCombine, h]

/-- **A repeated tag reads back an operand `_and` wrote.**  In `(a AND b) OR a` over two tags read
from LMDB, `_and` intersects in place into the bitmap the tag cache holds for `a`, so the second
`a` is a cache hit on `[[a]] ∩ [[b]]` and the result is `[[a]] ∩ [[b]]` where `[[e]]` is `[[a]]`. -/
theorem engEvalResolveExpToEvents_repeatedTag
    (hta : customTagInto 512 ka va = some tka) (hsa : dbKeyInto 512 (snap.tagDbKey tka) = some sa)
    (hca : snap.consumerCache sa = none) (htb : customTagInto 512 kb vb = some tkb)
    (hsb : dbKeyInto 512 (snap.tagDbKey tkb) = some sb) (hcb : snap.consumerCache sb = none)
    (hab : sa ≠ sb) :
    snap.denote (.logical .or (.logical .and (.tag ka va) (.tag kb vb)) (.tag ka va)) =
        some ((snap.userDb (snap.tagDbKey tka)).getD ∅) ∧
      engEvalResolveExpToEvents snap
        (.logical .or (.logical .and (.tag ka va) (.tag kb vb)) (.tag ka va)) =
      .ok ((snap.userDb (snap.tagDbKey tka)).getD ∅ ∩ (snap.userDb (snap.tagDbKey tkb)).getD ∅) := by
  set A := (snap.userDb (snap.tagDbKey tka)).getD ∅
  set B := (snap.userDb (snap.tagDbKey tkb)).getD ∅
  set n := snap.bitmaps.length
  refine ⟨by simp [Snapshot.denote, Snapshot.index, hta, hsa, hca, htb, hsb, hcb, A], ?_⟩
  have h₁ : evalTag snap ka va snap.initState =
      .ok (.cache 0, ⟨snap.bitmaps ++ [A], [(sa, ⟨n, true⟩)], []⟩) :=
    evalTag_of_lmdb hta hsa rfl hca (by simp [Snapshot.initState, maxEvalStack])
  have hmiss : EvalState.checkEvalLocalCache ⟨snap.bitmaps ++ [A], [(sa, ⟨n, true⟩)], []⟩ sb =
      none := by
    simp [EvalState.checkEvalLocalCache, List.findIdx?_cons, hab]
  have h₂ : evalTag snap kb vb ⟨snap.bitmaps ++ [A], [(sa, ⟨n, true⟩)], []⟩ =
      .ok (.cache 1, ⟨snap.bitmaps ++ [A] ++ [B], [(sa, ⟨n, true⟩), (sb, ⟨n + 1, true⟩)], []⟩) := by
    refine (evalTag_of_lmdb htb hsb hmiss hcb (by simp [maxEvalStack])).trans ?_
    simp [n]
    rfl
  -- `_and` owns `a`'s cached bitmap and intersects into it
  have hA : (snap.bitmaps ++ [A] ++ [B]).getD n ∅ = A := by
    rw [List.getD_append _ _ _ _ (by simp [n]), getD_append_length]
  have hB : (snap.bitmaps ++ [A] ++ [B]).getD (n + 1) ∅ = B := by
    have : (snap.bitmaps ++ [A] ++ [B]).getD (snap.bitmaps ++ [A]).length ∅ = B :=
      getD_append_length
    simp only [List.length_append, List.length_singleton] at this
    exact this
  have h₃ : evalCombine LogicOp.and.apply (.cache 0) (.cache 1)
      ⟨snap.bitmaps ++ [A] ++ [B], [(sa, ⟨n, true⟩), (sb, ⟨n + 1, true⟩)], []⟩ =
      some (.cache 0, ⟨(snap.bitmaps ++ [A] ++ [B]).set n (A ∩ B),
        [(sa, ⟨n, true⟩), (sb, ⟨n + 1, true⟩)], []⟩) := by
    rw [evalCombine_of_own_left rfl]
    simp only [EvalState.bitmapOf, EvalState.slot, List.getD_cons_zero, List.getD_cons_succ, hA, hB]
    rfl
  -- the second `a` is a cache hit on that same slot
  have h₄ : evalTag snap ka va ⟨(snap.bitmaps ++ [A] ++ [B]).set n (A ∩ B),
      [(sa, ⟨n, true⟩), (sb, ⟨n + 1, true⟩)], []⟩ = .ok (.cache 0, ⟨(snap.bitmaps ++ [A] ++ [B]).set n (A ∩ B),
      [(sa, ⟨n, true⟩), (sb, ⟨n + 1, true⟩)], []⟩) :=
    evalTag_of_cached hta hsa (by simp [EvalState.checkEvalLocalCache, List.findIdx?_cons])
  have hn : n < (snap.bitmaps ++ [A] ++ [B]).length := by simp [n]
  simp only [engEvalResolveExpToEvents, eval, evalLogical_eq, h₁, h₂, h₃, h₄, orFail]
  rw [evalCombine_of_own_left rfl]
  simp only [EvalState.bitmapOf, EvalState.slot, List.getD_cons_zero, getD_set_self hn,
    List.set_set, LogicOp.apply_or, Finset.union_self]

end Repeated

/-- `(b:"y" AND c:"z") OR b:"y"`. -/
def repeatedTagExp : Node :=
  .logical .or (.logical .and (.strTag "b" "y") (.strTag "c" "z")) (.strTag "b" "y")

/-- Over `sampleSnapshot`, whose LMDB holds `{2, 3}` under `b:y` and nothing under `c:z`, neither
in a consumer's cache, the validator accepts `repeatedTagExp` and its meaning is `{2, 3}`, but the
evaluation returns the empty set: `_and` intersected into the bitmap the tag cache holds for
`b:y`, and the second `b:y` reads it back. -/
theorem engEvalResolveExpToEvents_repeatedTagExp :
    isValidWhereExp repeatedTagExp = none ∧ sampleSnapshot.denote repeatedTagExp = some {2, 3} ∧
      engEvalResolveExpToEvents sampleSnapshot repeatedTagExp = .ok ∅ := by
  obtain ⟨hd, he⟩ := @engEvalResolveExpToEvents_repeatedTag sampleSnapshot (.custom "b") (.custom "c")
    (.literal (.str "y")) (.literal (.str "z")) _ _ _ _ rfl rfl (by decide) rfl rfl (by decide) (by decide)
  exact ⟨by decide, hd.trans (by decide), he.trans (congrArg Except.ok (by decide))⟩

/-! ## Nested `NOT` -/

/-- `e` under `n` prefix `NOT`s. -/
def nestNot : ℕ → Node → Node
  | 0, e => e
  | n + 1, e => .not (nestNot n e)

theorem isValidWhereExp_nestNot (n : ℕ) (e : Node) :
    isValidWhereExp (nestNot n e) = isValidWhereExp e := by
  induction n with
  | zero => rfl
  | succ n ih => rw [nestNot, isValidWhereExp, ih]

theorem denote_nestNot_isSome (snap : Snapshot) (n : ℕ) (e : Node) :
    (snap.denote (nestNot n e)).isSome = (snap.denote e).isSome := by
  induction n with
  | zero => rfl
  | succ n ih => rw [nestNot, Snapshot.denote, Option.isSome_map, ih]

section NotN

variable {snap : Snapshot} {e : Node} {s s₁ : EvalState} {r : SlotRef}

theorem eval_nestNot_ok (he : eval snap e s = .ok (r, s₁)) :
    ∀ n, s₁.intermediateBitmaps.length + n ≤ maxEvalStack → ∃ r' s', eval snap (nestNot n e) s =
      .ok (r', s') ∧ s'.intermediateBitmaps.length = s₁.intermediateBitmaps.length + n
  | 0, _ => ⟨r, s₁, he, rfl⟩
  | n + 1, h => by
    obtain ⟨r', s', hn, hlen⟩ := eval_nestNot_ok he n (by omega)
    have hroom : (s'.alloc (bitmapFlip (s'.bitmapOf r') 0 snap.nextEventId)).intermediateBitmaps.length
        < maxEvalStack := by
      rw [EvalState.alloc_intermediateBitmaps]
      omega
    have hstep : eval snap (nestNot (n + 1) e) s = orFail (evalNot snap r' s') := by
      simp only [nestNot, eval, hn]
    rw [hstep, evalNot, EvalState.storeIntermediateBitmap_of_lt hroom]
    exact ⟨_, _, rfl, by simp [hlen, Nat.add_assoc]⟩

theorem eval_nestNot_error (he : eval snap e s = .ok (r, s₁))
    (hs : s₁.intermediateBitmaps.length ≤ maxEvalStack) :
    ∀ n, maxEvalStack < s₁.intermediateBitmaps.length + n → eval snap (nestNot n e) s = .error none
  | 0, h => by omega
  | n + 1, h => by
    by_cases hn : s₁.intermediateBitmaps.length + n ≤ maxEvalStack
    · obtain ⟨r', s', hn', hlen⟩ := eval_nestNot_ok he n hn
      have hfull : maxEvalStack ≤
          (s'.alloc (bitmapFlip (s'.bitmapOf r') 0 snap.nextEventId)).intermediateBitmaps.length := by
        rw [EvalState.alloc_intermediateBitmaps]
        omega
      simp only [nestNot, eval, hn', evalNot, EvalState.storeIntermediateBitmap_of_ge hfull, orFail]
    · simp only [nestNot, eval, eval_nestNot_error he hs n (by omega)]

end NotN

theorem engEvalResolveExpToEvents_nestNot {snap : Snapshot} {e : Node} {r : SlotRef}
    {s₁ : EvalState} (he : eval snap e snap.initState = .ok (r, s₁))
    (hs : s₁.intermediateBitmaps.length ≤ maxEvalStack) {n : ℕ}
    (hn : maxEvalStack < s₁.intermediateBitmaps.length + n) :
    engEvalResolveExpToEvents snap (nestNot n e) = .error "Evaluation failed" := by
  rw [engEvalResolveExpToEvents, eval_nestNot_error he hs n hn]
  rfl

/-- A tag under 129 `NOT`s. -/
def deepNotExp : Node := nestNot 129 (.strTag "a" "x")

theorem engEvalResolveExpToEvents_deepNotExp :
    isValidWhereExp deepNotExp = none ∧ (sampleSnapshot.denote deepNotExp).isSome ∧
      engEvalResolveExpToEvents sampleSnapshot deepNotExp = .error "Evaluation failed" := by
  have htag : sampleSnapshot.denote (.strTag "a" "x") = some {1, 2} := by decide
  have hpre : EvalPre sampleSnapshot (.strTag "a" "x") sampleSnapshot.initState :=
    ⟨List.prefix_refl _, by decide, fun _ _ hk => by simp [Snapshot.initState] at hk, by decide,
      by decide⟩
  obtain ⟨r, s₁, he, hpost⟩ := eval_spec htag hpre
  have hlen : s₁.intermediateBitmaps.length = 0 := by
    rw [hpost.interCount]
    rfl
  refine ⟨by rw [deepNotExp, isValidWhereExp_nestNot]; rfl,
    by rw [deepNotExp, denote_nestNot_isSome, htag]; rfl, ?_⟩
  exact engEvalResolveExpToEvents_nestNot he (by rw [hlen]; decide) (by rw [hlen]; decide)

/-! ## The messages of a failed evaluation -/

/-- The texts a failed evaluation carries. -/
def evalMessages : List String :=
  ["Failed to format tag key", "Invalid node type", "Index does not exist for tag key.", "Evaluation failed"]

section Messages

variable {snap : Snapshot} {msg : String}

theorem compare_error_mem {keyToIndex : String → Option IndexDb} {op : CompOp} {l r : Node}
    (h : compare keyToIndex op l r = .error (some msg)) : msg ∈ evalMessages := by
  unfold compare at h
  split at h
  · cases h
  · split at h <;> cases h
    decide

theorem orFail_ne_error {x : Option (SlotRef × EvalState)} : orFail x ≠ .error (some msg) := by
  cases x <;> simp [orFail]

theorem eval_error_mem {e : Node} {s : EvalState} (h : eval snap e s = .error (some msg)) :
    msg ∈ evalMessages := by
  induction e generalizing s with
  | not a ih =>
    simp only [eval] at h
    split at h
    · cases h
      exact ih ‹_›
    · exact absurd h orFail_ne_error
  | logical op a b iha ihb =>
    simp only [eval] at h
    split at h
    · cases h
      exact iha ‹_›
    · split at h
      · cases h
        exact ihb ‹_›
      · exact absurd h orFail_ne_error
  | tag k v =>
    simp only [eval, evalTag] at h
    split at h
    · cases h
      decide
    · exact absurd h orFail_ne_error
  | comparison op l r =>
    simp only [eval, evalCompare] at h
    split at h
    · cases h
      exact compare_error_mem ‹_›
    · exact absurd h orFail_ne_error
  | literal l =>
    simp only [eval] at h
    cases h
    decide

theorem engEvalResolveExpToEvents_error_mem {e : Node} (h : engEvalResolveExpToEvents snap e = .error msg) :
    msg ∈ evalMessages := by
  unfold engEvalResolveExpToEvents at h
  split at h
  · cases h
  · cases h
    rename_i m _
    rcases m with _ | m
    · decide
    · exact eval_error_mem ‹_›

end Messages

end Orrp.Engine
