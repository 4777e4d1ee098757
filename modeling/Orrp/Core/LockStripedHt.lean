import Orrp.Core.Hash
import Orrp.Lib.StripedMap

/-!
# The lock-striped hash table (`core/lock_striped_ht.c`)

`lock_striped_ht_t` spreads its entries over `NUM_STRIPES` `ck_ht` tables, each with a spinlock,
and keeps a key in the stripe `xxhash64(key, len, 0) & STRIPE_MASK`.  A stripe is taken by what a
lookup in it sees: a map whose `ck_ht_put_spmc` fails on a key already present.  A key lives at a
slot: its stripe, and the key its stripe stores.  Integer keys are `uint32_t`, hashed on their four
bytes and stored as integers.  String keys are C strings, hashed on all their bytes before the
NUL; `ck_ht` takes their length as a `uint16_t`, so it stores and compares only the first
`strlen(key) mod 65536` bytes.

* `slots_lockStripedHtPut` — the striped put is the put of one map over slots;
* `getString_runString` — after any calls a get returns the first put at its key's slot;
* `lockStripedHt_first_put_wins` — so the table is one map over integer keys other than `0` and
  over string keys shorter than 65536 bytes;
* `lockStripedHt_long_keys_collide` — two of the strings `a` followed by 65536 equal bytes share a
  stripe, and the table takes them for one key;
* `counterCache_agree` — the first-writer-wins handling in `_get_next_event_id_for_container`:
  in every interleaving, calls for containers at one slot take one counter, the one the table
  holds.
-/

namespace Orrp.Core

open Orrp.Lib

/-- `NUM_STRIPES`. -/
def numStripes : ℕ := 128

/-- `STRIPE_MASK`. -/
def stripeMask : UInt64 := UInt64.ofNat (numStripes - 1)

theorem toNat_and_stripeMask_lt (h : UInt64) : (h &&& stripeMask).toNat < numStripes := by
  rw [UInt64.toNat_and]
  exact lt_of_le_of_lt Nat.and_le_right (by decide)

/-- `_get_stripe_index`. -/
def getStripeIndex (key : List UInt8) : Fin numStripes :=
  ⟨(xxhash64 key 0 &&& stripeMask).toNat, toNat_and_stripeMask_lt _⟩

/-- A C string, by its bytes before the NUL: what `strlen` counts. -/
abbrev CString := {bs : List UInt8 // 0 ∉ bs}

/-- The key `ck_ht` stores for the bytes of a C string: `ck_ht_hash` and `ck_ht_entry_set` take the
key length as a `uint16_t`, so `strlen(key)` keeps its low 16 bits and the key is that many first
bytes, which `ck_ht` hashes and compares. -/
def ckHtKey (key : List UInt8) : List UInt8 := key.take (key.length % 65536)

/-- `lock_striped_ht_t`: the stripes `ht[i]`, each a map by the keys it stores.  The spinlocks
only serialize the puts on a stripe. -/
structure LockStripedHt (κ ν : Type*) where
  ht : Fin numStripes → κ → Option ν

variable {α κ ν : Type*}

/-- The table `lock_striped_ht_init_string` and `lock_striped_ht_init_int32` make. -/
def LockStripedHt.empty : LockStripedHt κ ν := ⟨fun _ _ => none⟩

/-- The one map of the table, over the slots `(stripe, stored key)`. -/
def LockStripedHt.slots (t : LockStripedHt κ ν) : Fin numStripes × κ → Option ν :=
  Function.uncurry t.ht

/-- The slot of a key hashed on `keyBytes` and stored as `ckKey`. -/
def slotOf (keyBytes : α → List UInt8) (ckKey : α → κ) (k : α) : Fin numStripes × κ :=
  (getStripeIndex (keyBytes k), ckKey k)

/-- The put of `lock_striped_ht_put_string` and `lock_striped_ht_put_int32` once the arguments
pass: `ck_ht_put_spmc` into the stripe of the key, under the key the stripe stores. -/
def lockStripedHtPut [DecidableEq κ] (keyBytes : α → List UInt8) (ckKey : α → κ)
    (t : LockStripedHt κ ν) (k : α) (v : ν) : Bool × LockStripedHt κ ν :=
  let r := stripedPut (fun k => getStripeIndex (keyBytes k)) ckKey t.ht k v
  (r.1, ⟨r.2⟩)

/-- The lookup of `lock_striped_ht_get_string` and `lock_striped_ht_get_int32`: `ck_ht_get_spmc`
in the stripe of the key. -/
def lockStripedHtGet (keyBytes : α → List UInt8) (ckKey : α → κ) (t : LockStripedHt κ ν) (k : α) :
    Option ν :=
  t.ht (getStripeIndex (keyBytes k)) (ckKey k)

/-- The slot of a string key: its stripe by all its bytes, and its `ck_ht` key. -/
def stringSlot (k : CString) : Fin numStripes × List UInt8 :=
  slotOf Subtype.val (fun k => ckHtKey k.val) k

/-- `lock_striped_ht_put_string`; a NULL key or value is `none`. -/
def lockStripedHtPutString (t : LockStripedHt (List UInt8) ν) (key : Option CString)
    (value : Option ν) : Bool × LockStripedHt (List UInt8) ν :=
  match key, value with
  | some k, some v => lockStripedHtPut Subtype.val (fun k => ckHtKey k.val) t k v
  | _, _ => (false, t)

/-- `lock_striped_ht_get_string`: the value it writes to `val_out`, or `none` where it returns
false. -/
def lockStripedHtGetString (t : LockStripedHt (List UInt8) ν) (key : Option CString) : Option ν :=
  match key with
  | some k => lockStripedHtGet Subtype.val (fun k => ckHtKey k.val) t k
  | none => none

/-- The four bytes `_get_stripe_index(&key, sizeof(uint32_t))` hashes. -/
def int32KeyBytes (key : UInt32) : List UInt8 := leBytes 4 key.toNat

/-- `lock_striped_ht_put_int32`; a NULL value is `none`, and the key `0` is refused.  The stripe
stores the integer itself (`CK_HT_MODE_DIRECT`). -/
def lockStripedHtPutInt32 (t : LockStripedHt UInt32 ν) (key : UInt32) (value : Option ν) :
    Bool × LockStripedHt UInt32 ν :=
  match value with
  | some v => if key = 0 then (false, t) else lockStripedHtPut int32KeyBytes id t key v
  | none => (false, t)

/-- `lock_striped_ht_get_int32`. -/
def lockStripedHtGetInt32 (t : LockStripedHt UInt32 ν) (key : UInt32) : Option ν :=
  if key = 0 then none else lockStripedHtGet int32KeyBytes id t key

/-! ## One map over slots -/

section OneMap

variable {keyBytes : α → List UInt8} {ckKey : α → κ} {t : LockStripedHt κ ν} {k : α} {v : ν}

@[simp] theorem slots_empty : (LockStripedHt.empty : LockStripedHt κ ν).slots = fun _ => none := rfl

theorem lockStripedHtGet_eq : lockStripedHtGet keyBytes ckKey t k = t.slots (slotOf keyBytes ckKey k) :=
  rfl

variable [DecidableEq κ]

theorem lockStripedHtPut_fst :
    (lockStripedHtPut keyBytes ckKey t k v).1 = (t.slots (slotOf keyBytes ckKey k)).isNone := by
  rw [lockStripedHtPut, stripedPut_fst, putIfAbsent_fst]
  rfl

/-- **The striped put is a put into one map**, at the key's slot. -/
theorem slots_lockStripedHtPut :
    (lockStripedHtPut keyBytes ckKey t k v).2.slots =
      (putIfAbsent t.slots (slotOf keyBytes ckKey k) v).2 := by
  show Function.uncurry (stripedPut (fun k => getStripeIndex (keyBytes k)) ckKey t.ht k v).2 = _
  exact uncurry_stripedPut

theorem lockStripedHtPut_of_some {w : ν} (h : t.slots (slotOf keyBytes ckKey k) = some w) :
    lockStripedHtPut keyBytes ckKey t k v = (false, t) := by
  have h' : Function.uncurry t.ht (getStripeIndex (keyBytes k), ckKey k) = some w := h
  rw [lockStripedHtPut, stripedPut_of_some h']

theorem lockStripedHtPut_of_slots {o : Option ν} (h : t.slots (slotOf keyBytes ckKey k) = o) :
    (lockStripedHtPut keyBytes ckKey t k v).1 = o.isNone ∧
      (o.isSome → lockStripedHtPut keyBytes ckKey t k v = (false, t)) := by
  refine ⟨by rw [lockStripedHtPut_fst, h], fun hsome => ?_⟩
  obtain ⟨w, hw⟩ := Option.isSome_iff_exists.1 hsome
  exact lockStripedHtPut_of_some (h.trans hw)

end OneMap

/-! ## Runs of calls -/

/-- A call on a table: a put of `value` under `key`, or a get of `key`. -/
inductive Call (α ν : Type*)
  | put (key : α) (value : Option ν)
  | get (key : α)

/-- What a call returns: the flag of a put, or the value a get writes to `val_out`. -/
inductive Reply (ν : Type*)
  | put (ok : Bool)
  | get (value : Option ν)
  deriving DecidableEq

/-- A call on a table of string keys. -/
def stringCall (t : LockStripedHt (List UInt8) ν) :
    Call (Option CString) ν → Reply ν × LockStripedHt (List UInt8) ν
  | .put key value =>
    let r := lockStripedHtPutString t key value
    (.put r.1, r.2)
  | .get key => (.get (lockStripedHtGetString t key), t)

/-- A call on a table of integer keys. -/
def int32Call (t : LockStripedHt UInt32 ν) : Call UInt32 ν → Reply ν × LockStripedHt UInt32 ν
  | .put key value =>
    let r := lockStripedHtPutInt32 t key value
    (.put r.1, r.2)
  | .get key => (.get (lockStripedHtGetInt32 t key), t)

/-- The string table after the calls `cs`. -/
def runString (cs : List (Call (Option CString) ν)) : LockStripedHt (List UInt8) ν :=
  cs.foldl (fun t c => (stringCall t c).2) .empty

/-- The integer table after the calls `cs`. -/
def runInt32 (cs : List (Call UInt32 ν)) : LockStripedHt UInt32 ν :=
  cs.foldl (fun t c => (int32Call t c).2) .empty

/-- The put a string call makes into a stripe, if it makes one. -/
def stringPut : Call (Option CString) ν → Option (CString × ν)
  | .put (some k) (some v) => some (k, v)
  | _ => none

/-- The put an integer call makes into a stripe, if it makes one. -/
def int32Put : Call UInt32 ν → Option (UInt32 × ν)
  | .put k (some v) => if k = 0 then none else some (k, v)
  | _ => none

/-- A step of a run of puts on the one map. -/
def putStep [DecidableEq κ] (m : κ → Option ν) (p : κ × ν) : κ → Option ν := (putIfAbsent m p.1 p.2).2

/-- The puts of a run at the slots of their keys. -/
def atSlots (slot : α → Fin numStripes × κ) (ps : List (α × ν)) : List ((Fin numStripes × κ) × ν) :=
  ps.map fun p => (slot p.1, p.2)

theorem slots_stringCall (t : LockStripedHt (List UInt8) ν) (c : Call (Option CString) ν) :
    (stringCall t c).2.slots =
      ((stringPut c).map fun p => (stringSlot p.1, p.2)).elim t.slots (putStep t.slots) := by
  rcases c with ⟨_ | k, _ | v⟩ | _
  · rfl
  · rfl
  · rfl
  · exact slots_lockStripedHtPut
  · rfl

theorem slots_int32Call (t : LockStripedHt UInt32 ν) (c : Call UInt32 ν) :
    (int32Call t c).2.slots =
      ((int32Put c).map fun p => (slotOf int32KeyBytes id p.1, p.2)).elim t.slots (putStep t.slots) := by
  rcases c with ⟨k, _ | v⟩ | k
  · rfl
  · by_cases hk : k = 0
    · simp [int32Call, lockStripedHtPutInt32, int32Put, hk]
    · simp only [int32Call, lockStripedHtPutInt32, int32Put, if_neg hk, Option.map_some, Option.elim]
      exact slots_lockStripedHtPut
  · rfl

/-- **Runs of string calls.**  After any calls, a slot holds the value of the first put at it. -/
theorem slots_runString (cs : List (Call (Option CString) ν)) (s : Fin numStripes × List UInt8) :
    (runString cs).slots s = firstPut (atSlots stringSlot (cs.filterMap stringPut)) s := by
  rw [runString, foldl_filterMap_of_step _ _ _ _ slots_stringCall, slots_empty, atSlots,
    List.map_filterMap]
  exact foldl_putIfAbsent_apply _ _ s

/-- **Runs of integer calls.** -/
theorem slots_runInt32 (cs : List (Call UInt32 ν)) (s : Fin numStripes × UInt32) :
    (runInt32 cs).slots s = firstPut (atSlots (slotOf int32KeyBytes id) (cs.filterMap int32Put)) s := by
  rw [runInt32, foldl_filterMap_of_step _ _ _ _ slots_int32Call, slots_empty, atSlots,
    List.map_filterMap]
  exact foldl_putIfAbsent_apply _ _ s

theorem getString_runString (cs : List (Call (Option CString) ν)) (k : CString) :
    lockStripedHtGetString (runString cs) (some k) =
      firstPut (atSlots stringSlot (cs.filterMap stringPut)) (stringSlot k) :=
  slots_runString cs (stringSlot k)

/-! ## Keys the slots separate -/

theorem ckHtKey_of_lt {key : List UInt8} (h : key.length < 65536) : ckHtKey key = key := by
  rw [ckHtKey, Nat.mod_eq_of_lt h, List.take_length]

theorem stringSlot_inj {k k' : CString} (hk : k.val.length < 65536) (hk' : k'.val.length < 65536)
    (h : stringSlot k' = stringSlot k) : k' = k := by
  have hkey : ckHtKey k'.val = ckHtKey k.val := (Prod.ext_iff.1 h).2
  rw [ckHtKey_of_lt hk, ckHtKey_of_lt hk'] at hkey
  exact Subtype.ext hkey

/-- After any calls, a get returns the first put of its key, a put succeeds exactly when there was
none, and a put that fails leaves the table as it was: for string keys when every key put and the
key asked are shorter than 65536 bytes, and for integer keys other than `0`. -/
theorem lockStripedHt_first_put_wins :
    (∀ (cs : List (Call (Option CString) ν)) (k : CString) (v : ν),
      (∀ p ∈ cs.filterMap stringPut, p.1.val.length < 65536) → k.val.length < 65536 →
      lockStripedHtGetString (runString cs) (some k) = firstPut (cs.filterMap stringPut) k ∧
        (lockStripedHtPutString (runString cs) (some k) (some v)).1 =
          (firstPut (cs.filterMap stringPut) k).isNone ∧
        ((firstPut (cs.filterMap stringPut) k).isSome →
          lockStripedHtPutString (runString cs) (some k) (some v) = (false, runString cs))) ∧
    (∀ (cs : List (Call UInt32 ν)) (k : UInt32) (v : ν), k ≠ 0 →
      lockStripedHtGetInt32 (runInt32 cs) k = firstPut (cs.filterMap int32Put) k ∧
        (lockStripedHtPutInt32 (runInt32 cs) k (some v)).1 = (firstPut (cs.filterMap int32Put) k).isNone ∧
        ((firstPut (cs.filterMap int32Put) k).isSome →
          lockStripedHtPutInt32 (runInt32 cs) k (some v) = (false, runInt32 cs))) := by
  constructor
  · intro cs k v hshort hk
    -- the slots of short keys are as distinct as the keys
    have hget : (runString cs).slots (stringSlot k) = firstPut (cs.filterMap stringPut) k := by
      rw [slots_runString]
      exact firstPut_map_of_injOn stringSlot _ k fun p hp h => stringSlot_inj hk (hshort p hp) h
    exact ⟨hget, lockStripedHtPut_of_slots hget⟩
  · intro cs k v hk
    have hslots : (runInt32 cs).slots (slotOf int32KeyBytes id k) = firstPut (cs.filterMap int32Put) k := by
      rw [slots_runInt32]
      exact firstPut_map_of_injOn _ _ k fun p _ h => (Prod.ext_iff.1 h).2
    have hget : lockStripedHtGetInt32 (runInt32 cs) k = firstPut (cs.filterMap int32Put) k := by
      rw [lockStripedHtGetInt32, if_neg hk, lockStripedHtGet_eq]
      exact hslots
    have hput := lockStripedHtPut_of_slots (v := v) hslots
    simp only [lockStripedHtPutInt32, if_neg hk]
    exact ⟨hget, hput⟩

/-- The key `a`. -/
def keyA : CString := ⟨[97], by decide⟩

theorem lockStripedHt_first_put_wins_keyA :
    lockStripedHtGetString (runString [.put (some keyA) (some 1), .put (some keyA) (some 2)]) (some keyA) =
      some 1 ∧
    lockStripedHtGetInt32 (runInt32 [.put 5 (some 1), .put 0 (some 3), .put 5 (some 2)]) 5 = some 1 := by
  have hs := (lockStripedHt_first_put_wins (ν := ℕ)).1 [.put (some keyA) (some 1), .put (some keyA) (some 2)]
    keyA 3 (by decide) (by decide)
  have hi := (lockStripedHt_first_put_wins (ν := ℕ)).2 [.put 5 (some 1), .put 0 (some 3), .put 5 (some 2)]
    5 4 (by decide)
  exact ⟨hs.1.trans rfl, hi.1.trans rfl⟩

/-! ## Long keys -/

/-- The string `a` followed by 65536 bytes `c + 1`: 65537 bytes and no NUL. -/
def longKey (c : Fin 129) : CString :=
  ⟨97 :: List.replicate 65536 (UInt8.ofNat (c.val + 1)), by
    intro h
    rcases List.mem_cons.1 h with h | h
    · exact absurd h (by decide)
    · -- `c + 1` is a byte from 1 to 129
      have hc := congrArg UInt8.toNat (List.mem_replicate.1 h).2
      rw [UInt8.toNat_ofNat'] at hc
      have := c.isLt
      simp only [UInt8.toNat_zero] at hc
      omega⟩

theorem stringSlot_snd (k : CString) : (stringSlot k).2 = ckHtKey k.val := rfl

theorem ckHtKey_cons {b : UInt8} {l : List UInt8} (h : l.length = 65536) : ckHtKey (b :: l) = [b] := by
  rw [ckHtKey, List.length_cons, h]
  rfl

theorem ckHtKey_longKey (c : Fin 129) : ckHtKey (longKey c).val = [97] :=
  ckHtKey_cons List.length_replicate

theorem longKey_injective : Function.Injective longKey := by
  intro c₁ c₂ h
  have h₁ : UInt8.ofNat (c₁.val + 1) = UInt8.ofNat (c₂.val + 1) := by
    have := congrArg (fun k : CString => k.val[1]?) h
    simpa only [longKey, List.getElem?_cons_succ, List.getElem?_replicate, if_pos (by decide : 0 < 65536),
      Option.some.injEq] using this
  have h₂ := congrArg UInt8.toNat h₁
  rw [UInt8.toNat_ofNat', UInt8.toNat_ofNat'] at h₂
  have := c₁.isLt
  have := c₂.isLt
  exact Fin.ext (by omega)

theorem exists_longKey_slot_eq :
    ∃ c₁ c₂ : Fin 129, c₁ ≠ c₂ ∧ stringSlot (longKey c₁) = stringSlot (longKey c₂) := by
  have hcard : Fintype.card (Fin numStripes) < Fintype.card (Fin 129) := by
    rw [Fintype.card_fin, Fintype.card_fin]
    decide
  obtain ⟨c₁, c₂, hne, hstripe⟩ := Fintype.exists_ne_map_eq_of_card_lt
    (fun c : Fin 129 => getStripeIndex (longKey c).val) hcard
  refine ⟨c₁, c₂, hne, Prod.ext hstripe ?_⟩
  rw [stringSlot_snd, stringSlot_snd, ckHtKey_longKey, ckHtKey_longKey]

theorem firstPut_atSlots_of_slot_eq [DecidableEq κ] {slot : α → Fin numStripes × κ} {a b : α}
    (h : slot a = slot b) (v : ν) (ps : List (α × ν)) : firstPut (atSlots slot ((a, v) :: ps)) (slot b) = some v := by
  rw [atSlots, List.map_cons, firstPut_cons, if_pos h]

/-- Two distinct strings of 65537 bytes are one key to the table: a put of the second after the
first fails although it was never put, and a get of it returns the first one's value, where one
map would return its own. -/
theorem lockStripedHt_long_keys_collide :
    ∃ c₁ c₂ : Fin 129, longKey c₁ ≠ longKey c₂ ∧ ∀ v w : ν,
      (lockStripedHtPutString (runString [.put (some (longKey c₁)) (some v)]) (some (longKey c₂))
        (some w)).1 = false ∧
      lockStripedHtGetString (runString [.put (some (longKey c₁)) (some v), .put (some (longKey c₂)) (some w)])
        (some (longKey c₂)) = some v ∧
      firstPut ([Call.put (some (longKey c₁)) (some v), .put (some (longKey c₂)) (some w)].filterMap stringPut)
        (longKey c₂) = some w := by
  obtain ⟨c₁, c₂, hne, hslot⟩ := exists_longKey_slot_eq
  have hkey : longKey c₁ ≠ longKey c₂ := longKey_injective.ne hne
  refine ⟨c₁, c₂, hkey, fun v w => ⟨?_, ?_, ?_⟩⟩
  · -- the first key's put occupies the slot of the second
    have hocc : (runString [.put (some (longKey c₁)) (some v)]).slots (stringSlot (longKey c₂)) = some v := by
      rw [slots_runString]
      exact firstPut_atSlots_of_slot_eq hslot v []
    exact (lockStripedHtPut_of_slots hocc).1
  · rw [getString_runString]
    exact firstPut_atSlots_of_slot_eq hslot v _
  · simp [stringPut, firstPut_cons, hkey]

/-! ## The event id counters

`_get_next_event_id_for_container` takes a container's counter from `g_next_event_id_by_container`.
On a miss it allocates a counter from the stored next event id and puts it; when the put fails,
another call put one first, and it gets that one.  The calls run in any interleaving: each call's
step is one call on the cache.  The load from LMDB and the allocation are taken to succeed. -/

section Counters

/-- Where a call of `_get_next_event_id_for_container` is. -/
inductive CounterPhase (ν : Type*)
  /-- checking the cache -/
  | lookup
  /-- missed, and allocated `fresh` -/
  | insert (fresh : ν)
  /-- its put failed -/
  | retrieve
  /-- takes event ids from `counter`; `none` where it returns false -/
  | done (counter : Option ν)
  deriving DecidableEq

/-- The next call on the cache of a call for the container `name`; `fresh` is the counter it
allocates on a miss. -/
def counterCacheStep (name : CString) (fresh : ν) (t : LockStripedHt (List UInt8) ν) :
    CounterPhase ν → CounterPhase ν × LockStripedHt (List UInt8) ν
  | .lookup =>
    match lockStripedHtGetString t (some name) with
    | some c => (.done (some c), t)
    | none => (.insert fresh, t)
  | .insert c =>
    let r := lockStripedHtPutString t (some name) (some c)
    (if r.1 then .done (some c) else .retrieve, r.2)
  | .retrieve => (.done (lockStripedHtGetString t (some name)), t)
  | .done c => (.done c, t)

/-- The cache and the calls in flight, each for its container. -/
structure CounterCalls (ι ν : Type*) where
  cache : LockStripedHt (List UInt8) ν
  name : ι → CString
  phase : ι → CounterPhase ν

variable {ι : Type*}

/-- The calls start with the lookup. -/
def CounterCalls.start (cache : LockStripedHt (List UInt8) ν) (name : ι → CString) : CounterCalls ι ν :=
  ⟨cache, name, fun _ => .lookup⟩

/-- The cache agrees with every call: a call done took a counter, the one the cache holds at its
container's slot, and a call whose put failed finds that slot taken. -/
structure CounterCalls.Agree (s : CounterCalls ι ν) : Prop where
  done : ∀ i c, s.phase i = .done c → c.isSome ∧ s.cache.slots (stringSlot (s.name i)) = c
  retrieve : ∀ i, s.phase i = .retrieve → (s.cache.slots (stringSlot (s.name i))).isSome

theorem CounterCalls.agree_start (cache : LockStripedHt (List UInt8) ν) (name : ι → CString) :
    (CounterCalls.start cache name).Agree := by
  constructor
  · intro i c h
    cases h
  · intro i h
    cases h

variable [DecidableEq ι]

/-- Call `i` takes its next step, allocating `fresh` on a miss. -/
def CounterCalls.step (s : CounterCalls ι ν) (i : ι) (fresh : ν) : CounterCalls ι ν :=
  let r := counterCacheStep (s.name i) fresh s.cache (s.phase i)
  { s with cache := r.2, phase := Function.update s.phase i r.1 }

/-- The calls after the schedule `sched`: which call steps, and what it allocates on a miss. -/
def CounterCalls.run (s : CounterCalls ι ν) (sched : List (ι × ν)) : CounterCalls ι ν :=
  sched.foldl (fun s p => s.step p.1 p.2) s

theorem counterCacheStep_insert {name : CString} {fresh d : ν} {t : LockStripedHt (List UInt8) ν} :
    counterCacheStep name fresh t (.insert d) =
      (if (t.slots (stringSlot name)).isNone then .done (some d) else .retrieve,
        (lockStripedHtPut Subtype.val (fun k => ckHtKey k.val) t name d).2) := by
  simp only [counterCacheStep, lockStripedHtPutString, lockStripedHtPut_fst]
  rfl

theorem slots_counterCacheStep_of_isSome {name : CString} {fresh : ν} {t : LockStripedHt (List UInt8) ν}
    {sl : Fin numStripes × List UInt8} (ph : CounterPhase ν) (h : (t.slots sl).isSome) :
    (counterCacheStep name fresh t ph).2.slots sl = t.slots sl := by
  obtain ⟨c, hc⟩ := Option.isSome_iff_exists.1 h
  rw [hc]
  cases ph with
  | lookup =>
    rw [counterCacheStep]
    split <;> exact hc
  | insert d =>
    rw [counterCacheStep_insert, slots_lockStripedHtPut]
    exact putIfAbsent_apply_of_some hc
  | retrieve => exact hc
  | done d => exact hc

theorem agree_counterCacheStep {name : CString} (fresh : ν) {t : LockStripedHt (List UInt8) ν}
    {ph : CounterPhase ν} (hdone : ∀ c, ph = .done c → c.isSome ∧ t.slots (stringSlot name) = c)
    (hret : ph = .retrieve → (t.slots (stringSlot name)).isSome) :
    (∀ c, (counterCacheStep name fresh t ph).1 = .done c →
        c.isSome ∧ (counterCacheStep name fresh t ph).2.slots (stringSlot name) = c) ∧
      ((counterCacheStep name fresh t ph).1 = .retrieve →
        ((counterCacheStep name fresh t ph).2.slots (stringSlot name)).isSome) := by
  cases ph with
  | lookup =>
    rw [counterCacheStep]
    cases hget : lockStripedHtGetString t (some name) with
    | none => refine ⟨fun c h => ?_, fun h => ?_⟩ <;> cases h
    | some d =>
      refine ⟨fun c h => ?_, fun h => ?_⟩
      · cases h
        exact ⟨rfl, hget⟩
      · cases h
  | insert d =>
    have happly : (lockStripedHtPut Subtype.val (fun k => ckHtKey k.val) t name d).2.slots (stringSlot name) =
        (t.slots (stringSlot name)).or (some d) := by
      rw [slots_lockStripedHtPut, putIfAbsent_apply]
      exact if_pos rfl
    rw [counterCacheStep_insert, happly]
    cases hm : t.slots (stringSlot name) with
    | none =>
      refine ⟨fun c h => ?_, fun h => ?_⟩
      · cases h
        exact ⟨rfl, rfl⟩
      · cases h
    | some e =>
      refine ⟨fun c h => ?_, fun _ => rfl⟩
      cases h
  | retrieve =>
    refine ⟨fun c h => ?_, fun h => ?_⟩
    · cases h
      exact ⟨hret rfl, rfl⟩
    · cases h
  | done d =>
    refine ⟨fun c h => ?_, fun h => ?_⟩
    · cases h
      exact hdone d rfl
    · cases h

/-- **A step keeps the agreement.** -/
theorem CounterCalls.Agree.step {s : CounterCalls ι ν} (h : s.Agree) (i : ι) (fresh : ν) :
    (s.step i fresh).Agree := by
  have hi := agree_counterCacheStep fresh (h.done i) (h.retrieve i)
  constructor
  · intro j c hj
    by_cases hji : j = i
    · subst hji
      exact hi.1 c (by simpa [CounterCalls.step] using hj)
    · -- another call: its phase is unchanged, and the cache kept its container's entry
      have hj' : s.phase j = .done c := by simpa [CounterCalls.step, hji] using hj
      obtain ⟨hc, hmap⟩ := h.done j c hj'
      exact ⟨hc, (slots_counterCacheStep_of_isSome _ (hmap ▸ hc)).trans hmap⟩
  · intro j hj
    by_cases hji : j = i
    · subst hji
      exact hi.2 (by simpa [CounterCalls.step] using hj)
    · have hj' : s.phase j = .retrieve := by simpa [CounterCalls.step, hji] using hj
      have hsome := h.retrieve j hj'
      exact (slots_counterCacheStep_of_isSome _ hsome).symm ▸ hsome

/-- **Every interleaving keeps the agreement.** -/
theorem CounterCalls.Agree.run {s : CounterCalls ι ν} (h : s.Agree) (sched : List (ι × ν)) :
    (s.run sched).Agree := by
  induction sched generalizing s with
  | nil => exact h
  | cons p sched ih => exact ih (h.step p.1 p.2)

@[simp] theorem CounterCalls.name_run (s : CounterCalls ι ν) (sched : List (ι × ν)) :
    (s.run sched).name = s.name := by
  induction sched generalizing s with
  | nil => rfl
  | cons p sched ih => exact ih _

/-- **First writer wins.**  From any cache, in every interleaving of the calls, a call never finds
the cache without its container after a failed put, and calls done for containers at one slot took
one counter, the one the cache holds there: two containers whose names are one key to the table
share their event ids. -/
theorem counterCache_agree (cache : LockStripedHt (List UInt8) ν) (name : ι → CString)
    (sched : List (ι × ν)) {i j : ι} {c c' : Option ν}
    (hi : ((CounterCalls.start cache name).run sched).phase i = .done c)
    (hj : ((CounterCalls.start cache name).run sched).phase j = .done c')
    (hname : stringSlot (name i) = stringSlot (name j)) :
    c.isSome ∧ c = c' ∧
      ((CounterCalls.start cache name).run sched).cache.slots (stringSlot (name i)) = c := by
  have hagree := (CounterCalls.agree_start cache name).run sched
  obtain ⟨hsome, hmap⟩ := hagree.done i c hi
  obtain ⟨-, hmap'⟩ := hagree.done j c' hj
  simp only [CounterCalls.name_run, CounterCalls.start] at hmap hmap'
  rw [hname] at hmap ⊢
  exact ⟨hsome, hmap.symm.trans hmap', hmap⟩

end Counters

end Orrp.Core
