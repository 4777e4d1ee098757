import Orrp.Lib.Cursor
import Orrp.Query.Ast
import Orrp.Query.Tokenizer

/-!
# Range comparisons over an index database (`_compare` in `engine/eng_eval/eng_eval.c`)

An index database (`db_open` with `MDB_INTEGERKEY | MDB_DUPSORT | MDB_DUPFIXED`) holds `(key, event
id)` items, several per key.  `_compare` seeks the search value with `MDB_SET_RANGE`, corrects the
position for the operator, and collects every item it then meets stepping one item at a time, with
`MDB_NEXT` for `>`/`>=` and `MDB_PREV` for everything else.

* `compareIndex_gte`, `compareIndex_lt` — for `>=` and `<` the scan returns exactly the matching
  event ids;
* `compareIndex_gt_of_unique`, `compareIndex_lte_of_unique` — for `>` and `<=` it does so when at
  most one item has the search value as key: the single `MDB_NEXT`/missing step moves by one item,
  not one key;
* `compareIndex_gt_of_dup` — so with two items of that key, `>` returns the event id of one of
  them;
* `=` and `!=` take the `<=` path.
-/

namespace Orrp.Query

/-- Whether `_compare` scans with `MDB_NEXT` (`>`, `>=`) rather than `MDB_PREV`. -/
def CompOp.scansForward (op : CompOp) : Bool := op = .gt || op = .gte

/-- `k op v`. -/
def CompOp.eval : CompOp → ℤ → ℤ → Bool
  | .gt, k, v => v < k
  | .gte, k, v => v ≤ k
  | .lt, k, v => k < v
  | .lte, k, v => k ≤ v
  | .eq, k, v => k = v
  | .neq, k, v => k ≠ v

end Orrp.Query

namespace Orrp.Engine

open Orrp.Query Orrp.Lib

/-- The order `MDB_INTEGERKEY` sorts an `int64_t` key in: its bits read as an unsigned integer. -/
def integerKeyBits (k : ℤ) : ℕ := (k % 2 ^ 64).toNat

/-- An index database: its items in cursor order, sorted by key, the items of one key in an order
of their own, no item twice. -/
structure IndexDb where
  items : List (ℤ × ℕ)
  sorted : items.Pairwise fun a b => integerKeyBits a.1 ≤ integerKeyBits b.1
  nodup : items.Nodup

/-- `MDB_SET_RANGE`: the first item whose key is at least `v`. -/
def IndexDb.setRange (db : IndexDb) (v : ℤ) : Option (Pos (ℤ × ℕ)) :=
  seekGe (fun x => integerKeyBits x.1) db.items (integerKeyBits v)

/-- The cursor the scan of `_compare` starts from: `MDB_SET_RANGE`, then one `MDB_NEXT` for `>` on
an exact match, or for a backward scan `MDB_LAST` when nothing is at least the search value, one
`MDB_PREV` from a larger key, and one more for `<` on an exact match.  `none` once a call has
reported `MDB_NOTFOUND`. -/
def compareStart (db : IndexDb) (op : CompOp) (searchVal : ℤ) : Option (Pos (ℤ × ℕ)) :=
  if op.scansForward then
    match db.setRange searchVal with
    | none => none
    | some p => if op = .gt ∧ p.cur.1 = searchVal then p.next else some p
  else
    match db.setRange searchVal with
    | none => last? db.items
    | some p =>
      match (if searchVal < p.cur.1 then p.prev else some p) with
      | none => none
      | some q => if op = .lt ∧ q.cur.1 = searchVal then q.prev else some q

/-- The event ids `_compare` adds to its bitmap, for the identifier's index database. -/
def compareIndex (db : IndexDb) (op : CompOp) (searchVal : ℤ) : Finset ℕ :=
  match compareStart db op searchVal with
  | none => ∅
  | some p =>
    if op.scansForward then p.scanNext (fun x s => insert x.2 s) ∅
    else p.scanPrev (fun x s => insert x.2 s) ∅

/-- The operand swap of `_compare`: the identifier is the string literal, the search value the
number, on whichever side each is written.  The validator admits no other shape. -/
def compareOperands : Node → Node → Option (String × ℤ)
  | .literal (.str k), .literal (.num v) => some (k, v)
  | .literal (.num v), .literal (.str k) => some (k, v)
  | _, _ => none

/-- `_compare`: the error carries the message it sets, if any. -/
def compare (keyToIndex : String → Option IndexDb) (op : CompOp) (left right : Node) :
    Except (Option String) (Finset ℕ) :=
  match compareOperands left right with
  | none => .error none
  | some (key, searchVal) =>
    match keyToIndex key with
    | none => .error (some "Index does not exist for tag key.")
    | some db => .ok (compareIndex db op searchVal)

/-! ## What a comparison should return -/

/-- The event ids of the items whose key satisfies `p`. -/
def IndexDb.matching (db : IndexDb) (p : ℤ → Bool) : Finset ℕ :=
  ((db.items.filter fun x => p x.1).map Prod.snd).toFinset

/-- The comparison as written: the identifier's key on its side of the operator. -/
def comparisonHolds (op : CompOp) (left right : Node) (k : ℤ) : Bool :=
  match left, right with
  | .literal (.str _), .literal (.num v) => op.eval k v
  | .literal (.num v), .literal (.str _) => op.eval v k
  | _, _ => false

/-! ## Keys in the `int64_t` range -/

/-- A key that the signed comparisons of `_compare` and the unsigned order of `MDB_INTEGERKEY`
agree on. -/
def InInt64Range (k : ℤ) : Prop := 0 ≤ k ∧ k ≤ int64Max

instance (k : ℤ) : Decidable (InInt64Range k) := inferInstanceAs (Decidable (0 ≤ k ∧ k ≤ int64Max))

/-- Every key of the database is in `[0, INT64_MAX]`. -/
def IndexDb.KeysInRange (db : IndexDb) : Prop := ∀ x ∈ db.items, InInt64Range x.1

instance (db : IndexDb) : Decidable db.KeysInRange :=
  inferInstanceAs (Decidable (∀ x ∈ db.items, InInt64Range x.1))

/-- At most one item has key `v`. -/
def IndexDb.KeyUnique (db : IndexDb) (v : ℤ) : Prop :=
  ∀ x ∈ db.items, ∀ y ∈ db.items, x.1 = v → y.1 = v → x = y

theorem integerKeyBits_of_range {k : ℤ} (hk : InInt64Range k) : (integerKeyBits k : ℤ) = k := by
  obtain ⟨h0, h1⟩ := hk
  have hlt : k < 2 ^ 64 := by
    unfold int64Max at h1
    omega
  rw [integerKeyBits, Int.emod_eq_of_lt h0 hlt, Int.toNat_of_nonneg h0]

theorem integerKeyBits_lt_iff {k v : ℤ} (hk : InInt64Range k) (hv : InInt64Range v) :
    integerKeyBits k < integerKeyBits v ↔ k < v := by
  have := integerKeyBits_of_range hk
  have := integerKeyBits_of_range hv
  omega

theorem integerKeyBits_le_iff {k v : ℤ} (hk : InInt64Range k) (hv : InInt64Range v) :
    integerKeyBits k ≤ integerKeyBits v ↔ k ≤ v := by
  have := integerKeyBits_of_range hk
  have := integerKeyBits_of_range hv
  omega

/-! ## Where `MDB_SET_RANGE` lands -/

section SetRange

variable {db : IndexDb} {v : ℤ} {p : Pos (ℤ × ℕ)} {x : ℤ × ℕ}
variable (hdb : db.KeysInRange) (hv : InInt64Range v)
include hdb hv

theorem setRange_eq_none : db.setRange v = none ↔ ∀ x ∈ db.items, x.1 < v := by
  rw [IndexDb.setRange, seekGe_eq_none]
  exact forall₂_congr fun x hx => integerKeyBits_lt_iff (hdb x hx) hv

theorem mem_rest_of_setRange (h : db.setRange v = some p) :
    x ∈ p.cur :: p.after ↔ x ∈ db.items ∧ v ≤ x.1 := by
  rw [seekGe_mem_rest db.sorted h]
  exact and_congr_right fun hx => integerKeyBits_le_iff hv (hdb x hx)

theorem mem_before_of_setRange (h : db.setRange v = some p) :
    x ∈ p.before ↔ x ∈ db.items ∧ x.1 < v := by
  rw [seekGe_mem_before db.sorted h]
  exact and_congr_right fun hx => integerKeyBits_lt_iff (hdb x hx) hv

theorem cur_of_setRange (h : db.setRange v = some p) : p.cur ∈ db.items ∧ v ≤ p.cur.1 :=
  (mem_rest_of_setRange hdb hv h).1 List.mem_cons_self

theorem cur_le_of_setRange (h : db.setRange v = some p) (hx : x ∈ p.cur :: p.after) :
    p.cur.1 ≤ x.1 := by
  have hl := (seekGe_eq_some h).1
  have hcur := cur_of_setRange hdb hv h
  have hxdb := ((mem_rest_of_setRange hdb hv h).1 hx).1
  rcases List.mem_cons.1 hx with rfl | hx
  · exact le_rfl
  · have hle := Pos.key_cur_le (hl ▸ db.sorted) hx
    exact (integerKeyBits_le_iff (hdb _ hcur.1) (hdb x hxdb)).1 hle

theorem mem_before_of_lt_cur (h : db.setRange v = some p) (hlt : v < p.cur.1) :
    x ∈ p.before ↔ x ∈ db.items ∧ x.1 ≤ v := by
  rw [mem_before_of_setRange hdb hv h]
  refine and_congr_right fun hx => ⟨le_of_lt, fun hle => lt_of_le_of_ne hle fun heq => ?_⟩
  have hrest : x ∈ p.cur :: p.after := (mem_rest_of_setRange hdb hv h).2 ⟨hx, heq.ge⟩
  have := cur_le_of_setRange hdb hv h hrest
  omega

end SetRange

/-! ## The cursor each operator starts from -/

section Start

variable {db : IndexDb} {v : ℤ}

theorem compareStart_gte : compareStart db .gte v = db.setRange v := by
  unfold compareStart
  cases db.setRange v <;> simp [CompOp.scansForward]

theorem compareStart_gt :
    compareStart db .gt v = (db.setRange v).bind fun p => if p.cur.1 = v then p.next else some p := by
  unfold compareStart
  cases db.setRange v <;> simp [CompOp.scansForward]

theorem compareStart_of_backward {op : CompOp} (hf : op.scansForward = false) (hlt : op ≠ .lt) :
    compareStart db op v = match db.setRange v with
      | none => last? db.items
      | some p => if v < p.cur.1 then p.prev else some p := by
  unfold compareStart
  rw [hf]
  cases db.setRange v with
  | none => rfl
  | some p =>
    simp only [Bool.false_eq_true, if_false, hlt, false_and]
    split <;> simp_all

end Start

/-! ## The items the scan visits -/

/-- The items the scan of `_compare` visits. -/
def compareScan (db : IndexDb) (op : CompOp) (searchVal : ℤ) : List (ℤ × ℕ) :=
  if op.scansForward then visitedNext (compareStart db op searchVal)
  else visitedPrev (compareStart db op searchVal)

theorem compareIndex_eq_scan (db : IndexDb) (op : CompOp) (v : ℤ) :
    compareIndex db op v = ((compareScan db op v).map Prod.snd).toFinset := by
  unfold compareIndex compareScan
  cases compareStart db op v with
  | none => simp [visitedNext, visitedPrev]
  | some p =>
    by_cases hf : op.scansForward
    · simp [hf, visitedNext, Pos.scanNext_insert]
    · simp [hf, visitedPrev, Pos.scanPrev_insert]

theorem compareIndex_eq_matching {db : IndexDb} {op : CompOp} {v : ℤ} {P : ℤ → Bool}
    (h : ∀ x, x ∈ compareScan db op v ↔ x ∈ db.items ∧ P x.1) :
    compareIndex db op v = db.matching P := by
  rw [compareIndex_eq_scan]
  ext z
  simp only [IndexDb.matching, List.mem_toFinset, List.mem_map, List.mem_filter, h]

theorem compareScan_of_forward {db : IndexDb} {op : CompOp} {v : ℤ} (hf : op.scansForward = true) :
    compareScan db op v = visitedNext (compareStart db op v) := by
  simp [compareScan, hf]

theorem compareScan_of_backward {db : IndexDb} {op : CompOp} {v : ℤ}
    (hf : op.scansForward = false) : compareScan db op v = visitedPrev (compareStart db op v) := by
  simp [compareScan, hf]

section Scans

variable {db : IndexDb} {v : ℤ} {x : ℤ × ℕ}
variable (hdb : db.KeysInRange) (hv : InInt64Range v)
include hdb hv

theorem compareStart_lt :
    compareStart db .lt v = match db.setRange v with
      | none => last? db.items
      | some p => p.prev := by
  unfold compareStart
  cases h : db.setRange v with
  | none => simp [CompOp.scansForward]
  | some p =>
    by_cases hlt : v < p.cur.1
    · cases hq : p.prev with
      | none => simp [CompOp.scansForward, hlt, hq]
      | some q =>
        have hqb : q.cur ∈ p.before := by
          rw [← (Pos.prev_eq_some hq).1]
          exact List.mem_cons_self
        have hq_lt := ((mem_before_of_setRange hdb hv h).1 hqb).2
        simp [CompOp.scansForward, hlt, hq, hq_lt.ne]
    · have heq : p.cur.1 = v := le_antisymm (not_lt.1 hlt) (cur_of_setRange hdb hv h).2
      simp [CompOp.scansForward, heq]

theorem mem_compareScan_gte : x ∈ compareScan db .gte v ↔ x ∈ db.items ∧ v ≤ x.1 := by
  rw [compareScan_of_forward rfl, compareStart_gte]
  cases h : db.setRange v with
  | none =>
    have hall := (setRange_eq_none hdb hv).1 h
    simp only [visitedNext, List.not_mem_nil, false_iff, not_and, not_le]
    exact hall x
  | some p => exact mem_rest_of_setRange hdb hv h

theorem mem_compareScan_lt : x ∈ compareScan db .lt v ↔ x ∈ db.items ∧ x.1 < v := by
  rw [compareScan_of_backward rfl, compareStart_lt hdb hv]
  cases h : db.setRange v with
  | none =>
    have hall := (setRange_eq_none hdb hv).1 h
    rw [mem_visitedPrev_last?]
    exact ⟨fun hx => ⟨hx, hall x hx⟩, And.left⟩
  | some p =>
    rw [visitedPrev_prev]
    exact mem_before_of_setRange hdb hv h

theorem mem_compareScan_gt (hu : db.KeyUnique v) :
    x ∈ compareScan db .gt v ↔ x ∈ db.items ∧ v < x.1 := by
  rw [compareScan_of_forward rfl, compareStart_gt]
  cases h : db.setRange v with
  | none =>
    have hall := (setRange_eq_none hdb hv).1 h
    simp only [Option.bind_none, visitedNext, List.not_mem_nil, false_iff, not_and, not_lt]
    exact fun hx => (hall x hx).le
  | some p =>
    have hcur := cur_of_setRange hdb hv h
    rw [Option.bind_some]
    by_cases hc : p.cur.1 = v
    · -- the exact match is stepped over, but only it: one item, not one key
      rw [if_pos hc, visitedNext_next]
      have hnd : p.cur ∉ p.after := Pos.cur_not_mem_after ((seekGe_eq_some h).1 ▸ db.nodup)
      constructor
      · intro hx
        obtain ⟨hxdb, hle⟩ := (mem_rest_of_setRange hdb hv h).1 (List.mem_cons_of_mem _ hx)
        refine ⟨hxdb, lt_of_le_of_ne hle fun heq => ?_⟩
        have hx' : p.cur = x := hu _ hcur.1 _ hxdb hc heq.symm
        exact hnd (hx' ▸ hx)
      · rintro ⟨hxdb, hlt⟩
        have hrest := (mem_rest_of_setRange hdb hv h).2 ⟨hxdb, hlt.le⟩
        rcases List.mem_cons.1 hrest with rfl | hx
        · omega
        · exact hx
    · rw [if_neg hc, visitedNext_some, mem_rest_of_setRange hdb hv h]
      refine and_congr_right fun hxdb => ⟨fun hle => lt_of_le_of_ne hle fun heq => ?_, le_of_lt⟩
      have hrest := (mem_rest_of_setRange hdb hv h).2 ⟨hxdb, hle⟩
      have := cur_le_of_setRange hdb hv h hrest
      omega

theorem mem_compareScan_lte (hu : db.KeyUnique v) :
    x ∈ compareScan db .lte v ↔ x ∈ db.items ∧ x.1 ≤ v := by
  rw [compareScan_of_backward rfl, compareStart_of_backward rfl (by decide)]
  cases h : db.setRange v with
  | none =>
    have hall := (setRange_eq_none hdb hv).1 h
    dsimp only
    rw [mem_visitedPrev_last?]
    exact ⟨fun hx => ⟨hx, (hall x hx).le⟩, And.left⟩
  | some p =>
    have hcur := cur_of_setRange hdb hv h
    dsimp only
    by_cases hlt : v < p.cur.1
    · rw [if_pos hlt, visitedPrev_prev]
      exact mem_before_of_lt_cur hdb hv h hlt
    · -- an exact match: the scan starts on it and never meets the other items of key `v`
      have heq : p.cur.1 = v := le_antisymm (not_lt.1 hlt) hcur.2
      rw [if_neg hlt, visitedPrev_some, List.mem_cons, mem_before_of_setRange hdb hv h]
      constructor
      · rintro (rfl | ⟨hxdb, hxlt⟩)
        · exact ⟨hcur.1, heq.le⟩
        · exact ⟨hxdb, hxlt.le⟩
      · rintro ⟨hxdb, hle⟩
        rcases lt_or_eq_of_le hle with hxlt | hxeq
        · exact .inr ⟨hxdb, hxlt⟩
        · exact .inl (hu _ hxdb _ hcur.1 hxeq heq)

theorem mem_compareScan_gt_of_dup {y : ℤ × ℕ} (hx : x ∈ db.items) (hy : y ∈ db.items)
    (hxy : x ≠ y) (hxv : x.1 = v) (hyv : y.1 = v) :
    x ∈ compareScan db .gt v ∨ y ∈ compareScan db .gt v := by
  rw [compareScan_of_forward rfl, compareStart_gt]
  cases h : db.setRange v with
  | none => exact absurd ((setRange_eq_none hdb hv).1 h x hx) (by omega)
  | some p =>
    have hxr := (mem_rest_of_setRange hdb hv h).2 ⟨hx, hxv.ge⟩
    have hyr := (mem_rest_of_setRange hdb hv h).2 ⟨hy, hyv.ge⟩
    have hc : p.cur.1 = v :=
      le_antisymm (hxv ▸ cur_le_of_setRange hdb hv h hxr) (cur_of_setRange hdb hv h).2
    rw [Option.bind_some, if_pos hc, visitedNext_next]
    -- at most one of the two is the item the cursor landed on
    rcases List.mem_cons.1 hxr with rfl | hxa
    · exact .inr ((List.mem_cons.1 hyr).resolve_left fun h => hxy h.symm)
    · exact .inl hxa

end Scans

/-! ## What `_compare` returns -/

section Results

variable {db : IndexDb} {v : ℤ}
variable (hdb : db.KeysInRange) (hv : InInt64Range v)
include hdb hv

/-- **`>=` is exact.** -/
theorem compareIndex_gte : compareIndex db .gte v = db.matching (CompOp.gte.eval · v) :=
  compareIndex_eq_matching fun _ => by simpa [CompOp.eval] using mem_compareScan_gte hdb hv

/-- **`<` is exact.** -/
theorem compareIndex_lt : compareIndex db .lt v = db.matching (CompOp.lt.eval · v) :=
  compareIndex_eq_matching fun _ => by simpa [CompOp.eval] using mem_compareScan_lt hdb hv

theorem compareIndex_gt_of_unique (hu : db.KeyUnique v) :
    compareIndex db .gt v = db.matching (CompOp.gt.eval · v) :=
  compareIndex_eq_matching fun _ => by simpa [CompOp.eval] using mem_compareScan_gt hdb hv hu

theorem compareIndex_lte_of_unique (hu : db.KeyUnique v) :
    compareIndex db .lte v = db.matching (CompOp.lte.eval · v) :=
  compareIndex_eq_matching fun _ => by simpa [CompOp.eval] using mem_compareScan_lte hdb hv hu

/-- With two items of key `v`, `>` returns the event id of one of them. -/
theorem compareIndex_gt_of_dup {x y : ℤ × ℕ} (hx : x ∈ db.items) (hy : y ∈ db.items)
    (hxy : x ≠ y) (hxv : x.1 = v) (hyv : y.1 = v) :
    x.2 ∈ compareIndex db .gt v ∨ y.2 ∈ compareIndex db .gt v := by
  simp only [compareIndex_eq_scan, List.mem_toFinset, List.mem_map]
  rcases mem_compareScan_gt_of_dup hdb hv hx hy hxy hxv hyv with h | h
  · exact .inl ⟨x, h, rfl⟩
  · exact .inr ⟨y, h, rfl⟩

end Results

theorem compareIndex_of_backward {db : IndexDb} {op : CompOp} {v : ℤ}
    (hf : op.scansForward = false) (hlt : op ≠ .lt) : compareIndex db op v = compareIndex db .lte v := by
  rw [compareIndex_eq_scan, compareIndex_eq_scan, compareScan_of_backward hf,
    compareScan_of_backward rfl, compareStart_of_backward hf hlt,
    compareStart_of_backward rfl (by decide)]

/-- Two events indexed under the same key `5`. -/
def sameKeyDb : IndexDb := ⟨[(5, 1), (5, 2)], by decide, by decide⟩

theorem compareIndex_gt_of_dup_sameKeyDb :
    1 ∈ compareIndex sameKeyDb .gt 5 ∨ 2 ∈ compareIndex sameKeyDb .gt 5 :=
  @compareIndex_gt_of_dup sameKeyDb 5 (by decide) (by decide) (5, 1) (5, 2) (by decide) (by decide)
    (by decide) rfl rfl

theorem compare_gt_sameKeyDb :
    compare (fun _ => some sameKeyDb) .gt (.literal (.str "ts")) (.literal (.num 5)) = .ok {2} ∧
      sameKeyDb.matching (comparisonHolds .gt (.literal (.str "ts")) (.literal (.num 5))) = ∅ := by
  decide

end Orrp.Engine
