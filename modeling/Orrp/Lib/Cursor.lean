import Mathlib.Data.List.TakeWhile
import Mathlib.Data.Finset.Lattice.Lemmas
import Mathlib.Data.Finset.Dedup

/-!
# Cursors over an ordered list of items

A B-tree cursor, as a key/value store with sorted keys documents it: the database is the list of
its items in cursor order, and a positioned cursor is an item together with the items before it
(nearest first) and after it.

* `seekGe` — land on the first item whose key is at least `k` (`MDB_SET_RANGE`), `last?` — on the
  last item (`MDB_LAST`), `Pos.next`/`Pos.prev` — one item on or back (`MDB_NEXT`/`MDB_PREV`);
  each is `none` when there is no such item (`MDB_NOTFOUND`);
* `Pos.scanNext`, `Pos.scanPrev` — the loop that uses the current item and steps until the cursor
  reports `NOTFOUND`: it visits `cur :: after`, or `cur :: before`.
-/

namespace Orrp.Lib

variable {α κ β : Type*}

/-- A cursor on an item: the items before it, nearest first, the item, and the items after it. -/
structure Pos (α : Type*) where
  before : List α
  cur : α
  after : List α
  deriving DecidableEq, Repr

/-- The list a cursor walks. -/
def Pos.toList (p : Pos α) : List α := p.before.reverse ++ p.cur :: p.after

/-- One item on. -/
def Pos.next (p : Pos α) : Option (Pos α) :=
  match p.after with
  | [] => none
  | y :: ys => some ⟨p.cur :: p.before, y, ys⟩

/-- One item back. -/
def Pos.prev (p : Pos α) : Option (Pos α) :=
  match p.before with
  | [] => none
  | b :: bs => some ⟨bs, b, p.cur :: p.after⟩

/-- The last item. -/
def last? (l : List α) : Option (Pos α) :=
  match l.reverse with
  | [] => none
  | x :: xs => some ⟨xs, x, []⟩

/-- The first item whose key is at least `k`. -/
def seekGe [LinearOrder κ] (key : α → κ) (l : List α) (k : κ) : Option (Pos α) :=
  match l.dropWhile (fun x => key x < k) with
  | [] => none
  | x :: xs => some ⟨(l.takeWhile (fun x => key x < k)).reverse, x, xs⟩

/-- The loop `while (r == OK) { use(cur); r = next }` from `cur` on: `f` folds every item visited,
`cur` first. -/
def scanFrom (f : α → β → β) : α → List α → β → β
  | cur, [], acc => f cur acc
  | cur, y :: ys, acc => scanFrom f y ys (f cur acc)

/-- The scan that steps with `next`. -/
def Pos.scanNext (f : α → β → β) (p : Pos α) (acc : β) : β := scanFrom f p.cur p.after acc

/-- The scan that steps with `prev`. -/
def Pos.scanPrev (f : α → β → β) (p : Pos α) (acc : β) : β := scanFrom f p.cur p.before acc

/-- The items a scan stepping with `next` visits from a cursor call's result: none after
`NOTFOUND`. -/
def visitedNext : Option (Pos α) → List α
  | none => []
  | some p => p.cur :: p.after

/-- The items a scan stepping with `prev` visits from a cursor call's result. -/
def visitedPrev : Option (Pos α) → List α
  | none => []
  | some p => p.cur :: p.before

/-! ## Moves keep the list -/

@[simp] theorem Pos.toList_mk (b : List α) (x : α) (a : List α) :
    (Pos.mk b x a).toList = b.reverse ++ x :: a := rfl

theorem Pos.prev_eq_some {p q : Pos α} (h : p.prev = some q) :
    q.cur :: q.before = p.before ∧ q.after = p.cur :: p.after := by
  rcases p with ⟨_ | ⟨y, ys⟩, x, a⟩
  · cases h
  · cases h
    exact ⟨rfl, rfl⟩

@[simp] theorem visitedNext_some (p : Pos α) : visitedNext (some p) = p.cur :: p.after := rfl

@[simp] theorem visitedPrev_some (p : Pos α) : visitedPrev (some p) = p.cur :: p.before := rfl

@[simp] theorem visitedNext_next (p : Pos α) : visitedNext p.next = p.after := by
  rcases p with ⟨b, x, _ | ⟨y, ys⟩⟩ <;> rfl

@[simp] theorem visitedPrev_prev (p : Pos α) : visitedPrev p.prev = p.before := by
  rcases p with ⟨_ | ⟨y, ys⟩, x, a⟩ <;> rfl

theorem last?_eq_none {l : List α} : last? l = none ↔ l = [] := by
  unfold last?
  split <;> rename_i hl
  · simpa using hl
  · simp only [reduceCtorEq, false_iff]
    rintro rfl
    cases hl

theorem last?_eq_some {l : List α} {p : Pos α} (h : last? l = some p) :
    p.after = [] ∧ p.toList = l := by
  unfold last? at h
  split at h
  · cases h
  · rename_i x xs hl
    cases h
    refine ⟨rfl, ?_⟩
    rw [← List.reverse_reverse l, hl]
    simp

/-- A backward scan from the last item visits the whole list. -/
theorem mem_visitedPrev_last? {l : List α} {x : α} : x ∈ visitedPrev (last? l) ↔ x ∈ l := by
  cases h : last? l with
  | none => simp [visitedPrev, last?_eq_none.1 h]
  | some p =>
    obtain ⟨ha, hl⟩ := last?_eq_some h
    rw [visitedPrev, ← hl, Pos.toList, ha, List.mem_append, List.mem_reverse, List.mem_singleton,
      List.mem_cons, or_comm]

/-! ## Sorted and duplicate-free lists -/

section Sorted

variable [Preorder κ] {key : α → κ} {p : Pos α} {x : α}

theorem Pos.key_cur_le (hs : p.toList.Pairwise fun a b => key a ≤ key b) (hx : x ∈ p.after) :
    key p.cur ≤ key x := by
  rw [Pos.toList, List.pairwise_append, List.pairwise_cons] at hs
  exact hs.2.1.1 x hx

end Sorted

theorem Pos.cur_not_mem_after {p : Pos α} (h : p.toList.Nodup) : p.cur ∉ p.after := by
  rw [Pos.toList, List.nodup_append, List.nodup_cons] at h
  exact h.2.1.1

/-! ## Seeking -/

section Seek

variable [LinearOrder κ] {key : α → κ} {l : List α} {k : κ}

theorem seekGe_eq_none : seekGe key l k = none ↔ ∀ x ∈ l, key x < k := by
  unfold seekGe
  split <;> rename_i hd
  · simpa using List.dropWhile_eq_nil_iff.mp hd
  · rename_i x xs
    simp only [reduceCtorEq, false_iff, not_forall, not_lt]
    have hx := List.head_dropWhile_not (fun x => decide (key x < k)) (l := l) (by simp [hd])
    simp only [hd, List.head_cons, decide_eq_false_iff_not, not_lt] at hx
    have hmem : x ∈ l := (List.dropWhile_suffix _).subset (by rw [hd]; exact List.mem_cons_self)
    exact ⟨x, hmem, hx⟩

theorem seekGe_eq_some {p : Pos α} (h : seekGe key l k = some p) :
    p.toList = l ∧ (∀ x ∈ p.before, key x < k) ∧ k ≤ key p.cur := by
  unfold seekGe at h
  split at h
  · cases h
  · rename_i x xs hd
    cases h
    refine ⟨?_, ?_, ?_⟩
    · rw [Pos.toList_mk, List.reverse_reverse, ← hd, List.takeWhile_append_dropWhile]
    · intro y hy
      rw [List.mem_reverse] at hy
      simpa using List.mem_takeWhile_imp hy
    · have hx := List.head_dropWhile_not (fun x => decide (key x < k)) (l := l) (by simp [hd])
      simpa [hd] using hx

theorem seekGe_mem_rest (hs : l.Pairwise fun a b => key a ≤ key b) {p : Pos α}
    (h : seekGe key l k = some p) {x : α} : x ∈ p.cur :: p.after ↔ x ∈ l ∧ k ≤ key x := by
  obtain ⟨hl, hb, hc⟩ := seekGe_eq_some h
  constructor
  · intro hx
    refine ⟨hl ▸ List.mem_append_right _ hx, ?_⟩
    rcases List.mem_cons.1 hx with rfl | hx
    · exact hc
    · exact le_trans hc (Pos.key_cur_le (hl ▸ hs) hx)
  · rintro ⟨hx, hk⟩
    rw [← hl, Pos.toList, List.mem_append, List.mem_reverse] at hx
    exact hx.resolve_left fun hx => absurd (hb x hx) (not_lt.2 hk)

theorem seekGe_mem_before (hs : l.Pairwise fun a b => key a ≤ key b) {p : Pos α}
    (h : seekGe key l k = some p) {x : α} : x ∈ p.before ↔ x ∈ l ∧ key x < k := by
  obtain ⟨hl, hb, -⟩ := seekGe_eq_some h
  constructor
  · intro hx
    exact ⟨hl ▸ List.mem_append_left _ (List.mem_reverse.2 hx), hb x hx⟩
  · rintro ⟨hx, hk⟩
    rw [← hl, Pos.toList, List.mem_append, List.mem_reverse] at hx
    refine hx.resolve_right fun hx' => ?_
    exact absurd ((seekGe_mem_rest hs h).1 hx').2 (not_le.2 hk)

end Seek

/-! ## Scans -/

theorem scanFrom_insert [DecidableEq β] (g : α → β) :
    ∀ (cur : α) (rest : List α) (acc : Finset β),
      scanFrom (fun x s => insert (g x) s) cur rest acc = acc ∪ ((cur :: rest).map g).toFinset := by
  intro cur rest
  induction rest generalizing cur with
  | nil =>
    intro acc
    ext z
    simp [scanFrom]
  | cons y ys ih =>
    intro acc
    rw [scanFrom.eq_2, ih]
    ext z
    simp only [Finset.mem_union, Finset.mem_insert, List.mem_toFinset, List.map_cons, List.mem_cons]
    tauto

theorem Pos.scanNext_insert [DecidableEq β] (g : α → β) (p : Pos α) :
    p.scanNext (fun x s => insert (g x) s) ∅ = ((p.cur :: p.after).map g).toFinset := by
  rw [Pos.scanNext, scanFrom_insert, Finset.empty_union]

theorem Pos.scanPrev_insert [DecidableEq β] (g : α → β) (p : Pos α) :
    p.scanPrev (fun x s => insert (g x) s) ∅ = ((p.cur :: p.before).map g).toFinset := by
  rw [Pos.scanPrev, scanFrom_insert, Finset.empty_union]

end Orrp.Lib
