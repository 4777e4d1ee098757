import Mathlib.Data.List.Basic

/-!
# Bounded FIFO rings

A ring of `size` slots keeps one slot free to tell a full ring from an empty one, so it holds at
most `size - 1` items.  An enqueue into a full ring fails and changes nothing; a dequeue takes the
oldest item.  The bound is a field of `RingBuffer`, so a ring with too many items cannot be built.

* `enqueue_eq_some`, `enqueue_eq_none` — what an enqueue does, in both outcomes;
* `dequeueUpTo_eq` — taking up to `n` items takes the first `n`.
-/

namespace Orrp.Lib

/-- A ring buffer of `size` slots and the items in it, oldest first. -/
structure RingBuffer (α : Type*) where
  size : ℕ
  items : List α
  bounded : items.length < size

namespace RingBuffer

variable {α : Type*}

/-- An empty ring of `size + 1` slots. -/
def empty (size : ℕ) : RingBuffer α := ⟨size + 1, [], Nat.succ_pos size⟩

/-- Add `x` at the back, when a slot besides the spare one is free. -/
def enqueue (r : RingBuffer α) (x : α) : Option (RingBuffer α) :=
  if h : r.items.length + 1 < r.size then
    some ⟨r.size, r.items ++ [x], by simpa using h⟩
  else none

/-- Take the oldest item. -/
def dequeue (r : RingBuffer α) : Option (α × RingBuffer α) :=
  match r with
  | ⟨_, [], _⟩ => none
  | ⟨size, x :: xs, h⟩ => some (x, ⟨size, xs, by simp at h; omega⟩)

/-- Dequeue until `n` items are taken or the ring is empty. -/
def dequeueUpTo : ℕ → RingBuffer α → List α × RingBuffer α
  | 0, r => ([], r)
  | n + 1, r =>
    match r.dequeue with
    | none => ([], r)
    | some (x, r') =>
      let (xs, r'') := dequeueUpTo n r'
      (x :: xs, r'')

variable {r r' : RingBuffer α} {x : α}

theorem enqueue_eq_some (h : r.enqueue x = some r') :
    r'.items = r.items ++ [x] ∧ r'.size = r.size := by
  unfold enqueue at h
  split at h
  · cases h
    exact ⟨rfl, rfl⟩
  · cases h

theorem enqueue_eq_none : r.enqueue x = none ↔ r.size ≤ r.items.length + 1 := by
  unfold enqueue
  split <;> simp_all

theorem enqueue_isSome : (r.enqueue x).isSome ↔ r.items.length + 1 < r.size := by
  unfold enqueue
  split <;> simp_all

@[simp] theorem empty_items (size : ℕ) : (empty size : RingBuffer α).items = [] := rfl

/-- The ring with its items but the first `n`. -/
def drop (r : RingBuffer α) (n : ℕ) : RingBuffer α :=
  ⟨r.size, r.items.drop n, by simpa using Nat.lt_of_le_of_lt (Nat.sub_le _ _) r.bounded⟩

@[simp] theorem drop_items (n : ℕ) : (r.drop n).items = r.items.drop n := rfl

theorem drop_of_items_eq_nil (h : r.items = []) (n : ℕ) : r.drop n = r := by
  rcases r with ⟨size, items, bounded⟩
  dsimp only at h
  subst h
  simp [drop]

theorem dequeueUpTo_eq : ∀ (n : ℕ) (r : RingBuffer α), dequeueUpTo n r = (r.items.take n, r.drop n)
  | 0, r => rfl
  | n + 1, ⟨size, [], h⟩ => by simp [dequeueUpTo, dequeue, drop]
  | n + 1, ⟨size, x :: xs, h⟩ => by
    simp only [dequeueUpTo, dequeue, dequeueUpTo_eq n]
    simp [drop]

end RingBuffer

end Orrp.Lib
