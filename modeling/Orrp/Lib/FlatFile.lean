import Mathlib

/-!
# Files of cells, and items laid out in them

A file is its size and the cell at each offset.  `truncate` sets the size, cutting what lies past
the new end and reading zeros where the file grows; `writeBlock` writes a run of cells in place, as
a store through a shared mapping does.  Items of `w` cells laid end to end make a file a table of
items, `Holds f w items`, which growing the file and writing whole items keep.

* `Holds.truncate` — growing a file keeps its items, where the items past its end are zero;
* `Holds.setItem` — writing the cells of item `j` updates item `j` of the table;
* `Holds.block` — an item wholly in the file reads back from the table;
* `toNat_and_not_sub_one` — masking off the low bits of a 64-bit word rounds it down to a multiple
  of a power of two.
-/

namespace Orrp.Lib

/-- A file: its size, and the cell at each offset. -/
structure FlatFile (α : Type*) where
  size : ℕ
  cell : ℕ → α

namespace FlatFile

variable {α : Type*}

/-- The empty file. -/
def empty [Zero α] : FlatFile α := ⟨0, fun _ => 0⟩

/-- Set the size to `n`: cells past `n` are cut, and those between the old end and `n` read zero. -/
def truncate [Zero α] (f : FlatFile α) (n : ℕ) : FlatFile α :=
  ⟨n, fun a => if a < n ∧ a < f.size then f.cell a else 0⟩

/-- Write the `len` cells of `v` from offset `off`. -/
def writeBlock (f : FlatFile α) (off len : ℕ) (v : ℕ → α) : FlatFile α :=
  ⟨f.size, fun a => if off ≤ a ∧ a < off + len then v (a - off) else f.cell a⟩

/-- The cells from offset `off` on. -/
def block (f : FlatFile α) (off : ℕ) : ℕ → α := fun i => f.cell (off + i)

/-- The file holds the items `items`, each `w` cells wide, laid end to end. -/
def Holds (f : FlatFile α) (w : ℕ) (items : ℕ → ℕ → α) : Prop :=
  ∀ a < f.size, f.cell a = items (a / w) (a % w)

variable {f : FlatFile α} {w : ℕ} {items : ℕ → ℕ → α}

@[simp] theorem size_empty [Zero α] : (empty : FlatFile α).size = 0 := rfl

@[simp] theorem size_truncate [Zero α] (n : ℕ) : (f.truncate n).size = n := rfl

@[simp] theorem size_writeBlock (off len : ℕ) (v : ℕ → α) : (f.writeBlock off len v).size = f.size := rfl

/-- **Growing a file** keeps the items it holds, where the items past its old end are zero. -/
theorem Holds.truncate [Zero α] (h : f.Holds w items) {n : ℕ}
    (hz : ∀ a, f.size ≤ a → a < n → items (a / w) (a % w) = 0) : (f.truncate n).Holds w items := by
  intro a ha
  show (if a < n ∧ a < f.size then f.cell a else 0) = _
  by_cases hs : a < f.size
  · rw [if_pos ⟨ha, hs⟩, h a hs]
  · rw [if_neg fun h' => hs h'.2, hz a (Nat.le_of_not_lt hs) ha]

theorem mem_item_iff (hw : 0 < w) {j a : ℕ} : j * w ≤ a ∧ a < j * w + w ↔ a / w = j := by
  constructor
  · rintro ⟨hlo, hhi⟩
    exact Nat.div_eq_of_lt_le hlo (by rw [Nat.succ_mul]; exact hhi)
  · rintro rfl
    exact ⟨Nat.div_mul_le_self a w, Nat.lt_div_mul_add hw⟩

/-- **Writing an item** writes the cells whose offset divides to `j`. -/
theorem Holds.setItem (h : f.Holds w items) (hw : 0 < w) (j : ℕ) (v : ℕ → α) :
    (f.writeBlock (j * w) w v).Holds w (Function.update items j v) := by
  intro a ha
  show (if j * w ≤ a ∧ a < j * w + w then v (a - j * w) else f.cell a) = _
  by_cases hj : a / w = j
  · -- a cell of item `j`: its place in the item is the remainder
    have hoff : a - j * w = a % w := Nat.sub_eq_of_eq_add (hj ▸ (Nat.mod_add_div' a w).symm)
    rw [if_pos ((mem_item_iff hw).2 hj), hj, Function.update_self, hoff]
  · rw [if_neg fun h' => hj ((mem_item_iff hw).1 h'), Function.update_of_ne hj, h a ha]

/-- **Reading an item** wholly in the file gives the item of the table. -/
theorem Holds.block (h : f.Holds w items) {j i : ℕ} (hj : j * w + w ≤ f.size) (hi : i < w) :
    f.block (j * w) i = items j i := by
  have hw : 0 < w := Nat.lt_of_le_of_lt (Nat.zero_le i) hi
  rw [FlatFile.block, h _ (by omega), Nat.add_comm, Nat.add_mul_div_right _ _ hw, Nat.div_eq_of_lt hi,
    Nat.zero_add, Nat.add_mul_mod_self_right, Nat.mod_eq_of_lt hi]

end FlatFile

/-! ## Rounding with a mask -/

theorem and_sub_two_pow {x k : ℕ} (hx : x < 2 ^ 64) (hk : k < 64) :
    x &&& (2 ^ 64 - 1 - (2 ^ k - 1)) = x / 2 ^ k * 2 ^ k := by
  have hlt : 2 ^ k - 1 < 2 ^ 64 := by
    have := Nat.pow_lt_pow_right (by decide : 1 < 2) hk
    omega
  rw [show 2 ^ 64 - 1 - (2 ^ k - 1) = 2 ^ 64 - (2 ^ k - 1 + 1) by omega]
  apply Nat.eq_of_testBit_eq
  intro i
  rw [Nat.testBit_and, Nat.testBit_two_pow_sub_succ hlt, Nat.testBit_two_pow_sub_one, Nat.testBit_mul_two_pow,
    Nat.testBit_div_two_pow]
  by_cases hki : k ≤ i
  · rw [Nat.sub_add_cancel hki]
    by_cases hi : i < 64
    · simp [hki, hi, Nat.not_lt.2 hki]
    · -- past the word every bit of `x` is clear
      have hxi : x < 2 ^ i := Nat.lt_of_lt_of_le hx (Nat.pow_le_pow_right (by decide) (Nat.le_of_not_lt hi))
      simp [Nat.testBit_lt_two_pow hxi]
  · simp [hki, Nat.lt_of_not_le hki]

/-- **The page mask.**  For `p` a power of two, `x & ~(p - 1)` is `x` rounded down to a multiple of
`p`. -/
theorem toNat_and_not_sub_one (x : UInt64) {p : UInt64} {k : ℕ} (hp : p.toNat = 2 ^ k) :
    (x &&& ~~~(p - 1)).toNat = x.toNat / p.toNat * p.toNat := by
  have hk : k < 64 := (Nat.pow_lt_pow_iff_right (by decide : 1 < 2)).1 (hp ▸ p.toNat_lt)
  have hone : (1 : UInt64) ≤ p := UInt64.le_iff_toNat_le.2 (hp ▸ Nat.one_le_two_pow)
  rw [UInt64.toNat_and, UInt64.toNat_not, UInt64.toNat_sub_of_le _ _ hone, hp]
  exact and_sub_two_pow x.toNat_lt hk

end Orrp.Lib
