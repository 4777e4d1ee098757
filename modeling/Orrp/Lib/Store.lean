import Mathlib.Data.List.GetD

/-!
# Append-only stores

A store of cells addressed by position: a new cell goes at the end, and a cell is overwritten in
place.  A run that only overwrites cells it allocated itself keeps every cell that was there
before it started, which is the prefix order on the two lists:

* `getD_of_prefix` — a cell of the old store reads the same in the new one;
* `prefix_set_of_le` — overwriting a cell at or above the old length keeps the old store a prefix;
* `getD_append_length`, `getD_set_self` — a cell reads what was last put there.
-/

namespace Orrp.Lib

variable {β : Type*} {xs ys : List β} {i : ℕ} {d v : β}

theorem getD_of_prefix (h : xs <+: ys) (hi : i < xs.length) : ys.getD i d = xs.getD i d := by
  obtain ⟨t, rfl⟩ := h
  exact List.getD_append xs t d i hi

theorem prefix_set_of_le (h : xs <+: ys) (hi : xs.length ≤ i) : xs <+: ys.set i v := by
  obtain ⟨t, rfl⟩ := h
  rw [List.set_append_right _ _ hi]
  exact List.prefix_append xs _

theorem getD_append_length : (xs ++ [v]).getD xs.length d = v := by
  rw [List.getD_append_right _ _ _ _ (Nat.le_refl _), Nat.sub_self, List.getD_cons_zero]

theorem getD_set_self (hi : i < xs.length) : (xs.set i v).getD i d = v := by
  rw [List.getD_eq_getElem _ _ (by simpa using hi), List.getElem_set_self]

end Orrp.Lib
