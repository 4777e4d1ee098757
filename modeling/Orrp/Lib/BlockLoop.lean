import Orrp.Lib.Page

/-!
# Loops over fixed-size blocks

`while (p + L <= end) { s = f(s, p); p += L; }`: a loop that, while at least `L` entries remain,
updates its state from the next `L` and steps past them.  `blockLoop L f fuel s l` runs it on the
remaining entries `l` with `fuel` turns at most.

* `blockLoop_eq` — with fuel for every block, the loop is the fold of `f` over the chunks of `L`
  entries of `l`, and leaves the entries after the last full chunk.
-/

namespace Orrp.Lib

variable {σ β : Type*}

/-- The loop: `f` reads the next `L` entries while at least `L` remain. -/
def blockLoop (L : ℕ) (f : σ → List β → σ) : ℕ → σ → List β → σ × List β
  | 0, s, l => (s, l)
  | fuel + 1, s, l => if L ≤ l.length then blockLoop L f fuel (f s l) (l.drop L) else (s, l)

variable {L : ℕ} {f : σ → List β → σ}

theorem range_succ_map_chunk (l : List β) (L k : ℕ) :
    (List.range (k + 1)).map (chunk l L) = chunk l L 0 :: (List.range k).map (chunk (l.drop L) L) := by
  rw [List.range_succ_eq_map, List.map_cons, List.map_map]
  exact congrArg _ (List.map_congr_left fun i _ => chunk_succ l L i)

/-- **The loop is a fold over the chunks.**  When `f` reads only the next `L` entries, a loop with
fuel for every block folds `f` over the full chunks and leaves what follows them. -/
theorem blockLoop_eq (hL : 0 < L) (hf : ∀ s l, f s l = f s (l.take L)) :
    ∀ (fuel : ℕ) (s : σ) (l : List β), l.length / L ≤ fuel →
      blockLoop L f fuel s l = (((List.range (l.length / L)).map (chunk l L)).foldl f s, l.drop (L * (l.length / L)))
  | 0, s, l, hfuel => by
    rw [Nat.le_zero.1 hfuel]
    simp [blockLoop]
  | fuel + 1, s, l, hfuel => by
    by_cases hlen : L ≤ l.length
    · -- one block, then the loop on what follows it
      have hblocks : l.length / L = (l.drop L).length / L + 1 := by
        rw [List.length_drop, Nat.div_eq_sub_div hL hlen]
      rw [blockLoop, if_pos hlen, blockLoop_eq hL hf fuel (f s l) (l.drop L) (by omega), hblocks,
        range_succ_map_chunk, List.foldl_cons, List.drop_drop, hf s l]
      refine Prod.ext (by simp [chunk]) (congrArg (l.drop ·) ?_)
      rw [Nat.mul_succ, Nat.add_comm]
    · -- fewer than `L` entries: no block
      have hnone : l.length / L = 0 := Nat.div_eq_of_lt (by omega)
      rw [blockLoop, if_neg hlen, hnone]
      simp

end Orrp.Lib
