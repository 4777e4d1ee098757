import Mathlib.Data.Finset.Sort

/-!
# Pages of a finite ordered set

A page of a finite set `s` of a linear order is a run of its smallest elements, taken from its
sorted list.  Cutting `s` below its element of rank `n` leaves its `n` smallest elements, and those
are below every element left out.

* `filter_lt_getElem_sort` — the elements below the one of rank `n` are the first `n` sorted;
* `filter_le_getElem_sort` — the elements from the one of rank `n` on are the others;
* `take_sort_eq_of_card_le` — a page at least as long as the set is all of it;
* `flatten_chunks_take` — the first `k` chunks of `L` entries of a list are its first `k * L`.
-/

namespace Orrp.Lib

variable {α : Type*} [LinearOrder α]

/-- **The elements below rank `n`.**  The elements of `s` below its element of rank `n` are its
`n` smallest. -/
theorem filter_lt_getElem_sort (s : Finset α) {n : ℕ} (hn : n < s.sort.length) :
    s.filter (· < s.sort[n]) = (s.sort.take n).toFinset := by
  have hl := Finset.sortedLT_sort s
  ext x
  simp only [Finset.mem_filter, List.mem_toFinset, List.mem_take_iff_getElem]
  rw [← Finset.mem_sort (· ≤ ·), List.mem_iff_getElem]
  constructor
  · rintro ⟨⟨i, hi, rfl⟩, hlt⟩
    exact ⟨i, lt_min (hl.getElem_lt_getElem_iff.1 hlt) hi, rfl⟩
  · rintro ⟨i, hi, rfl⟩
    have hi' : i < s.sort.length := lt_of_lt_of_le hi (min_le_right _ _)
    exact ⟨⟨i, hi', rfl⟩, hl.getElem_lt_getElem_iff.2 (lt_of_lt_of_le hi (min_le_left _ _))⟩

/-- **The elements from rank `n` on.**  The elements of `s` from its element of rank `n` on are
the sorted list without its first `n`. -/
theorem filter_le_getElem_sort (s : Finset α) {n : ℕ} (hn : n < s.sort.length) :
    s.filter (s.sort[n] ≤ ·) = (s.sort.drop n).toFinset := by
  have hl := Finset.sortedLT_sort s
  ext x
  simp only [Finset.mem_filter, List.mem_toFinset]
  rw [← Finset.mem_sort (· ≤ ·), List.mem_iff_getElem, List.mem_iff_getElem]
  constructor
  · rintro ⟨⟨i, hi, rfl⟩, hle⟩
    have hni : n ≤ i := hl.getElem_le_getElem_iff.1 hle
    exact ⟨i - n, by simp only [List.length_drop]; omega, by simp only [List.getElem_drop]; congr 1; omega⟩
  · rintro ⟨i, hi, rfl⟩
    simp only [List.length_drop] at hi
    refine ⟨⟨n + i, by omega, by simp⟩, ?_⟩
    simp only [List.getElem_drop]
    exact hl.getElem_le_getElem_iff.2 (Nat.le_add_right n i)

theorem take_sort_eq_of_card_le (s : Finset α) {n : ℕ} (hn : s.card ≤ n) :
    (s.sort.take n).toFinset = s := by
  rw [List.take_of_length_le (by rw [Finset.length_sort]; exact hn), Finset.sort_toFinset]

theorem sort_toFinset_of_sublist (s : Finset α) {l : List α} (hl : l.Sublist s.sort) :
    l.toFinset.sort = l := by
  have hsorted : l.Pairwise (· < ·) := (Finset.sortedLT_sort s).pairwise.sublist hl
  exact (List.toFinset_sort (· ≤ ·) hsorted.nodup).2 (hsorted.imp le_of_lt)

/-! ## Cutting a list into chunks -/

section Chunks

variable {β : Type*}

/-- The `i`-th chunk of `L` entries of `l`. -/
def chunk (l : List β) (L i : ℕ) : List β := (l.drop (i * L)).take L

/-- How many chunks of `L` entries a list of `n` entries takes: one for the empty list. -/
def chunkCount (n L : ℕ) : ℕ := (n - 1) / L + 1

theorem chunk_succ (l : List β) (L i : ℕ) : chunk l L (i + 1) = chunk (l.drop L) L i := by
  simp only [chunk, List.drop_drop, Nat.succ_mul, Nat.add_comm]

theorem chunkCount_of_le {n L : ℕ} (h : n ≤ L) : chunkCount n L = 1 := by
  unfold chunkCount
  rcases Nat.eq_zero_or_pos L with rfl | hL
  · simp
  · rw [Nat.div_eq_of_lt (by omega : n - 1 < L)]

theorem chunkCount_of_lt {n L : ℕ} (hL : 0 < L) (h : L < n) :
    chunkCount n L = chunkCount (n - L) L + 1 := by
  unfold chunkCount
  rw [Nat.div_eq_sub_div hL (by omega), Nat.sub_right_comm]

theorem chunkCount_pred_mul_le (n L : ℕ) : (chunkCount n L - 1) * L ≤ n - 1 := by
  simp only [chunkCount, Nat.add_sub_cancel]
  exact Nat.div_mul_le_self _ _

theorem le_chunkCount_mul (n : ℕ) {L : ℕ} (hL : 0 < L) : n ≤ chunkCount n L * L := by
  have h := Nat.lt_div_mul_add (a := n - 1) hL
  simp only [chunkCount, Nat.succ_mul]
  omega

theorem chunkCount_le_self_add_one (n L : ℕ) : chunkCount n L ≤ n + 1 := by
  have h := Nat.div_le_self (n - 1) L
  simp only [chunkCount]
  omega

theorem length_chunk (l : List β) (L i : ℕ) : (chunk l L i).length = min L (l.length - i * L) := by
  simp [chunk]

theorem chunk_sublist (l : List β) (L i : ℕ) : (chunk l L i).Sublist l :=
  (List.take_sublist _ _).trans (List.drop_sublist _ _)

/-- **Chunks.**  The first `k` chunks of a list, concatenated, are its first `k * L` entries. -/
theorem flatten_chunks_take (L : ℕ) : ∀ (k : ℕ) (l : List β),
    ((List.range k).map (chunk l L)).flatten = l.take (k * L)
  | 0, l => by simp
  | k + 1, l => by
    have htail : (List.range k).map (chunk l L ∘ Nat.succ) = (List.range k).map (chunk (l.drop L) L) :=
      List.map_congr_left fun i _ => chunk_succ l L i
    rw [List.range_succ_eq_map, List.map_cons, List.map_map, List.flatten_cons, htail,
      flatten_chunks_take L k (l.drop L), Nat.succ_mul, Nat.add_comm, List.take_add]
    simp [chunk]

theorem flatten_chunks (L k : ℕ) (l : List β) (h : l.length ≤ k * L) :
    ((List.range k).map (chunk l L)).flatten = l := by
  rw [flatten_chunks_take, List.take_of_length_le h]

end Chunks

end Orrp.Lib
