import Mathlib.Data.List.Basic

/-!
# Grouping a sequence by a key

`groupBy f l` puts the elements of `l` into groups by their key `f x`: the groups in the order
their keys first appear, each group in the order of `l`.  It is what a hash of batches does when
every element is appended to the batch of its key, a new batch being added at the end.

* `members_groupBy` — the elements of one key, read off the groups in order, are the elements of
  `l` with that key, in the order of `l`.
-/

namespace Orrp.Lib

variable {α κ : Type*} [DecidableEq κ] (f : α → κ)

/-- Append `x` to the group of its key, or open a new group for it at the end. -/
def addToGroup (groups : List (κ × List α)) (x : α) : List (κ × List α) :=
  if groups.any (fun g => g.1 = f x) then
    groups.map fun g => if g.1 = f x then (g.1, g.2 ++ [x]) else g
  else groups ++ [(f x, [x])]

/-- The groups of a sequence. -/
def groupBy (l : List α) : List (κ × List α) := l.foldl (addToGroup f) []

/-- The elements of key `c` across the groups, in group order. -/
def members (groups : List (κ × List α)) (c : κ) : List α :=
  (groups.flatMap Prod.snd).filter fun x => f x = c

/-- Groups whose elements carry the group's key, no key twice. -/
def GroupsWF (groups : List (κ × List α)) : Prop :=
  (groups.map Prod.fst).Nodup ∧ ∀ g ∈ groups, ∀ x ∈ g.2, f x = g.1

variable {f}

theorem members_nil (c : κ) : members f [] c = [] := rfl

theorem members_cons (g : κ × List α) (gs : List (κ × List α)) (c : κ) :
    members f (g :: gs) c = g.2.filter (fun x => f x = c) ++ members f gs c := by
  simp [members]

theorem members_eq_nil {gs : List (κ × List α)} {c : κ} (hwf : ∀ g ∈ gs, ∀ x ∈ g.2, f x = g.1)
    (hc : ∀ g ∈ gs, g.1 ≠ c) : members f gs c = [] := by
  simp only [members, List.filter_eq_nil_iff, List.mem_flatMap, decide_eq_true_eq]
  rintro x ⟨g, hg, hx⟩
  rw [hwf g hg x hx]
  exact hc g hg

theorem members_map_append {x : α} :
    ∀ {gs : List (κ × List α)}, GroupsWF f gs → (∃ g ∈ gs, g.1 = f x) → ∀ c,
      members f (gs.map fun g => if g.1 = f x then (g.1, g.2 ++ [x]) else g) c =
        members f gs c ++ if f x = c then [x] else []
  | [], _, ⟨_, hg, _⟩, _ => absurd hg List.not_mem_nil
  | g :: gs, ⟨hnd, hkey⟩, hex, c => by
    have hnd' : (gs.map Prod.fst).Nodup := (List.nodup_cons.1 hnd).2
    have hkey' : ∀ g ∈ gs, ∀ y ∈ g.2, f y = g.1 := fun g' hg' => hkey g' (List.mem_cons_of_mem _ hg')
    rw [List.map_cons, members_cons, members_cons]
    by_cases hg : g.1 = f x
    · -- `g` is the group of `x`: no other group has its key, so the rest is untouched
      have hrest : ∀ g' ∈ gs, g'.1 ≠ f x := by
        intro g' hg' heq
        exact (List.nodup_cons.1 hnd).1 (List.mem_map.2 ⟨g', hg', heq.trans hg.symm⟩)
      have hmap : (gs.map fun g => if g.1 = f x then (g.1, g.2 ++ [x]) else g) = gs := by
        conv_rhs => rw [← List.map_id gs]
        exact List.map_congr_left fun g' hg' => if_neg (hrest g' hg')
      rw [if_pos hg, hmap]
      by_cases hc : f x = c
      · rw [members_eq_nil hkey' (fun g' hg' => hc ▸ hrest g' hg'), if_pos hc]
        simp [List.filter_append, hc]
      · simp [List.filter_append, hc]
    · rw [if_neg hg, members_map_append ⟨hnd', hkey'⟩ ?_ c, List.append_assoc]
      obtain ⟨g', hg', hg'x⟩ := hex
      rcases List.mem_cons.1 hg' with rfl | hg'
      · exact absurd hg'x hg
      · exact ⟨g', hg', hg'x⟩

theorem members_addToGroup {gs : List (κ × List α)} (hwf : GroupsWF f gs) (x : α) (c : κ) :
    members f (addToGroup f gs x) c = members f gs c ++ if f x = c then [x] else [] := by
  unfold addToGroup
  split
  · rename_i hany
    simp only [List.any_eq_true, decide_eq_true_eq] at hany
    exact members_map_append hwf hany c
  · by_cases hc : f x = c <;> simp [members, List.filter_append, hc]

theorem groupsWF_addToGroup {gs : List (κ × List α)} (hwf : GroupsWF f gs) (x : α) :
    GroupsWF f (addToGroup f gs x) := by
  obtain ⟨hnd, hkey⟩ := hwf
  unfold addToGroup
  split
  · refine ⟨by simpa [List.map_map, Function.comp_def, apply_ite Prod.fst] using hnd, ?_⟩
    simp only [List.mem_map]
    rintro _ ⟨g, hg, rfl⟩ y hy
    by_cases heq : g.1 = f x
    · rw [if_pos heq] at hy ⊢
      rcases List.mem_append.1 hy with hy | hy
      · exact hkey g hg y hy
      · rw [List.mem_singleton.1 hy, heq]
    · rw [if_neg heq] at hy ⊢
      exact hkey g hg y hy
  · rename_i hany
    simp only [List.any_eq_true, decide_eq_true_eq, not_exists, not_and] at hany
    refine ⟨?_, ?_⟩
    · rw [List.map_append, List.nodup_append]
      refine ⟨hnd, List.nodup_cons.2 ⟨List.not_mem_nil, List.nodup_nil⟩, ?_⟩
      intro a ha b hb
      simp only [List.map_cons, List.map_nil, List.mem_singleton] at hb
      obtain ⟨g, hg, rfl⟩ := List.mem_map.1 ha
      rw [hb]
      exact hany g hg
    · intro g hg y hy
      rcases List.mem_append.1 hg with hg | hg
      · exact hkey g hg y hy
      · rw [List.mem_singleton.1 hg] at hy ⊢
        rw [List.mem_singleton.1 hy]

theorem members_foldl_addToGroup (l : List α) :
    ∀ {gs : List (κ × List α)}, GroupsWF f gs → ∀ c,
      members f (l.foldl (addToGroup f) gs) c = members f gs c ++ l.filter fun x => f x = c := by
  induction l with
  | nil => intro gs _ c; simp
  | cons x xs ih =>
    intro gs hwf c
    rw [List.foldl_cons, ih (groupsWF_addToGroup hwf x) c, members_addToGroup hwf x c,
      List.append_assoc, List.filter_cons]
    by_cases hc : f x = c <;> simp [hc]

theorem members_filter {gs : List (κ × List α)} (hwf : ∀ g ∈ gs, ∀ x ∈ g.2, f x = g.1)
    (p : κ → Bool) (c : κ) :
    members f (gs.filter fun g => p g.1) c = if p c then members f gs c else [] := by
  induction gs with
  | nil => simp [members_nil]
  | cons g gs ih =>
    have ih := ih fun g' hg' => hwf g' (List.mem_cons_of_mem _ hg')
    rw [members_cons, List.filter_cons]
    by_cases hgc : g.1 = c
    · -- the group of `c`: kept or dropped with the key
      by_cases hp : p c
      · rw [if_pos (by rw [hgc]; exact hp), members_cons, ih, if_pos hp, if_pos hp]
      · rw [if_neg (by rw [hgc]; exact hp), ih, if_neg hp, if_neg hp]
    · -- another key's group holds nothing of `c`, whether kept or not
      have hnil : g.2.filter (fun x => f x = c) = [] := by
        simp only [List.filter_eq_nil_iff, decide_eq_true_eq]
        intro x hx
        rw [hwf g List.mem_cons_self x hx]
        exact hgc
      split
      · rw [members_cons, hnil, ih, List.nil_append]
        split <;> simp
      · rw [ih]
        split <;> simp [hnil]

/-- **Grouping keeps each key's subsequence.** -/
theorem members_groupBy (l : List α) (c : κ) :
    members f (groupBy f l) c = l.filter fun x => f x = c := by
  have hwf : GroupsWF f ([] : List (κ × List α)) := ⟨List.nodup_nil, by simp⟩
  rw [groupBy, members_foldl_addToGroup l hwf c, members_nil, List.nil_append]

theorem mem_of_mem_groupBy {l : List α} {g : κ × List α} (hg : g ∈ groupBy f l) {x : α}
    (hx : x ∈ g.2) : x ∈ l := by
  have hmem : x ∈ members f (groupBy f l) (f x) := by
    simp only [members, List.mem_filter, List.mem_flatMap, decide_true, and_true]
    exact ⟨g, hg, hx⟩
  rw [members_groupBy] at hmem
  exact (List.mem_filter.1 hmem).1

theorem groupsWF_groupBy (l : List α) : GroupsWF f (groupBy f l) := by
  unfold groupBy
  suffices h : ∀ gs : List (κ × List α), GroupsWF f gs → GroupsWF f (l.foldl (addToGroup f) gs) from
    h [] ⟨List.nodup_nil, by simp⟩
  induction l with
  | nil => exact fun _ h => h
  | cons x xs ih => exact fun gs h => ih _ (groupsWF_addToGroup h x)

end Orrp.Lib
