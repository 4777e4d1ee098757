import Orrp.Lib.Group
import Mathlib.Logic.Function.Basic

/-!
# A map under a sequence of point writes

`applyWrites key val m l` writes `val x` under `key x` for every `x` of `l`, first element first.
A key then reads its last write (`applyWrites_apply`).

Writes that are batched by a coarser key `part ∘ key` and applied batch by batch, each batch only
when `commit` holds of its part, read the same as the writes applied in their order, except that a
part whose batch did not commit keeps its old values (`applyGroups_groupBy`).
-/

namespace Orrp.Lib

variable {α κ β γ : Type*} [DecidableEq κ] [DecidableEq γ] (key : α → κ) (val : α → β)

/-- Write every element's value under its key, first element first. -/
def applyWrites (m : κ → β) (l : List α) : κ → β :=
  l.foldl (fun m x => Function.update m (key x) (val x)) m

/-- Apply the groups in order, a group only when `commit` holds of its key. -/
def applyGroups (commit : γ → Bool) (m : κ → β) (groups : List (γ × List α)) : κ → β :=
  groups.foldl (fun m g => if commit g.1 then applyWrites key val m g.2 else m) m

variable {key val}

@[simp] theorem applyWrites_nil (m : κ → β) : applyWrites key val m [] = m := rfl

theorem applyWrites_append (m : κ → β) (l₁ l₂ : List α) :
    applyWrites key val m (l₁ ++ l₂) = applyWrites key val (applyWrites key val m l₁) l₂ :=
  List.foldl_append

/-- **Last write wins.** -/
theorem applyWrites_apply (m : κ → β) (l : List α) (k : κ) :
    applyWrites key val m l k = ((l.filter fun x => key x = k).getLast?.map val).getD (m k) := by
  induction l generalizing m with
  | nil => simp
  | cons x xs ih =>
    rw [applyWrites, List.foldl_cons, ← applyWrites, ih, List.filter_cons]
    cases hxs : (xs.filter fun x => key x = k).getLast? with
    | some y =>
      split <;> simp [List.getLast?_cons, hxs]
    | none =>
      rw [List.getLast?_eq_none_iff] at hxs
      by_cases hk : key x = k
      · simp [hk, hxs]
      · simp [hk, hxs, Function.update_of_ne (Ne.symm hk)]

omit [DecidableEq γ] in
theorem applyGroups_eq_applyWrites (commit : γ → Bool) (m : κ → β) (gs : List (γ × List α)) :
    applyGroups key val commit m gs =
      applyWrites key val m ((gs.filter fun g => commit g.1).flatMap Prod.snd) := by
  induction gs generalizing m with
  | nil => rfl
  | cons g gs ih =>
    rw [applyGroups, List.foldl_cons, ← applyGroups, ih, List.filter_cons]
    split <;> simp [applyWrites_append]

theorem filter_key_filter_part (part : κ → γ) (l : List α) (k : κ) :
    (l.filter fun x => part (key x) = part k).filter (fun x => key x = k) =
      l.filter fun x => key x = k := by
  rw [List.filter_filter]
  refine List.filter_congr fun x _ => ?_
  by_cases hk : key x = k <;> simp [hk]

/-- **Batched writes.** Grouping the writes by part and applying each part's batch when it
commits reads as the writes in order for a committed part, and as the old map otherwise. -/
theorem applyGroups_groupBy (part : κ → γ) (commit : γ → Bool) (m : κ → β) (l : List α)
    (k : κ) :
    applyGroups key val commit m (groupBy (fun x => part (key x)) l) k =
      if commit (part k) then applyWrites key val m l k else m k := by
  have hwf := (groupsWF_groupBy (f := fun x => part (key x)) l).2
  have hparts := members_filter hwf commit (part k)
  rw [members_groupBy] at hparts
  unfold members at hparts
  rw [applyGroups_eq_applyWrites, applyWrites_apply, ← filter_key_filter_part part, hparts]
  split
  · rw [filter_key_filter_part, applyWrites_apply]
  · simp

end Orrp.Lib
