import Mathlib.Logic.Function.Basic
import Mathlib.Data.List.Basic

/-!
# Striped maps with put-if-absent

A map whose `put` keeps an entry already present, and a table of such maps, its stripes, where a
key `a` lives in the stripe `idx a` under the stored key `key a`: its slot.  The stripes together
are one map over slots, `Function.uncurry t`, and the striped put is the put of that map at the
slot.  A map built by such puts holds, for each key, the first value put under it; two keys with
one slot are one key to the table.

* `uncurry_stripedPut`, `stripedPut_fst` — a put into the key's stripe is a put at its slot;
* `foldl_putIfAbsent_apply` — after a run of puts a key holds the first value put under it;
* `firstPut_map_of_injOn` — through a map of the keys that separates them, the first put is kept;
* `foldl_filterMap_of_step` — a run of calls seen through an abstraction is the run of the calls
  that change it.
-/

namespace Orrp.Lib

variable {α κ ν ι : Type*}

variable [DecidableEq κ]

/-- Put `v` under `k` unless `k` is present; the flag says whether it was put. -/
def putIfAbsent (m : κ → Option ν) (k : κ) (v : ν) : Bool × (κ → Option ν) :=
  match m k with
  | some _ => (false, m)
  | none => (true, Function.update m k (some v))

/-- The value of the first pair of `l` with key `k`. -/
def firstPut (l : List (κ × ν)) (k : κ) : Option ν :=
  (l.find? (fun p => decide (p.1 = k))).map Prod.snd

variable {m : κ → Option ν} {k : κ} {v : ν}

theorem putIfAbsent_of_some {w : ν} (h : m k = some w) : putIfAbsent m k v = (false, m) := by
  rw [putIfAbsent, h]

theorem putIfAbsent_of_none (h : m k = none) : putIfAbsent m k v = (true, Function.update m k (some v)) := by
  rw [putIfAbsent, h]

theorem putIfAbsent_fst : (putIfAbsent m k v).1 = (m k).isNone := by
  cases h : m k with
  | none => rw [putIfAbsent_of_none h]; rfl
  | some w => rw [putIfAbsent_of_some h]; rfl

theorem putIfAbsent_apply (k' : κ) : (putIfAbsent m k v).2 k' = if k' = k then (m k).or (some v) else m k' := by
  cases h : m k with
  | none =>
    rw [putIfAbsent_of_none h]
    by_cases hk : k' = k
    · subst hk
      simp
    · simp [hk]
  | some w =>
    rw [putIfAbsent_of_some h]
    by_cases hk : k' = k
    · subst hk
      simp [h]
    · simp [hk]

theorem putIfAbsent_apply_of_some {k' : κ} {w : ν} (h : m k' = some w) : (putIfAbsent m k v).2 k' = some w := by
  rw [putIfAbsent_apply]
  by_cases hk : k' = k
  · rw [if_pos hk, ← hk, h]
    rfl
  · rw [if_neg hk, h]

@[simp] theorem firstPut_nil : firstPut ([] : List (κ × ν)) k = none := rfl

theorem firstPut_cons (p : κ × ν) (l : List (κ × ν)) :
    firstPut (p :: l) k = if p.1 = k then some p.2 else firstPut l k := by
  by_cases hp : p.1 = k <;> simp [firstPut, hp]

/-- **A run of puts keeps the first value.**  A key holds what it held before the run, or else the
first value the run puts under it. -/
theorem foldl_putIfAbsent_apply (l : List (κ × ν)) (m : κ → Option ν) (k : κ) :
    (l.foldl (fun m p => (putIfAbsent m p.1 p.2).2) m) k = (m k).or (firstPut l k) := by
  induction l generalizing m with
  | nil => simp
  | cons p l ih =>
    rw [List.foldl_cons, ih, putIfAbsent_apply, firstPut_cons]
    by_cases hk : k = p.1
    · rw [if_pos hk, if_pos hk.symm, hk]
      cases m p.1 <;> rfl
    · rw [if_neg hk, if_neg (Ne.symm hk)]

/-! ## Stripes -/

theorem firstPut_map_of_injOn [DecidableEq α] (f : α → κ) (l : List (α × ν)) (a : α)
    (h : ∀ p ∈ l, f p.1 = f a → p.1 = a) :
    firstPut (l.map fun p => (f p.1, p.2)) (f a) = firstPut l a := by
  induction l with
  | nil => rfl
  | cons p l ih =>
    rw [List.map_cons, firstPut_cons, firstPut_cons, ih fun q hq => h q (List.mem_cons_of_mem _ hq)]
    by_cases hp : p.1 = a
    · rw [if_pos hp, if_pos (congrArg f hp)]
    · rw [if_neg hp, if_neg fun hf => hp (h p List.mem_cons_self hf)]

variable [DecidableEq ι] {idx : α → ι} {key : α → κ} {t : ι → κ → Option ν} {a : α}

/-- Put into the stripe of the key, under the key the stripe stores. -/
def stripedPut (idx : α → ι) (key : α → κ) (t : ι → κ → Option ν) (a : α) (v : ν) :
    Bool × (ι → κ → Option ν) :=
  let r := putIfAbsent (t (idx a)) (key a) v
  (r.1, Function.update t (idx a) r.2)

theorem stripedPut_of_some {w : ν} (h : Function.uncurry t (idx a, key a) = some w) :
    stripedPut idx key t a v = (false, t) := by
  rw [stripedPut, putIfAbsent_of_some (m := t (idx a)) h, Function.update_eq_self]

theorem stripedPut_fst :
    (stripedPut idx key t a v).1 = (putIfAbsent (Function.uncurry t) (idx a, key a) v).1 := by
  rw [stripedPut, putIfAbsent_fst, putIfAbsent_fst]
  rfl

/-- **The stripes make one map over slots.**  A put into the key's stripe puts at its slot. -/
theorem uncurry_stripedPut :
    Function.uncurry (stripedPut idx key t a v).2 =
      (putIfAbsent (Function.uncurry t) (idx a, key a) v).2 := by
  funext ⟨i, k⟩
  rw [putIfAbsent_apply]
  by_cases hi : i = idx a
  · -- the stripe the put wrote
    subst hi
    show Function.update t (idx a) _ (idx a) k = _
    rw [Function.update_self, putIfAbsent_apply]
    by_cases hk : k = key a
    · rw [if_pos hk, if_pos (by rw [hk])]
      rfl
    · rw [if_neg hk, if_neg fun h => hk (Prod.ext_iff.1 h).2]
      rfl
  · -- another stripe: untouched, and another slot
    show Function.update t (idx a) _ i k = _
    rw [Function.update_of_ne hi, if_neg fun h => hi (Prod.ext_iff.1 h).1]
    rfl

/-! ## Runs -/

/-- **Runs through an abstraction.**  When each call changes the abstraction `F` of the state by
`g` with what `f` reads off it, or not at all, a run of calls changes it by `g` over what `f` reads
off each of them. -/
theorem foldl_filterMap_of_step {σ τ γ δ : Type*} (F : σ → τ) (step : σ → γ → σ) (f : γ → Option δ)
    (g : τ → δ → τ) (h : ∀ s c, F (step s c) = (f c).elim (F s) (g (F s))) :
    ∀ (cs : List γ) (s : σ), F (cs.foldl step s) = (cs.filterMap f).foldl g (F s)
  | [], _ => rfl
  | c :: cs, s => by
    rw [List.foldl_cons, foldl_filterMap_of_step F step f g h cs, h s c]
    cases hc : f c with
    | none => rw [List.filterMap_cons_none hc]; rfl
    | some d => rw [List.filterMap_cons_some hc, List.foldl_cons]; rfl

end Orrp.Lib
