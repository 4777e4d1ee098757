import Mathlib.Data.Finset.Card
import Mathlib.Data.List.Infix

/-!
# Singly linked lists threaded through a heap

The cells of an intrusive list live in a heap and carry their own link, so the list is given by a
map `next` from a cell to the cell it links to.  `IsList next a l` says that following the links
from `a` visits the cells `l` and then reaches the null link; `walk` is the loop that follows the
links, for at most `fuel` cells.

* `IsList.nodup` — a list that reaches null visits no cell twice;
* `IsList.walk_eq` — with fuel for every cell the loop visits exactly the list;
* `IsList.snoc` — linking a new last cell after the old one appends it;
* `IsList.congr` — writes to cells off the list leave it as it is;
* `IsList.next_eq_head?` — a cell links to the head of what follows it;
* `IsList.concat`, `IsList.bypass` — linking a new cell after the last one appends it, and sending
  the links to a cell where it links takes it out.
-/

namespace Orrp.Lib

variable {α : Type*}

/-- Following `next` from the link `a`, for at most `fuel` cells. -/
def walk (next : α → Option α) : ℕ → Option α → List α
  | 0, _ => []
  | _ + 1, none => []
  | n + 1, some a => a :: walk next n (next a)

/-- Following `next` from the link `a` visits the cells `l`, then reaches the null link. -/
inductive IsList (next : α → Option α) : Option α → List α → Prop
  | nil : IsList next none []
  | cons {a : α} {l : List α} : IsList next (next a) l → IsList next (some a) (a :: l)

namespace IsList

variable {next next' : α → Option α} {a : Option α} {l l' : List α}

@[simp] theorem nil_iff : IsList next a [] ↔ a = none := by
  constructor
  · intro h
    cases h
    rfl
  · rintro rfl
    exact .nil

@[simp] theorem none_left : IsList next none l ↔ l = [] := by
  constructor
  · intro h
    cases h
    rfl
  · rintro rfl
    exact .nil

@[simp] theorem cons_iff {b : α} : IsList next a (b :: l) ↔ a = some b ∧ IsList next (next b) l := by
  constructor
  · intro h
    cases h with
    | cons h => exact ⟨rfl, h⟩
  · rintro ⟨rfl, h⟩
    exact .cons h

theorem unique (h : IsList next a l) (h' : IsList next a l') : l = l' := by
  induction h generalizing l' with
  | nil =>
    cases h'
    rfl
  | cons _ ih =>
    cases h' with
    | cons h' => rw [ih h']

theorem of_mem (h : IsList next a l) {x : α} (hx : x ∈ l) :
    ∃ l', IsList next (some x) l' ∧ l' <:+ l := by
  induction h with
  | nil => cases hx
  | @cons b l h ih =>
    rcases List.mem_cons.1 hx with rfl | hx
    · exact ⟨_, .cons h, List.suffix_refl _⟩
    · obtain ⟨l', hl', hsuf⟩ := ih hx
      exact ⟨l', hl', hsuf.trans (List.suffix_cons _ _)⟩

theorem nodup (h : IsList next a l) : l.Nodup := by
  induction h with
  | nil => exact List.nodup_nil
  | @cons b l h ih =>
    refine List.nodup_cons.2 ⟨fun hb => ?_, ih⟩
    -- from its second visit `b` would start the list `b :: l` again, inside `l`
    obtain ⟨l', hl', hsuf⟩ := h.of_mem hb
    have heq : l' = b :: l := hl'.unique (.cons h)
    have hlen := hsuf.length_le
    rw [heq, List.length_cons] at hlen
    omega

theorem walk_eq (h : IsList next a l) {n : ℕ} (hn : l.length ≤ n) : walk next n a = l := by
  induction h generalizing n with
  | nil => cases n <;> rfl
  | cons _ ih =>
    cases n with
    | zero => simp at hn
    | succ n =>
      rw [walk, ih (by simpa using hn)]

theorem congr (h : IsList next a l) (hnext : ∀ x ∈ l, next' x = next x) : IsList next' a l := by
  induction h with
  | nil => exact .nil
  | @cons b l h ih =>
    refine .cons ?_
    rw [hnext b List.mem_cons_self]
    exact ih fun x hx => hnext x (List.mem_cons_of_mem _ hx)

theorem snoc {t x : α} (h : IsList next a (l ++ [t])) (ht : next' t = some x) (hx : next' x = none)
    (hnext : ∀ y ∈ l, next' y = next y) : IsList next' a (l ++ [t, x]) := by
  induction l generalizing a with
  | nil =>
    obtain ⟨rfl, -⟩ := cons_iff.1 h
    exact .cons (ht ▸ .cons (hx ▸ .nil))
  | cons b l ih =>
    rw [List.cons_append] at h ⊢
    obtain ⟨rfl, hrest⟩ := cons_iff.1 h
    refine .cons ?_
    rw [hnext b List.mem_cons_self]
    exact ih hrest fun y hy => hnext y (List.mem_cons_of_mem _ hy)

theorem next_eq_head? {l₁ l₂ : List α} {x : α} (h : IsList next a (l₁ ++ x :: l₂)) :
    next x = l₂.head? := by
  induction l₁ generalizing a with
  | nil =>
    obtain ⟨-, h⟩ := cons_iff.1 h
    cases l₂ with
    | nil => exact nil_iff.1 h
    | cons y l₂ => exact (cons_iff.1 h).1
  | cons b l₁ ih => exact ih (cons_iff.1 h).2

theorem next_mem (h : IsList next a l) {y z : α} (hy : y ∈ l) (hz : next y = some z) : z ∈ l := by
  obtain ⟨l₁, l₂, rfl⟩ := List.append_of_mem hy
  rw [h.next_eq_head?] at hz
  cases l₂ with
  | nil => cases hz
  | cons w l₂ =>
    cases hz
    simp

theorem next_eq_none_iff (h : IsList next a l) {y : α} (hy : y ∈ l) :
    next y = none ↔ l.getLast? = some y := by
  obtain ⟨l₁, l₂, rfl⟩ := List.append_of_mem hy
  have hnd := h.nodup
  rw [h.next_eq_head?]
  cases l₂ with
  | nil => simp
  | cons w l₂ =>
    have hlast : (w :: l₂).getLast (List.cons_ne_nil _ _) ≠ y := by
      intro hw
      have hmem := List.getLast_mem (List.cons_ne_nil w l₂)
      rw [hw] at hmem
      rw [List.nodup_append] at hnd
      exact (List.nodup_cons.1 hnd.2.1).1 hmem
    simp only [List.head?_cons, reduceCtorEq, false_iff]
    rw [List.getLast?_append_of_ne_nil _ (List.cons_ne_nil _ _), List.getLast?_cons_cons,
      List.getLast?_eq_some_getLast (List.cons_ne_nil _ _)]
    simpa using hlast

theorem next_ne_self (h : IsList next a l) {y : α} (hy : y ∈ l) : next y ≠ some y := by
  obtain ⟨l₁, l₂, rfl⟩ := List.append_of_mem hy
  rw [h.next_eq_head?]
  intro hself
  have hnd := h.nodup
  rw [List.nodup_append] at hnd
  cases l₂ with
  | nil => cases hself
  | cons w l₂ =>
    cases hself
    exact (List.nodup_cons.1 hnd.2.1).1 List.mem_cons_self

/-- **Append.**  Linking the last cell to a new cell `x` that links to null appends `x`. -/
theorem concat {x : α} (h : IsList next a l) (hnext : ∀ y ∈ l, next' y = (next y).or (some x))
    (hx : next' x = none) : IsList next' (a.or (some x)) (l ++ [x]) := by
  induction h with
  | nil => exact .cons (hx ▸ .nil)
  | @cons b l h ih =>
    refine .cons ?_
    rw [hnext b List.mem_cons_self]
    exact ih fun y hy => hnext y (List.mem_cons_of_mem _ hy)

/-- **Unlink.**  Sending every link to `p` where `p` links, and taking `p` out, removes `p`. -/
theorem bypass [DecidableEq α] {p : α} {l₁ l₂ : List α} (h : IsList next a (l₁ ++ p :: l₂))
    (hnext : ∀ y ∈ l₁ ++ l₂, next' y = if next y = some p then next p else next y) :
    IsList next' (if a = some p then next p else a) (l₁ ++ l₂) := by
  induction l₁ generalizing a with
  | nil =>
    obtain ⟨rfl, hrest⟩ := cons_iff.1 h
    rw [if_pos rfl]
    refine hrest.congr fun y hy => ?_
    rw [hnext y hy, if_neg]
    intro hp
    have hnd := (IsList.cons hrest).nodup
    exact (List.nodup_cons.1 hnd).1 (hrest.next_mem hy hp)
  | cons b l₁ ih =>
    obtain ⟨rfl, hrest⟩ := cons_iff.1 h
    have hbp : b ≠ p := by
      intro hb
      subst hb
      have hnd := h.nodup
      simp at hnd
    rw [if_neg (by simpa using hbp)]
    refine .cons ?_
    rw [hnext b List.mem_cons_self]
    exact ih hrest fun y hy => hnext y (List.mem_cons_of_mem _ hy)

theorem length_le {next : ℕ → Option ℕ} {a : Option ℕ} {l : List ℕ} (h : IsList next a l) {N : ℕ}
    (hN : ∀ x ∈ l, x < N) : l.length ≤ N := by
  have hsub : l.toFinset ⊆ Finset.range N := fun x hx =>
    Finset.mem_range.2 (hN x (List.mem_toFinset.1 hx))
  calc l.length = l.toFinset.card := (List.toFinset_card_of_nodup h.nodup).symm
    _ ≤ (Finset.range N).card := Finset.card_le_card hsub
    _ = N := Finset.card_range N

end IsList

end Orrp.Lib
