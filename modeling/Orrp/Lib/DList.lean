import Orrp.Lib.LinkedList

/-!
# Doubly linked lists threaded through a heap

The cells of an intrusive doubly linked list carry two links, `next` and `prev`, and the list has
a `head` and a `tail` link.  `IsDList next prev head tail l` says that following `next` from the
head visits the cells `l` and reaches null, and following `prev` from the tail visits them
backwards: no cell twice, every cell's `prev` the cell whose `next` it is, the head's `prev` and
the tail's `next` null.

The two surgeries of an LRU list are stated by what they must make of every link, whatever the
order of the writes that make it:

* `IsDList.pushFront` — a new cell in front, linking to the old head;
* `IsDList.erase` — a cell taken out, its neighbours linked to each other;
* `IsDList.bypassLink_eq` — the write `if (p->prev) p->prev->next = p->next` makes every link to
  `p` a link to where `p` links.

`IsDList.linkFront` and `IsDList.bypassLink_erase` are the two surgeries as the usual writes make
them.
-/

namespace Orrp.Lib

variable {α : Type*}

/-- The cells `l`, linked both ways from `head` and from `tail`. -/
structure IsDList (next prev : α → Option α) (head tail : Option α) (l : List α) : Prop where
  fwd : IsList next head l
  bwd : IsList prev tail l.reverse

/-- The write `if (p->prev) p->prev->next = p->next`, of the links `next`. -/
def bypassLink [DecidableEq α] (next prev : α → Option α) (p : α) : α → Option α :=
  match prev p with
  | some q => Function.update next q (next p)
  | none => next

theorem bypassLink_congr [DecidableEq α] {next prev prev' : α → Option α} {p : α}
    (hp : prev' p = prev p) : bypassLink next prev' p = bypassLink next prev p := by
  unfold bypassLink
  rw [hp]

theorem bypassLink_of_eq_none [DecidableEq α] {next prev : α → Option α} {p : α}
    (hp : prev p = none) : bypassLink next prev p = next := by
  unfold bypassLink
  rw [hp]

/-- The writes that link `p` in front of the head: `p->prev = NULL; p->next = head;
if (head) head->prev = p`. -/
def linkFront [DecidableEq α] (next prev : α → Option α) (head : Option α) (p : α) :
    (α → Option α) × (α → Option α) :=
  let prev := Function.update prev p none
  (Function.update next p head,
    match head with
    | some h => Function.update prev h (some p)
    | none => prev)

theorem erase_eq_dropLast [DecidableEq α] {l : List α} {p : α} (hnd : l.Nodup)
    (hp : l.getLast? = some p) : l.erase p = l.dropLast := by
  obtain ⟨l', rfl⟩ : ∃ l', l = l' ++ [p] := ⟨l.dropLast, (List.dropLast_append_getLast? p hp).symm⟩
  have hnot : p ∉ l' := fun hmem => by
    rw [List.nodup_append] at hnd
    exact hnd.2.2 p hmem p List.mem_cons_self rfl
  rw [List.erase_append_right _ hnot, List.erase_cons_head, List.append_nil, List.dropLast_concat]

namespace IsList

variable {next : α → Option α} {a : Option α} {l : List α}

theorem eq_head? (h : IsList next a l) : a = l.head? := by
  cases h <;> rfl

end IsList

namespace IsDList

variable {next prev next' prev' : α → Option α} {head tail : Option α} {l : List α}

theorem nil : IsDList next prev none none [] := ⟨.nil, .nil⟩

theorem nodup (h : IsDList next prev head tail l) : l.Nodup := h.fwd.nodup

theorem head_eq (h : IsDList next prev head tail l) : head = l.head? := h.fwd.eq_head?

theorem tail_eq (h : IsDList next prev head tail l) : tail = l.getLast? := by
  rw [h.bwd.eq_head?, List.head?_reverse]

theorem tail_eq_none_iff (h : IsDList next prev head tail l) : tail = none ↔ head = none := by
  rw [h.tail_eq, h.head_eq, List.getLast?_eq_none_iff, List.head?_eq_none_iff]

theorem prev_eq_none_iff (h : IsDList next prev head tail l) {x : α} (hx : x ∈ l) :
    prev x = none ↔ head = some x := by
  rw [h.bwd.next_eq_none_iff (List.mem_reverse.2 hx), List.getLast?_reverse, h.head_eq]

theorem next_eq_none_iff (h : IsDList next prev head tail l) {x : α} (hx : x ∈ l) :
    next x = none ↔ tail = some x := by
  rw [h.fwd.next_eq_none_iff hx, h.tail_eq]

theorem prev_head (h : IsDList next prev head tail l) {x : α} (hx : head = some x) : prev x = none :=
  (h.prev_eq_none_iff (List.mem_of_mem_head? (h.head_eq ▸ hx))).2 hx

theorem prev_of_next (h : IsDList next prev head tail l) {x y : α} (hx : x ∈ l) (hy : next x = some y) :
    prev y = some x := by
  obtain ⟨l₁, l₂, rfl⟩ := List.append_of_mem hx
  rw [h.fwd.next_eq_head?] at hy
  cases l₂ with
  | nil => cases hy
  | cons z l₂ =>
    cases hy
    have hbwd := h.bwd
    rw [List.reverse_append, List.reverse_cons, List.reverse_cons, List.append_assoc, List.append_assoc,
      List.singleton_append, List.singleton_append] at hbwd
    rw [hbwd.next_eq_head?]
    rfl

theorem congr (h : IsDList next prev head tail l) (hnext : ∀ x ∈ l, next' x = next x)
    (hprev : ∀ x ∈ l, prev' x = prev x) : IsDList next' prev' head tail l :=
  ⟨h.fwd.congr hnext, h.bwd.congr fun x hx => hprev x (List.mem_reverse.1 hx)⟩

theorem reverse (h : IsDList next prev head tail l) : IsDList prev next tail head l.reverse :=
  ⟨h.bwd, by rw [List.reverse_reverse]; exact h.fwd⟩

theorem next_of_prev (h : IsDList next prev head tail l) {x y : α} (hx : x ∈ l) (hy : prev x = some y) :
    next y = some x :=
  h.reverse.prev_of_next (List.mem_reverse.2 hx) hy

theorem next_ne_self (h : IsDList next prev head tail l) {x : α} (hx : x ∈ l) : next x ≠ some x :=
  h.fwd.next_ne_self hx

theorem prev_ne_self (h : IsDList next prev head tail l) {x : α} (hx : x ∈ l) : prev x ≠ some x :=
  h.bwd.next_ne_self (List.mem_reverse.2 hx)

section Surgery

variable [DecidableEq α]

/-- **A new head.**  A cell `p` off the list, linking on to the old head, with the old head
linking back to it, becomes the head; it is the tail too of an empty list. -/
theorem pushFront (h : IsDList next prev head tail l) {p : α} (hp : p ∉ l)
    (hnext : ∀ y ∈ p :: l, next' y = if y = p then head else next y)
    (hprev : ∀ y ∈ p :: l, prev' y = if y = p then none else if head = some y then some p else prev y) :
    IsDList next' prev' (some p) (tail.or (some p)) (p :: l) := by
  have hne : ∀ y ∈ l, y ≠ p := fun y hy hyp => hp (hyp ▸ hy)
  constructor
  · refine .cons ?_
    rw [hnext p List.mem_cons_self, if_pos rfl]
    exact h.fwd.congr fun y hy => by rw [hnext y (List.mem_cons_of_mem _ hy), if_neg (hne y hy)]
  · rw [List.reverse_cons]
    refine h.bwd.concat (fun y hy => ?_) (by rw [hprev p List.mem_cons_self, if_pos rfl])
    have hy' : y ∈ l := List.mem_reverse.1 hy
    rw [hprev y (List.mem_cons_of_mem _ hy'), if_neg (hne y hy')]
    have hnone := h.prev_eq_none_iff hy'
    by_cases hhead : head = some y
    · rw [if_pos hhead, hnone.2 hhead]
      rfl
    · rw [if_neg hhead]
      obtain ⟨z, hz⟩ := Option.ne_none_iff_exists'.1 (mt hnone.1 hhead)
      rw [hz]
      rfl

/-- **Unlinking a cell.**  Sending every link to `p` where `p` links, in both directions, takes
`p` out of the list. -/
theorem erase (h : IsDList next prev head tail l) {p : α} (hp : p ∈ l)
    (hnext : ∀ y ∈ l.erase p, next' y = if next y = some p then next p else next y)
    (hprev : ∀ y ∈ l.erase p, prev' y = if prev y = some p then prev p else prev y) :
    IsDList next' prev' (if head = some p then next p else head)
      (if tail = some p then prev p else tail) (l.erase p) := by
  obtain ⟨l₁, l₂, rfl⟩ := List.append_of_mem hp
  have hnd := h.nodup
  have hp₁ : p ∉ l₁ := fun hp₁ => by
    rw [List.nodup_append] at hnd
    exact hnd.2.2 p hp₁ p List.mem_cons_self rfl
  have herase : (l₁ ++ p :: l₂).erase p = l₁ ++ l₂ := by
    rw [List.erase_append_right _ hp₁, List.erase_cons_head]
  rw [herase] at hnext hprev ⊢
  constructor
  · exact h.fwd.bypass hnext
  · -- backwards, `p` sits between the same two neighbours
    have hbwd := h.bwd
    rw [List.reverse_append, List.reverse_cons, List.append_assoc, List.singleton_append] at hbwd
    rw [List.reverse_append]
    exact hbwd.bypass fun y hy => hprev y (by simpa [or_comm] using hy)

theorem bypassLink_self (h : IsDList next prev head tail l) {p : α} (hp : p ∈ l) :
    bypassLink next prev p p = next p := by
  unfold bypassLink
  rcases hq : prev p with _ | q
  · rfl
  · dsimp only
    rw [Function.update_of_ne (fun hpq => h.prev_ne_self hp (by rw [hq, hpq]))]

/-- **Bypassing a cell.**  After the write, every cell that linked to `p` links where `p` does. -/
theorem bypassLink_eq (h : IsDList next prev head tail l) {p : α} (hp : p ∈ l) {y : α} (hy : y ∈ l) :
    bypassLink next prev p y = if next y = some p then next p else next y := by
  unfold bypassLink
  rcases hq : prev p with _ | q
  · -- `p` is the head: no cell links to it
    rw [if_neg fun hyp => by rw [h.prev_of_next hy hyp] at hq; cases hq]
  · -- `q` is the one cell that links to `p`
    dsimp only
    have hiff : y = q ↔ next y = some p :=
      ⟨fun hyq => hyq ▸ h.next_of_prev hp hq, fun hyp => by
        rw [h.prev_of_next hy hyp] at hq
        exact Option.some.inj hq⟩
    by_cases hyq : y = q
    · rw [if_pos (hiff.1 hyq), hyq, Function.update_self]
    · rw [if_neg (mt hiff.2 hyq), Function.update_of_ne hyq]

theorem linkFront (h : IsDList next prev head tail l) {p : α} (hp : p ∉ l) :
    IsDList (Lib.linkFront next prev head p).1 (Lib.linkFront next prev head p).2 (some p)
      (tail.or (some p)) (p :: l) := by
  refine h.pushFront hp (fun y _ => by simp [Lib.linkFront, Function.update_apply]) (fun y hy => ?_)
  rcases hhead : head with _ | x
  · simp [Lib.linkFront, Function.update_apply]
  · -- the old head is on the list, so it is not the new cell
    have hx : x ≠ p := fun hxp => hp (hxp ▸ List.mem_of_mem_head? (h.head_eq ▸ hhead))
    simp only [Lib.linkFront, Function.update_apply, Option.some.injEq]
    by_cases hyp : y = p
    · simp [hyp, Ne.symm hx]
    · by_cases hyx : y = x
      · subst hyx
        simp [hyp]
      · simp [hyp, hyx, eq_comm]

theorem bypassLink_erase (h : IsDList next prev head tail l) {p : α} (hp : p ∈ l) :
    IsDList (bypassLink next prev p) (bypassLink prev next p)
      (if head = some p then next p else head) (if tail = some p then prev p else tail) (l.erase p) :=
  h.erase hp (fun _ hy => h.bypassLink_eq hp (List.mem_of_mem_erase hy))
    (fun _ hy => h.reverse.bypassLink_eq (List.mem_reverse.2 hp) (List.mem_reverse.2 (List.mem_of_mem_erase hy)))

theorem linkFront_of_ne_nil (h : IsDList next prev head tail l) {p : α} (hp : p ∉ l) (hl : l ≠ []) :
    IsDList (Lib.linkFront next prev head p).1 (Lib.linkFront next prev head p).2 (some p) tail
      (p :: l) := by
  have hsome : tail.isSome := by
    rw [h.tail_eq]
    exact List.getLast?_isSome.2 hl
  have hfront := h.linkFront hp
  rwa [Option.or_of_isSome hsome] at hfront

/-- **Unlinking a cell** by the writes `if (p->prev) p->prev->next = p->next` and then
`if (p->next) p->next->prev = p->prev`, the second reading the links the first left. -/
theorem unlink (h : IsDList next prev head tail l) {p : α} (hp : p ∈ l) :
    IsDList (bypassLink next prev p) (bypassLink prev (bypassLink next prev p) p)
      (if head = some p then next p else head) (if tail = some p then prev p else tail) (l.erase p) := by
  rw [bypassLink_congr (h.bypassLink_self hp)]
  exact h.bypassLink_erase hp

theorem update_of_not_mem (h : IsDList next prev head tail l) {p : α} (hp : p ∉ l) (a b : Option α) :
    IsDList (Function.update next p a) (Function.update prev p b) head tail l :=
  have hoff : ∀ x ∈ l, x ≠ p := fun _ hx hxp => hp (hxp ▸ hx)
  h.congr (fun x hx => Function.update_of_ne (hoff x hx) _ _)
    (fun x hx => Function.update_of_ne (hoff x hx) _ _)

theorem erase_tail (h : IsDList next prev head tail l) {p : α} (hp : tail = some p) :
    l.erase p = l.dropLast :=
  erase_eq_dropLast h.nodup (h.tail_eq ▸ hp)

end Surgery

end IsDList

end Orrp.Lib
