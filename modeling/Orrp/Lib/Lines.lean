import Mathlib.Data.List.TakeDrop
import Mathlib.Data.List.TakeWhile

/-!
# The lines of a stream

`lines sep s` cuts the stream `s` at every separator `sep`: it gives the lines a separator ends,
without it, and the tail after the last separator.  The stream is its lines, each with its
separator, then the tail (`lines_spec`).

* `lines_append` — the lines of `s ++ d` are those of `s`, then those of the tail of `s` followed
  by `d`: a reader that keeps the tail of what it has read and cuts it together with the next
  piece finds the lines of the whole stream, however the stream is cut into pieces;
* `lines_span` — a search for the first separator (`List.span`) finds the first line;
* `append_sep_inj` — a text cut at its first separator is read back uniquely.
-/

namespace Orrp.Lib

variable {α : Type*}

/-- The lines, each with its separator, then the tail. -/
def unlines (sep : α) (ls : List (List α)) (t : List α) : List α :=
  (ls.map (· ++ [sep])).flatten ++ t

@[simp] theorem unlines_nil (sep : α) (t : List α) : unlines sep [] t = t := rfl

@[simp] theorem unlines_cons (sep : α) (l : List α) (ls : List (List α)) (t : List α) :
    unlines sep (l :: ls) t = l ++ sep :: unlines sep ls t := by
  simp [unlines]

variable [DecidableEq α] (sep : α)

/-- The lines of `s` that `sep` ends, and the tail after the last `sep`. -/
def lines : List α → List (List α) × List α
  | [] => ([], [])
  | a :: s =>
    match lines s with
    | (ls, t) =>
      if a = sep then ([] :: ls, t)
      else
        match ls with
        | [] => ([], a :: t)
        | l :: ls => ((a :: l) :: ls, t)

variable {sep}

@[simp] theorem lines_nil : lines sep [] = ([], []) := rfl

theorem lines_of_not_mem {s : List α} (h : sep ∉ s) : lines sep s = ([], s) := by
  induction s with
  | nil => rfl
  | cons a s ih =>
    rw [List.mem_cons, not_or] at h
    rw [lines, ih h.2]
    dsimp only
    rw [if_neg (Ne.symm h.1)]

theorem lines_append_sep {l : List α} (hl : sep ∉ l) (x : List α) :
    lines sep (l ++ sep :: x) = (l :: (lines sep x).1, (lines sep x).2) := by
  induction l with
  | nil => simp [lines]
  | cons a l ih =>
    rw [List.mem_cons, not_or] at hl
    rw [List.cons_append, lines, ih hl.2]
    dsimp only
    rw [if_neg (Ne.symm hl.1)]

/-- **One cut.**  Text without the separator, then the separator, is read back from the whole, and
so is what follows. -/
theorem append_sep_inj {a b x y : List α} (ha : sep ∉ a) (hb : sep ∉ b) (h : a ++ sep :: x = b ++ sep :: y) :
    a = b ∧ x = y := by
  have hfirst := congrArg (fun s => (lines sep s).1.head?) h
  simp only [lines_append_sep ha, lines_append_sep hb, List.head?_cons, Option.some.injEq] at hfirst
  subst hfirst
  exact ⟨rfl, List.tail_eq_of_cons_eq (List.append_cancel_left h)⟩

theorem lines_unlines {ls : List (List α)} (hls : ∀ l ∈ ls, sep ∉ l) (x : List α) :
    lines sep (unlines sep ls x) = (ls ++ (lines sep x).1, (lines sep x).2) := by
  induction ls with
  | nil => rfl
  | cons l ls ih =>
    rw [unlines_cons, lines_append_sep (hls l List.mem_cons_self),
      ih fun l' hl' => hls l' (List.mem_cons_of_mem _ hl')]
    rfl

/-- **The cut.**  The stream is its lines, each with its separator, then the tail, and no line nor
the tail holds a separator. -/
theorem lines_spec (s : List α) :
    unlines sep (lines sep s).1 (lines sep s).2 = s ∧ (∀ l ∈ (lines sep s).1, sep ∉ l) ∧
      sep ∉ (lines sep s).2 := by
  induction s with
  | nil => simp
  | cons a s ih =>
    obtain ⟨hs, hls, ht⟩ := ih
    rw [lines]
    rcases hcut : lines sep s with ⟨ls, t⟩
    rw [hcut] at hs hls ht
    dsimp only at hs hls ht ⊢
    by_cases ha : a = sep
    · subst ha
      rw [if_pos rfl]
      refine ⟨by rw [unlines_cons, List.nil_append, hs], fun l hl => ?_, ht⟩
      rcases List.mem_cons.1 hl with rfl | hl
      · exact List.not_mem_nil
      · exact hls l hl
    · rw [if_neg ha]
      cases ls with
      | nil =>
        refine ⟨(by rw [unlines_nil] at hs ⊢; rw [hs]), fun l hl => (by cases hl), ?_⟩
        rw [List.mem_cons, not_or]
        exact ⟨Ne.symm ha, ht⟩
      | cons l ls =>
        refine ⟨(by rw [unlines_cons] at hs ⊢; rw [List.cons_append, hs]), fun l' hl' => ?_, ht⟩
        rcases List.mem_cons.1 hl' with rfl | hl'
        · rw [List.mem_cons, not_or]
          exact ⟨Ne.symm ha, hls l List.mem_cons_self⟩
        · exact hls l' (List.mem_cons_of_mem _ hl')

/-- **Reading on.**  The lines of `s ++ d` are the lines of `s`, then the lines of the tail of `s`
followed by `d`. -/
theorem lines_append (s d : List α) :
    lines sep (s ++ d) =
      ((lines sep s).1 ++ (lines sep ((lines sep s).2 ++ d)).1, (lines sep ((lines sep s).2 ++ d)).2) := by
  obtain ⟨hs, hls, -⟩ := @lines_spec α _ sep s
  conv_lhs => rw [← hs]
  rw [unlines, List.append_assoc, ← unlines, lines_unlines hls]

/-- **The search for a separator.**  Split at the first separator, a stream is its first line, the
separator and the rest; with none, it is all tail. -/
theorem lines_span {s line rest : List α} (h : s.span (· != sep) = (line, rest)) :
    (rest = [] ∧ lines sep s = ([], s)) ∨
      ∃ after, rest = sep :: after ∧ s = line ++ sep :: after ∧
        lines sep s = (line :: (lines sep after).1, (lines sep after).2) := by
  rw [List.span_eq_takeWhile_dropWhile, Prod.mk.injEq] at h
  obtain ⟨rfl, rfl⟩ := h
  have hline : sep ∉ s.takeWhile (· != sep) := fun hmem => by
    simpa using List.mem_takeWhile_imp hmem
  have hs := List.takeWhile_append_dropWhile (p := fun x => x != sep) (l := s)
  cases hdrop : s.dropWhile (· != sep) with
  | nil =>
    rw [hdrop, List.append_nil] at hs
    exact .inl ⟨rfl, lines_of_not_mem (hs ▸ hline)⟩
  | cons x after =>
    have hx : x = sep := by
      have hstop := List.head?_dropWhile_not (fun x => x != sep) s
      rw [hdrop] at hstop
      simpa using hstop
    subst hx
    rw [hdrop] at hs
    refine .inr ⟨after, rfl, hs.symm, ?_⟩
    conv_lhs => rw [← hs]
    exact lines_append_sep hline after

end Orrp.Lib
