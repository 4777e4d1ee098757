import Mathlib

/-!
# Msgpack documents

A msgpack document as the tree of values a reader meets: integers, strings, maps and arrays.  A map
is the list of its entries in the order they were written, so nothing makes its keys distinct.  A writer
of a signed integer stores a non-negative one in an unsigned encoding, and a reader sees it as
such (`ofInt`).

A reader's `expect` functions read one value of the kind they expect and flag an error otherwise;
an error is sticky, so a decoder built from them is an `Option` computation.

* `expectCstr_str`, `expectCstr_of_le` — a string is read into a buffer of `maxsize` bytes exactly
  when it leaves room for the terminator;
* `expectInt_ofInt` — an integer in the range of `int` reads back as itself;
* `mapM_eq_none_of_mem`, `exists_of_mapM_eq_some` — documents decoded one after another fail as
  soon as one fails, and each result decodes one of them.
-/

namespace Orrp.Lib

/-- A msgpack value. -/
inductive MpValue
  | nil
  | int (n : ℤ)
  | uint (n : ℕ)
  | str (s : String)
  | map (entries : List (MpValue × MpValue))
  | array (items : List MpValue)
  deriving Repr

namespace MpValue

/-- What a reader meets where a signed integer was written. -/
def ofInt (n : ℤ) : MpValue := if 0 ≤ n then .uint n.toNat else .int n

/-- A read of a string into a buffer of `maxsize` bytes, terminator included: a string of fewer
than `maxsize` bytes with no null byte in it. -/
def expectCstr (maxsize : ℕ) : MpValue → Option String
  | .str s => if s.utf8ByteSize < maxsize ∧ '\x00' ∉ s.toList then some s else none
  | _ => none

/-- A read of an `int`: an integer of either kind within `[INT32_MIN, INT32_MAX]`. -/
def expectInt : MpValue → Option ℤ
  | .int n => if -2 ^ 31 ≤ n ∧ n < 2 ^ 31 then some n else none
  | .uint n => if n < 2 ^ 31 then some (n : ℤ) else none
  | _ => none

/-- The keys of a map, in the order they were written. -/
def keys (entries : List (MpValue × MpValue)) : List MpValue := entries.map Prod.fst

theorem ofInt_of_nonneg {n : ℤ} (h : 0 ≤ n) : ofInt n = .uint n.toNat := if_pos h

theorem ofInt_of_neg {n : ℤ} (h : n < 0) : ofInt n = .int n := if_neg (not_le.2 h)

variable {s : String} {maxsize : ℕ}

theorem expectCstr_str (h : s.utf8ByteSize < maxsize) (hnul : '\x00' ∉ s.toList) :
    expectCstr maxsize (.str s) = some s := by
  simp [expectCstr, h, hnul]

theorem expectCstr_of_le (h : maxsize ≤ s.utf8ByteSize) : expectCstr maxsize (.str s) = none := by
  simp [expectCstr, Nat.not_lt.2 h]

theorem expectInt_ofInt {n : ℤ} (hlo : -2 ^ 31 ≤ n) (hhi : n < 2 ^ 31) :
    expectInt (ofInt n) = some n := by
  unfold ofInt
  split
  · rename_i hn
    have hlt : n.toNat < 2 ^ 31 := by omega
    rw [expectInt, if_pos hlt, Int.toNat_of_nonneg hn]
  · simp only [expectInt]
    rw [if_pos ⟨hlo, hhi⟩]

end MpValue

/-! ## Decoding documents one after another -/

section Decode

variable {α β : Type*} {f : α → Option β}

theorem mapM_eq_none_of_mem : ∀ {l : List α} {a : α}, a ∈ l → f a = none → l.mapM f = none
  | a' :: l, a, ha, h => by
    rw [List.mapM_cons]
    rcases List.mem_cons.1 ha with rfl | ha
    · simp [h]
    · rcases f a' with _ | b
      · rfl
      · simp [mapM_eq_none_of_mem ha h]

theorem exists_of_mapM_eq_some : ∀ {l : List α} {bs : List β}, l.mapM f = some bs →
    ∀ b ∈ bs, ∃ a ∈ l, f a = some b
  | [], bs, h, b, hb => by
    cases h
    cases hb
  | a :: l, bs, h, b, hb => by
    rw [List.mapM_cons] at h
    rcases ha : f a with _ | b'
    · rw [ha] at h
      cases h
    rcases hl : l.mapM f with _ | bs'
    · rw [ha, hl] at h
      cases h
    rw [ha, hl] at h
    cases h
    rcases List.mem_cons.1 hb with rfl | hb
    · exact ⟨a, List.mem_cons_self, ha⟩
    · obtain ⟨a', ha', hfa⟩ := exists_of_mapM_eq_some hl b hb
      exact ⟨a', List.mem_cons_of_mem _ ha', hfa⟩

end Decode

end Orrp.Lib
