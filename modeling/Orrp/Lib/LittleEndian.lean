import Mathlib

/-!
# Little-endian integers

A `w`-byte unsigned integer stored least significant byte first, as a `memcpy` of a `uint64_t` or
a `uint32_t` lays it out on a little-endian machine: `leBytes w x` writes `x` modulo `256 ^ w`
and `leValue` reads bytes back.

* `leValue_leBytes` — reading what was written gives the value modulo `256 ^ w`, so the value
  itself when it fits (`leValue_leBytes_of_lt`).
-/

namespace Orrp.Lib

/-- The `w` bytes of `x`, least significant first. -/
def leBytes : ℕ → ℕ → List UInt8
  | 0, _ => []
  | w + 1, x => UInt8.ofNat (x % 256) :: leBytes w (x / 256)

/-- The value of bytes read least significant first. -/
def leValue : List UInt8 → ℕ
  | [] => 0
  | b :: bs => b.toNat + 256 * leValue bs

variable {w x : ℕ}

@[simp] theorem length_leBytes : (leBytes w x).length = w := by
  induction w generalizing x with
  | zero => rfl
  | succ w ih => simp [leBytes, ih]

@[simp] theorem leValue_nil : leValue [] = 0 := rfl

@[simp] theorem leValue_cons (b : UInt8) (bs : List UInt8) : leValue (b :: bs) = b.toNat + 256 * leValue bs :=
  rfl

/-- **Reading back.**  The bytes of `x` read back as `x` modulo `256 ^ w`. -/
theorem leValue_leBytes : leValue (leBytes w x) = x % 256 ^ w := by
  induction w generalizing x with
  | zero => simp [leBytes, Nat.mod_one]
  | succ w ih =>
    have hbyte : (UInt8.ofNat (x % 256)).toNat = x % 256 := by simp
    rw [leBytes, leValue_cons, ih, hbyte, Nat.pow_succ, Nat.mul_comm _ 256, Nat.mod_mul]

theorem leValue_leBytes_of_lt (h : x < 256 ^ w) : leValue (leBytes w x) = x := by
  rw [leValue_leBytes, Nat.mod_eq_of_lt h]

end Orrp.Lib
