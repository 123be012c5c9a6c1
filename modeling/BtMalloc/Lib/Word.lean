import Mathlib.Data.Nat.Bitwise
import Mathlib.Tactic.Ring

/-!
# 64-bit words as natural numbers

Unsigned machine words are natural numbers below `2 ^ 64`; the operations below wrap as the machine
does. `maskDown x a` clears the bits of `x` below the power of two `a`, and `roundUp` is the usual
round-up built from it, which wraps like every other addition.
-/

namespace Word

/-- `x & ~(a - 1)` on 64-bit words. -/
def maskDown (x a : ℕ) : ℕ := x &&& (2 ^ 64 - a)

/-- `(v + a - 1) & ~(a - 1)` on 64-bit words. -/
def roundUp (v a : ℕ) : ℕ := maskDown ((v + a - 1) % 2 ^ 64) a

/-- A counter of `w` bits decremented by one. -/
def decr (w x : ℕ) : ℕ := if x = 0 then 2 ^ w - 1 else x - 1

/-- A counter of `w` bits decremented by `n`. -/
def subWrap (w x n : ℕ) : ℕ := if n ≤ x then x - n else x + 2 ^ w - n

theorem decr_of_pos {w x : ℕ} (h : 0 < x) : decr w x = x - 1 := by
  unfold decr
  rw [if_neg (by omega)]

theorem subWrap_of_le {w x n : ℕ} (h : n ≤ x) : subWrap w x n = x - n := by
  unfold subWrap
  rw [if_pos h]

/-- Masking with a power of two rounds down to a multiple of it. -/
theorem maskDown_eq {x k : ℕ} (hx : x < 2 ^ 64) (hk : k ≤ 64) :
    maskDown x (2 ^ k) = x / 2 ^ k * 2 ^ k := by
  have hmask : 2 ^ 64 - 2 ^ k = (2 ^ (64 - k) - 1) <<< k := by
    rw [Nat.shiftLeft_eq, Nat.sub_mul, one_mul, ← pow_add]
    congr 2
    omega
  unfold maskDown
  rw [hmask]
  apply Nat.eq_of_testBit_eq
  intro i
  rw [← Nat.shiftRight_eq_div_pow, ← Nat.shiftLeft_eq]
  simp only [Nat.testBit_and, Nat.testBit_shiftLeft, Nat.testBit_two_pow_sub_one,
    Nat.testBit_shiftRight]
  by_cases hik : k ≤ i
  · have hki : k + (i - k) = i := by omega
    simp only [hik, decide_true, Bool.true_and, hki]
    by_cases hi : i < 64
    · simp [show i - k < 64 - k by omega]
    · have hbig : x.testBit i = false :=
        Nat.testBit_lt_two_pow (lt_of_lt_of_le hx (Nat.pow_le_pow_right (by omega) (by omega)))
      simp [hbig]
  · simp [hik]

/-- Rounding up to a power of two without wrap-around: a multiple of it at or above the argument,
    less than one step away. -/
theorem roundUp_spec {v k : ℕ} (hk : k ≤ 64) (hv : v + 2 ^ k - 1 < 2 ^ 64) :
    v ≤ roundUp v (2 ^ k) ∧ roundUp v (2 ^ k) < v + 2 ^ k ∧ 2 ^ k ∣ roundUp v (2 ^ k) := by
  have hpos : 0 < 2 ^ k := Nat.two_pow_pos k
  unfold roundUp
  rw [Nat.mod_eq_of_lt hv, maskDown_eq hv hk]
  have h1 := Nat.div_add_mod (v + 2 ^ k - 1) (2 ^ k)
  have h2 := Nat.mod_lt (v + 2 ^ k - 1) hpos
  rw [Nat.mul_comm] at h1
  refine ⟨by omega, by omega, Nat.dvd_mul_left ..⟩

end Word
