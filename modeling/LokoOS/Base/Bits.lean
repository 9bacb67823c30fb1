import Mathlib.Algebra.Ring.Nat

/-!
# Bit fields of naturals

Library `Base`. Masking a natural with a single bit or with a run of bits, as division
and remainder, so that facts about packed words become linear arithmetic.
-/

namespace LokoOS.Base

/-- Masking with a run of `n` bits from bit `k` up. -/
theorem and_field (x k n : Nat) : x &&& 2 ^ k * (2 ^ n - 1) = 2 ^ k * (x / 2 ^ k % 2 ^ n) := by
  apply Nat.eq_of_testBit_eq
  intro i
  rw [Nat.testBit_and, Nat.testBit_two_pow_mul, Nat.testBit_two_pow_mul,
    Nat.testBit_two_pow_sub_one, Nat.testBit_mod_two_pow, Nat.testBit_div_two_pow]
  by_cases hk : k ≤ i
  · simp only [ge_iff_le, hk, decide_true, Bool.true_and, Nat.sub_add_cancel]
    exact Bool.and_comm _ _
  · simp [hk]

/-- Masking with one bit. -/
theorem and_bit (x k : Nat) : x &&& 2 ^ k = 2 ^ k * (x / 2 ^ k % 2) := by
  have := and_field x k 1
  simpa using this

/-- A mask below a power of two sees only the bits below it. -/
theorem and_congr_mod {x y m : Nat} (k : Nat) (hm : m < 2 ^ k) (h : x % 2 ^ k = y % 2 ^ k) :
    x &&& m = y &&& m := by
  have hlow (z : Nat) : z &&& m = z % 2 ^ k &&& m := by
    have hlt : z &&& m < 2 ^ k := Nat.lt_of_le_of_lt Nat.and_le_right hm
    rw [← Nat.mod_eq_of_lt hlt, Nat.and_mod_two_pow, Nat.mod_eq_of_lt hm]
  rw [hlow x, hlow y, h]

/-- Setting bits does not mix the bits below a power of two with those above. -/
theorem or_congr_mod {x y : Nat} (k m : Nat) (h : x % 2 ^ k = y % 2 ^ k) :
    (x ||| m) % 2 ^ k = (y ||| m) % 2 ^ k := by
  rw [Nat.or_mod_two_pow, Nat.or_mod_two_pow, h]

/-- Setting bits below a multiple of a power of two adds them. -/
theorem or_low {x b : Nat} (k : Nat) (hx : x % 2 ^ k = 0) (hb : b < 2 ^ k) : x ||| b = x + b := by
  have he : 2 ^ k * (x / 2 ^ k) = x := Nat.mul_div_cancel' (Nat.dvd_of_mod_eq_zero hx)
  have := Nat.two_pow_add_eq_or_of_lt hb (x / 2 ^ k)
  rw [he] at this
  exact this.symm

/-- Setting a bit above a number adds it. -/
theorem or_high {x : Nat} (k : Nat) (hx : x < 2 ^ k) : x ||| 2 ^ k = x + 2 ^ k := by
  rw [Nat.or_comm, or_low k (Nat.mod_self _) hx, Nat.add_comm]

end LokoOS.Base
