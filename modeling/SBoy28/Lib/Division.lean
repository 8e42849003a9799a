import Mathlib.Data.Nat.Notation
import Mathlib.Tactic.Common
import Mathlib.Tactic.Ring

/-!
# Restoring division

The bits of the numerator are taken from the highest one on. The remainder is shifted to make room for the
next bit, and if it has become too large the divisor is subtracted once.
-/

namespace SBoy28.Lib

variable {n d i q r : ℕ}

/-- The bits from `i` on are divided. -/
structure Divided (n d i q r : ℕ) : Prop where
  equation : n / 2 ^ i = q * d + r
  rest : r < d

/-- The remainder with the next bit behind it. -/
def shiftIn (n i r : ℕ) : ℕ := 2 * r + n / 2 ^ i % 2

lemma div_two_pow_succ (n i : ℕ) : n / 2 ^ i = 2 * (n / 2 ^ (i + 1)) + n / 2 ^ i % 2 := by
  have hhalf : n / 2 ^ i / 2 = n / 2 ^ (i + 1) := by rw [Nat.div_div_eq_div_mul, Nat.pow_succ]
  rw [← hhalf]
  omega

namespace Divided

lemma start (hn : n < 2 ^ i) (hd : 0 < d) : Divided n d i 0 0 where
  equation := by rw [Nat.div_eq_of_lt hn, Nat.zero_mul]
  rest := hd

/-- There is no carry out of the shift as long as the divisor leaves room for it. -/
lemma shiftIn_lt (h : Divided n d (i + 1) q r) : shiftIn n i r < 2 * d := by
  have hrest := h.rest
  unfold shiftIn
  omega

lemma keep (h : Divided n d (i + 1) q r) (hlt : shiftIn n i r < d) : Divided n d i (2 * q) (shiftIn n i r) where
  equation := by
    rw [div_two_pow_succ, h.equation, shiftIn]
    ring
  rest := hlt

lemma subtract (h : Divided n d (i + 1) q r) (hle : d ≤ shiftIn n i r) :
    Divided n d i (2 * q + 1) (shiftIn n i r - d) where
  equation := by
    have hsplit := Nat.sub_add_cancel hle
    have hdouble : n / 2 ^ i = 2 * (q * d) + shiftIn n i r := by
      rw [div_two_pow_succ, h.equation, shiftIn]
      ring
    have hnext : (2 * q + 1) * d = 2 * (q * d) + d := by ring
    rw [hdouble, hnext]
    omega
  rest := by
    have hlt := h.shiftIn_lt
    omega

/-- When all bits are taken, it is division with remainder. -/
theorem finish (h : Divided n d 0 q r) : q = n / d ∧ r = n % d := by
  have heq := h.equation
  rw [Nat.pow_zero, Nat.div_one] at heq
  have hpos : 0 < d := Nat.lt_of_le_of_lt (Nat.zero_le r) h.rest
  rw [heq, Nat.mul_comm q d, Nat.mul_add_div hpos, Nat.mul_add_mod, Nat.div_eq_of_lt h.rest,
    Nat.mod_eq_of_lt h.rest]
  exact ⟨rfl, rfl⟩

end Divided

end SBoy28.Lib
