import Mathlib.Algebra.BigOperators.Intervals

namespace Zkie.Positional

open Finset

/-- Digits below the base denote a number below the power of the base. -/
theorem sum_digits_lt {b : ℕ} (d : ℕ → ℕ) (n : ℕ) (hd : ∀ i < n, d i < b) :
    ∑ i ∈ range n, d i * b ^ i < b ^ n := by
  induction n with
  | zero => simp
  | succ n ih =>
      have hrest := ih fun i hi => hd i (by omega)
      have hlast : d n * b ^ n ≤ (b - 1) * b ^ n := Nat.mul_le_mul_right _ (by have := hd n (by omega); omega)
      have hb : 0 < b := by have := hd n (by omega); omega
      have hpow : (b - 1) * b ^ n + b ^ n = b ^ (n + 1) := by
        rw [← Nat.succ_mul, Nat.succ_eq_add_one, Nat.sub_add_cancel hb, pow_succ, Nat.mul_comm]
      rw [sum_range_succ]
      omega

/-- The digits cut out of a number by division and remainder denote it again. -/
theorem sum_div_mod (b n v : ℕ) (hv : v < b ^ n) : ∑ i ∈ range n, v / b ^ i % b * b ^ i = v := by
  suffices h : ∀ m, ∑ i ∈ range m, v / b ^ i % b * b ^ i = v % b ^ m by
    rw [h n, Nat.mod_eq_of_lt hv]
  intro m
  induction m with
  | zero => simp [Nat.mod_one]
  | succ m ih => rw [sum_range_succ, ih, Nat.mod_pow_succ, Nat.mul_comm (b ^ m)]

end Zkie.Positional
