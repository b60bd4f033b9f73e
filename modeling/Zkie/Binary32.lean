import Mathlib.Algebra.Order.Field.Rat
import Mathlib.Data.Rat.Floor
import Mathlib.Tactic.Linarith
import Mathlib.Tactic.NormNum
import Mathlib.Tactic.Positivity

namespace Zkie.Binary32

/-- The bit pattern of one. -/
def one : UInt32 := 0x3F800000

def negative (bits : UInt32) : Bool := bits.toNat / 2 ^ 31 = 1

def exponent (bits : UInt32) : ℕ := bits.toNat / 2 ^ 23 % 2 ^ 8

def fraction (bits : UInt32) : ℕ := bits.toNat % 2 ^ 23

/-- The absolute value of a finite number. -/
def magnitude (e f : ℕ) : ℚ := if e = 0 then f / 2 ^ 149 else (2 ^ 23 + f) * 2 ^ e / 2 ^ 150

/-- The number that a bit pattern denotes; there is none for infinities and NaNs. -/
def value (bits : UInt32) : Option ℚ :=
  if exponent bits = 255 then none
  else some (if negative bits then -magnitude (exponent bits) (fraction bits) else magnitude (exponent bits) (fraction bits))

theorem value_one : value one = some 1 := by decide +kernel

theorem magnitude_nonneg (e f : ℕ) : 0 ≤ magnitude e f := by
  unfold magnitude
  split <;> positivity

theorem magnitude_le_of_exponent_lt {e f : ℕ} (he : e < 127) (hf : f < 2 ^ 23) : magnitude e f ≤ 1 := by
  have hf' : (f : ℚ) ≤ 2 ^ 23 := by exact_mod_cast hf.le
  unfold magnitude
  split
  · rw [div_le_one (by positivity)]
    exact hf'.trans (by norm_num)
  · have hpow : (2 : ℚ) ^ e ≤ 2 ^ 126 := pow_le_pow_right₀ (by norm_num) (by omega)
    rw [div_le_one (by positivity)]
    calc (2 ^ 23 + (f : ℚ)) * 2 ^ e ≤ (2 ^ 23 + 2 ^ 23) * 2 ^ 126 := by gcongr
      _ = 2 ^ 150 := by norm_num

/-- No number lies between one and the next number of this format. -/
theorem magnitude_gap {e f : ℕ} (hf : f < 2 ^ 23) : magnitude e f ≤ 1 ∨ 1 + 1 / 2 ^ 23 ≤ magnitude e f := by
  rcases lt_trichotomy e 127 with he | rfl | he
  · exact .inl (magnitude_le_of_exponent_lt he hf)
  · have hvalue : magnitude 127 f = 1 + f / 2 ^ 23 := by
      rw [magnitude, if_neg (by norm_num)]
      ring
    rw [hvalue]
    rcases Nat.eq_zero_or_pos f with rfl | hpos
    · exact .inl (by norm_num)
    · have hone : (1 : ℚ) ≤ f := by exact_mod_cast hpos
      exact .inr (by gcongr)
  · right
    have hpow : (2 : ℚ) ^ 128 ≤ 2 ^ e := pow_le_pow_right₀ (by norm_num) (by omega)
    rw [magnitude, if_neg (by omega), le_div_iff₀ (by positivity)]
    have hf' : (2 : ℚ) ^ 23 ≤ 2 ^ 23 + f := le_add_of_nonneg_right (Nat.cast_nonneg f)
    calc (1 + 1 / 2 ^ 23 : ℚ) * 2 ^ 150 ≤ (2 : ℚ) ^ 23 * 2 ^ 128 := by norm_num
      _ ≤ (2 ^ 23 + (f : ℚ)) * 2 ^ e := by gcongr

theorem value_gap {bits : UInt32} {q : ℚ} (h : value bits = some q) : q ≤ 1 ∨ 1 + 1 / 2 ^ 23 ≤ q := by
  have hf : fraction bits < 2 ^ 23 := Nat.mod_lt _ (by norm_num)
  unfold value at h
  split at h
  · cases h
  · split at h
    · cases h
      have hnonneg := magnitude_nonneg (exponent bits) (fraction bits)
      exact .inl (by linarith)
    · cases h
      exact magnitude_gap hf

end Zkie.Binary32
