import Zkie.LucasCertificate
import Mathlib.Data.ZMod.ValMinAbs

namespace Zkie.ScalarField

open LucasCertificate

/-- The order of the BN254 scalar field, over which every circuit of the repository is built. -/
def modulus : ℕ :=
  21888242871839275222246405745257275088548364400416034343698204186575808495617

theorem prime_5156902474397 : Nat.Prime 5156902474397 := by
  have h : Nat.Prime 12048837557 :=
    prime_of_hasFullOrder 2 [2, 2, 7, 7, 661, 93001] (by norm_num)
      (by norm_num) (by decide +kernel)
  exact prime_of_hasFullOrder 2 [2, 2, 107, 12048837557] (by norm_num)
    (by simp only [List.forall_mem_cons, h]; norm_num) (by decide +kernel)

theorem prime_1670836401704629 : Nat.Prime 1670836401704629 :=
  prime_of_hasFullOrder 2 [2, 2, 3, 3, 3, 3, 5156902474397] (by norm_num)
    (by simp only [List.forall_mem_cons, prime_5156902474397]; norm_num) (by decide +kernel)

theorem prime_13818364434197438864469338081 : Nat.Prime 13818364434197438864469338081 := by
  have h₁ : Nat.Prime 639533339 :=
    prime_of_hasFullOrder 2 [2, 229, 853, 1637] (by norm_num)
      (by norm_num) (by decide +kernel)
  have h₂ : Nat.Prime 65865678001877903 :=
    prime_of_hasFullOrder 5 [2, 83, 379, 1637, 639533339] (by norm_num)
      (by simp only [List.forall_mem_cons, h₁]; norm_num) (by decide +kernel)
  exact prime_of_hasFullOrder 3 [2, 2, 2, 2, 2, 5, 823, 1593227, 65865678001877903]
    (by norm_num) (by simp only [List.forall_mem_cons, h₂]; norm_num) (by decide +kernel)

theorem modulus_prime : Nat.Prime modulus := by
  have h : Nat.Prime 405928799 :=
    prime_of_hasFullOrder 22 [2, 11, 3691, 4999] (by norm_num)
      (by norm_num) (by decide +kernel)
  have hodd : ∀ q ∈ [3, 3, 13, 29, 983, 11003, 237073, 405928799, 1670836401704629,
      13818364434197438864469338081], Nat.Prime q := by
    simp only [List.forall_mem_cons, h, prime_1670836401704629, prime_13818364434197438864469338081]
    norm_num
  refine prime_of_hasFullOrder 5 (List.replicate 28 2 ++ [3, 3, 13, 29, 983, 11003, 237073, 405928799,
    1670836401704629, 13818364434197438864469338081]) (by norm_num [modulus]) (fun q hq => ?_)
    (by decide +kernel)
  rcases List.mem_append.mp hq with htwo | hq
  · obtain rfl := List.eq_of_mem_replicate htwo
    exact Nat.prime_two
  · exact hodd q hq

instance : Fact modulus.Prime := ⟨modulus_prime⟩

/-- Elements of the scalar field, `Fr` in the source. -/
abbrev Fr : Type := ZMod modulus

/-- Two integers of absolute value below `2 ^ 250` with one image are equal: the constraint
equations of the chips never wrap around the modulus. -/
theorem intCast_inj {a b : ℤ} (ha : |a| < 2 ^ 250) (hb : |b| < 2 ^ 250) (h : (a : Fr) = b) : a = b := by
  have hdvd : (modulus : ℤ) ∣ b - a := (ZMod.intCast_eq_intCast_iff_dvd_sub a b modulus).mp h
  have hlt : |b - a| < (modulus : ℤ) := by
    have habs : |b - a| ≤ |b| + |a| := abs_sub b a
    have hm : (2 : ℤ) ^ 250 + 2 ^ 250 ≤ (modulus : ℤ) := by norm_num [modulus]
    omega
  have hzero := Int.eq_zero_of_abs_lt_dvd hdvd hlt
  omega

end Zkie.ScalarField
