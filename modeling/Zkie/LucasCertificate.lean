import Mathlib.NumberTheory.LucasPrimality
import Mathlib.Tactic.NormNum.Prime

namespace Zkie.LucasCertificate

/-- Right-to-left square and multiply: `acc * b ^ e mod m`, reading at most `fuel` bits of `e`. -/
def powAcc (m : ℕ) : ℕ → ℕ → ℕ → ℕ → ℕ
  | 0, acc, _, _ => acc % m
  | fuel + 1, acc, b, e =>
      powAcc m fuel (if e % 2 = 1 then acc * b % m else acc) (b * b % m) (e / 2)

theorem powAcc_cast (m fuel acc b e : ℕ) (he : e < 2 ^ fuel) :
    (powAcc m fuel acc b e : ZMod m) = acc * b ^ e := by
  induction fuel generalizing acc b e with
  | zero =>
      obtain rfl : e = 0 := by simpa using he
      simp [powAcc]
  | succ fuel ih =>
      have hhalf : e / 2 < 2 ^ fuel := by rw [pow_succ] at he; omega
      rw [powAcc, ih _ _ _ hhalf]
      have hsq : ((b * b % m : ℕ) : ZMod m) ^ (e / 2) = (b : ZMod m) ^ (2 * (e / 2)) := by
        rw [ZMod.natCast_mod, Nat.cast_mul, pow_mul, pow_two]
      rw [hsq]
      by_cases hodd : e % 2 = 1
      · rw [if_pos hodd, ZMod.natCast_mod, Nat.cast_mul, mul_assoc, ← pow_succ']
        congr 2
        omega
      · rw [if_neg hodd]
        congr 2
        omega

/-- The generator `g` has order exactly `p - 1` modulo `p`, given the prime factors `qs` of
`p - 1` with repetition. -/
def hasFullOrder (p g : ℕ) (qs : List ℕ) : Bool :=
  qs.prod == p - 1 && powAcc p (p.log2 + 1) 1 g (p - 1) == 1 &&
    qs.all fun q => powAcc p (p.log2 + 1) 1 g ((p - 1) / q) != 1

theorem prime_of_hasFullOrder {p : ℕ} (g : ℕ) (qs : List ℕ) (h2 : 2 ≤ p)
    (hqs : ∀ q ∈ qs, q.Prime) (h : hasFullOrder p g qs = true) : p.Prime := by
  simp only [hasFullOrder, Bool.and_eq_true, beq_iff_eq, List.all_eq_true, bne_iff_ne] at h
  obtain ⟨⟨hprod, hone⟩, hpart⟩ := h
  have hfuel : ∀ e, e ≤ p - 1 → e < 2 ^ (p.log2 + 1) := fun e he => by
    have := Nat.lt_log2_self (n := p)
    omega
  have hpow : ∀ e, e ≤ p - 1 → ((powAcc p (p.log2 + 1) 1 g e : ℕ) : ZMod p) = (g : ZMod p) ^ e :=
    fun e he => by simpa using powAcc_cast p _ 1 g e (hfuel e he)
  have hlt : ∀ fuel acc b e, powAcc p fuel acc b e < p := by
    intro fuel
    induction fuel with
    | zero => intro acc b e; exact Nat.mod_lt _ (by omega)
    | succ fuel ih => intro acc b e; exact ih _ _ _
  refine lucas_primality p (g : ZMod p) ?_ fun q hq hdvd hq1 => ?_
  · rw [← hpow _ le_rfl, hone, Nat.cast_one]
  · rw [← hprod] at hdvd
    obtain ⟨x, hx, hqx⟩ := (Prime.dvd_prod_iff hq.prime).mp hdvd
    obtain rfl : q = x := (Nat.prime_dvd_prime_iff_eq hq (hqs x hx)).mp hqx
    rw [← hpow _ (Nat.div_le_self _ _)] at hq1
    have hmod := (ZMod.natCast_eq_natCast_iff' _ 1 p).mp (by rw [hq1, Nat.cast_one])
    rw [Nat.mod_eq_of_lt (hlt _ _ _ _), Nat.mod_eq_of_lt (by omega)] at hmod
    exact hpart q hx hmod

end Zkie.LucasCertificate
