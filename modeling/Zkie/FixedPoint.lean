import Zkie.ScalarField
import Mathlib.Tactic.Linarith
import Mathlib.Tactic.Ring

namespace Zkie.FixedPoint

open ScalarField

def scale18 : ℤ := 1000000000000000000

def signedShift : ℤ := 2 ^ 63

/-- A fixed-point number with eighteen decimals, held in a signed 64-bit integer. -/
@[ext]
structure I18 where
  raw : ℤ
  lower : -signedShift ≤ raw
  upper : raw < signedShift
  deriving DecidableEq, Repr

theorem signedShift_pos : 0 < signedShift := by norm_num [signedShift]

theorem neg_signedShift_lt : -signedShift < signedShift := neg_lt_self signedShift_pos

theorem neg_signedShift_nonpos : -signedShift ≤ 0 := neg_nonpos_of_nonneg signedShift_pos.le

instance : Inhabited I18 := ⟨⟨0, neg_signedShift_nonpos, signedShift_pos⟩⟩

/-- The two messages of the source's `FixedPointError`, by the operands they print. -/
inductive FixedPointError where
  | quotientOverflow (raw : ℤ)
  | productOverflow (a b : I18)
  deriving DecidableEq, Repr

def I18.ofInt? (v : ℤ) : Option I18 :=
  if h : -signedShift ≤ v ∧ v < signedShift then some ⟨v, h.1, h.2⟩ else none

/-- `i64::checked_add` on the raw values. -/
def checkedAdd (a b : I18) : Option I18 := I18.ofInt? (a.raw + b.raw)

/-- The divisor is positive, so `div_euclid` and `rem_euclid` are floor division and its
remainder. -/
def requantizeRaw (rawValue : ℤ) : Except FixedPointError (I18 × ℤ) :=
  match I18.ofInt? (rawValue / scale18) with
  | some quotient => .ok (quotient, rawValue % scale18)
  | none => .error (.quotientOverflow rawValue)

def requantizeMul (a b : I18) : Except FixedPointError (I18 × ℤ) :=
  match requantizeRaw (a.raw * b.raw) with
  | .ok r => .ok r
  | .error _ => .error (.productOverflow a b)

def i64ToFr (v : I18) : Fr := if 0 ≤ v.raw then (v.raw.toNat : Fr) else -((-v.raw).toNat : Fr)

def i128Min : ℤ := -2 ^ 127

/-- The conversion of an `i128`. Negating `i128::MIN` overflows, which callers that can reach it
have to rule out with `i128Min`. -/
def i128ToFr (v : ℤ) : Fr := if 0 ≤ v then (v.toNat : Fr) else -((-v).toNat : Fr)

def shiftedRaw (v : I18) : ℤ := v.raw + signedShift

theorem toFr_cast (v : ℤ) : (if 0 ≤ v then (v.toNat : Fr) else -((-v).toNat : Fr)) = v := by
  split
  · rename_i h
    rw [← Int.cast_natCast, Int.toNat_of_nonneg h]
  · rename_i h
    rw [← Int.cast_natCast, Int.toNat_of_nonneg (by omega), Int.cast_neg, neg_neg]

@[simp]
theorem i64ToFr_cast (v : I18) : i64ToFr v = (v.raw : Fr) := toFr_cast v.raw

@[simp]
theorem i128ToFr_cast (v : ℤ) : i128ToFr v = (v : Fr) := toFr_cast v

theorem ofInt?_eq_some {v : ℤ} {x : I18} : I18.ofInt? v = some x ↔ x.raw = v := by
  unfold I18.ofInt?
  constructor
  · intro h
    split at h
    · cases h
      rfl
    · cases h
  · rintro rfl
    rw [dif_pos ⟨x.lower, x.upper⟩]

theorem ofInt?_isSome {v : ℤ} : (I18.ofInt? v).isSome ↔ -signedShift ≤ v ∧ v < signedShift := by
  unfold I18.ofInt?
  split <;> simp_all

theorem toOption_eq_some {ε α : Type} {x : Except ε α} {a : α} : x.toOption = some a ↔ x = .ok a := by
  cases x <;> simp [Except.toOption]

theorem mapError_eq_ok {ε ε' α : Type} {f : ε → ε'} {x : Except ε α} {a : α} : x.mapError f = .ok a ↔ x = .ok a := by
  cases x <;> simp [Except.mapError]

theorem checkedAdd_eq_some {a b c : I18} : checkedAdd a b = some c ↔ c.raw = a.raw + b.raw :=
  ofInt?_eq_some

theorem requantizeRaw_eq_ok {v r : ℤ} {q : I18} :
    requantizeRaw v = .ok (q, r) ↔ q.raw = v / scale18 ∧ r = v % scale18 := by
  unfold requantizeRaw
  cases h : I18.ofInt? (v / scale18) with
  | none =>
      refine ⟨fun h' => (by cases h'), fun h' => ?_⟩
      rw [ofInt?_eq_some.mpr h'.1] at h
      cases h
  | some x =>
      have hx := ofInt?_eq_some.mp h
      simp only [Except.ok.injEq, Prod.mk.injEq, I18.ext_iff, hx, eq_comm]

theorem requantizeMul_eq_ok {a b q : I18} {r : ℤ} :
    requantizeMul a b = .ok (q, r) ↔
      q.raw = a.raw * b.raw / scale18 ∧ r = a.raw * b.raw % scale18 := by
  rw [← requantizeRaw_eq_ok]
  unfold requantizeMul
  cases requantizeRaw (a.raw * b.raw) <;> simp

/-- The shape of every rescaling constraint: dividend, quotient and bounded remainder. -/
theorem rescale_unique {v q r : ℤ} (h : v = q * scale18 + r) (h0 : 0 ≤ r) (hlt : r < scale18) :
    q = v / scale18 ∧ r = v % scale18 := by
  simp only [scale18] at *
  omega

theorem rescale_spec (v : ℤ) :
    v = v / scale18 * scale18 + v % scale18 ∧ 0 ≤ v % scale18 ∧ v % scale18 < scale18 := by
  simp only [scale18]
  omega

end Zkie.FixedPoint
