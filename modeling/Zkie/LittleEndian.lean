import Mathlib.Data.Nat.Basic
import Mathlib.Tactic.Ring

namespace Zkie.LittleEndian

/-- The low `width` bytes of a number, least significant first. -/
def toBytes : ℕ → ℕ → List UInt8
  | 0, _ => []
  | width + 1, n => UInt8.ofNat n :: toBytes width (n / 256)

def ofBytes : List UInt8 → ℕ
  | [] => 0
  | b :: bs => b.toNat + 256 * ofBytes bs

@[simp]
theorem toBytes_length (width n : ℕ) : (toBytes width n).length = width := by
  induction width generalizing n with
  | zero => rfl
  | succ width ih => simp [toBytes, ih]

theorem ofBytes_lt (bs : List UInt8) : ofBytes bs < 256 ^ bs.length := by
  induction bs with
  | nil => simp [ofBytes]
  | cons b bs ih =>
      have hb := b.toNat_lt
      simp only [ofBytes, List.length_cons, pow_succ]
      omega

theorem ofBytes_toBytes {width n : ℕ} (h : n < 256 ^ width) : ofBytes (toBytes width n) = n := by
  induction width generalizing n with
  | zero =>
      rw [pow_zero] at h
      simp only [toBytes, ofBytes]
      omega
  | succ width ih =>
      rw [pow_succ] at h
      have hdiv : n / 256 < 256 ^ width := by omega
      simp only [toBytes, ofBytes, ih hdiv, UInt8.toNat_ofNat']
      omega

theorem toBytes_ofBytes (bs : List UInt8) : toBytes bs.length (ofBytes bs) = bs := by
  induction bs with
  | nil => rfl
  | cons b bs ih =>
      have hb := b.toNat_lt
      have hhead : UInt8.ofNat (b.toNat + 256 * ofBytes bs) = b := by
        apply UInt8.toNat_inj.mp
        rw [UInt8.toNat_ofNat']
        omega
      have htail : (b.toNat + 256 * ofBytes bs) / 256 = ofBytes bs := by omega
      simp only [ofBytes, List.length_cons, toBytes, hhead, htail, ih]

theorem toBytes_inj {width a b : ℕ} (ha : a < 256 ^ width) (hb : b < 256 ^ width)
    (h : toBytes width a = toBytes width b) : a = b := by
  rw [← ofBytes_toBytes ha, h, ofBytes_toBytes hb]

theorem ofBytes_inj {bs cs : List UInt8} (hlength : bs.length = cs.length) (h : ofBytes bs = ofBytes cs) : bs = cs := by
  rw [← toBytes_ofBytes bs, ← toBytes_ofBytes cs, h, hlength]

end Zkie.LittleEndian
