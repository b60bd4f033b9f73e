import Zkie.RealTensor

namespace Zkie.Normalization

open RealTensor RealTensor.Tensor

section Definitions

/-- A tensor without missing elements. -/
def reals (s : List ℕ) (x : ℕ → ℝ) : Tensor := ⟨s, fun p => some (x p)⟩

/-- `x` divided by its root mean square, with a weight for each element. -/
noncomputable def rmsNorm (dim : ℕ) (epsilon : ℝ) (x w : ℕ → ℝ) (p : ℕ) : Option ℝ :=
  if 0 < average ((List.range dim).map fun i => x i ^ 2) + epsilon then
    some (x p * (√(average ((List.range dim).map fun i => x i ^ 2) + epsilon))⁻¹ * w p)
  else none

/-- The same with other exponents and means along any axes. -/
noncomputable def normalize (axesOf : ℕ → Option (List ℕ)) (keepdims : Bool) (exponent epsilon x w : Tensor) :
    Option Tensor := do
  let squared ← zipWith power x exponent
  let axes ← axesOf squared.shape.length
  let shifted ← zipWith plus (squared.mean axes keepdims) epsilon
  let scaled ← zipWith times x ((shifted.map squareRoot).map RealTensor.reciprocal)
  zipWith times scaled w

end Definitions

section Exactness

variable {axesOf : ℕ → Option (List ℕ)} {keepdims : Bool} {exponent epsilon out x w x' w' : Tensor} {s : List ℕ} {dim : ℕ}
  {e eps : ℝ} {f g : ℕ → ℝ}

theorem normalize_eq_some : normalize axesOf keepdims exponent epsilon x w = some out ↔
    ∃ squared axes shifted scaled, zipWith power x exponent = some squared ∧ axesOf squared.shape.length = some axes ∧
      zipWith plus (squared.mean axes keepdims) epsilon = some shifted ∧
      zipWith times x ((shifted.map squareRoot).map RealTensor.reciprocal) = some scaled ∧
      zipWith times scaled w = some out := by
  simp only [normalize, Option.bind_eq_bind, Option.bind_eq_some_iff]
  constructor
  · rintro ⟨squared, hsquared, axes, haxes, shifted, hshifted, scaled, hscaled, hout⟩
    exact ⟨squared, axes, shifted, scaled, hsquared, haxes, hshifted, hscaled, hout⟩
  · rintro ⟨squared, axes, shifted, scaled, hsquared, haxes, hshifted, hscaled, hout⟩
    exact ⟨squared, hsquared, axes, haxes, shifted, hshifted, scaled, hscaled, hout⟩

/-- Whether there is a value depends only on the shapes. -/
theorem normalize_shape (h : normalize axesOf keepdims exponent epsilon x w = some out) (hx : x'.shape = x.shape)
    (hw : w'.shape = w.shape) : ∃ out', normalize axesOf keepdims exponent epsilon x' w' = some out' := by
  obtain ⟨squared, axes, shifted, scaled, hsquared, haxes, hshifted, hscaled, hout⟩ := normalize_eq_some.mp h
  obtain ⟨squared', hsquared', hs⟩ := zipWith_shape hsquared hx rfl
  obtain ⟨shifted', hshifted', hs'⟩ : ∃ shifted', zipWith plus (squared'.mean axes keepdims) epsilon = some shifted' ∧
      shifted'.shape = shifted.shape := zipWith_shape hshifted (by rw [mean, mean, hs]) rfl
  obtain ⟨scaled', hscaled', hs''⟩ : ∃ scaled', zipWith times x' ((shifted'.map squareRoot).map RealTensor.reciprocal) =
      some scaled' ∧ scaled'.shape = scaled.shape := zipWith_shape hscaled hx hs'
  obtain ⟨out', hout', -⟩ := zipWith_shape hout hs'' hw
  exact ⟨out', normalize_eq_some.mpr ⟨squared', axes, shifted', scaled', hsquared', hs ▸ haxes, hshifted', hscaled', hout'⟩⟩

theorem rmsNorm_constant (hdim : dim ≠ 0) {c : ℝ} (hc : 0 < c) (heps : 0 ≤ eps) :
    rmsNorm dim eps (fun _ => c) (fun _ => 1) 0 = some (c * (√(c ^ 2 + eps))⁻¹) := by
  have hmean : average ((List.range dim).map fun _ => c ^ 2) = c ^ 2 := by
    rw [List.map_const', List.length_range, average_replicate hdim]
  rw [rmsNorm, hmean, if_pos (by positivity), mul_one]

theorem last_of_padded {s t : List ℕ} {n d : ℕ} (h : t = List.replicate n 1 ++ s) (hlast : s.getLast? = some d) :
    t.getLast? = some d := by
  rw [h, List.getLast?_append, hlast, Option.some_or]

/-- With the mean of all squares the normalization is that of RMSNorm. -/
theorem normalize_exact (hexponent : exponent.shape.prod = 1) (he : exponent.entry 0 = some 2)
    (hepsilon : epsilon.shape.prod = 1) (heps : epsilon.entry 0 = some eps) (hs : s.prod = dim) (hdim : dim ≠ 0)
    (hlast : dim = 1 ∨ s.getLast? = some dim)
    (hreduced : ∀ squared axes, Broadcasting.broadcastShape s exponent.shape = some squared →
      axesOf squared.length = some axes → (keptShape axes squared).prod = 1)
    (h : normalize axesOf keepdims exponent epsilon (reals s f) (reals [dim] g) = some out) :
    out.shape.prod = dim ∧ ∀ p < dim, out.entry p = rmsNorm dim eps f g p := by
  obtain ⟨squared, axes, shifted, scaled, hsquared, haxes, hshifted, hscaled, hout⟩ := normalize_eq_some.mp h
  obtain ⟨squared', hsquared', hprod, hentry⟩ := zipWith_single (f := power) (a := reals s f) hexponent (hs.trans_ne hdim)
  obtain rfl : squared = squared' := Option.some.inj (hsquared.symm.trans hsquared')
  have hshape : squared.shape.prod = dim := hprod.trans hs
  have hkept : (keptShape axes squared.shape).prod = 1 := hreduced squared.shape axes (shape_of_zipWith hsquared) haxes
  have hmean : (squared.mean axes keepdims).entry 0 = some (average ((List.range dim).map fun i => f i ^ 2)) := by
    rw [mean_entry (f := fun i => f i ^ 2), group_eq_range hkept, hshape]
    intro q hq
    rw [hentry q (mem_group.mp hq).1, he]
    exact power_two (f q)
  have hmeanShape : (squared.mean axes keepdims).shape.prod = 1 := mean_shape_prod hkept
  obtain ⟨shifted', hshifted', hone, -⟩ := zipWith_single (f := plus) (a := squared.mean axes keepdims) hepsilon
    (hmeanShape.trans_ne one_ne_zero)
  obtain rfl : shifted = shifted' := Option.some.inj (hshifted.symm.trans hshifted')
  have hshift : shifted.entry 0 = some (average ((List.range dim).map fun i => f i ^ 2) + eps) := by
    rw [zipWith_first hshifted, hmean, heps]
    rfl
  obtain ⟨scaled', hscaled', hscaledProd, hscaledEntry⟩ := zipWith_single (f := times) (a := reals s f)
    (b := (shifted.map squareRoot).map RealTensor.reciprocal) (hone.trans hmeanShape) (hs.trans_ne hdim)
  obtain rfl : scaled = scaled' := Option.some.inj (hscaled.symm.trans hscaled')
  have hscaledDim : scaled.shape.prod = dim := hscaledProd.trans hs
  obtain ⟨n, hscaledShape⟩ := shape_of_zipWith_single hscaled (hone.trans hmeanShape)
  obtain ⟨out', hout', houtProd, houtEntry⟩ := zipWith_vector (f := times) (a := scaled) (b := reals [dim] g) rfl hscaledDim
    hdim (hlast.imp_right fun hlast => last_of_padded hscaledShape hlast)
  obtain rfl : out = out' := Option.some.inj (hout.symm.trans hout')
  refine ⟨houtProd, fun p hp => ?_⟩
  have hinverse : ((shifted.map squareRoot).map RealTensor.reciprocal).entry 0 =
      (squareRoot (average ((List.range dim).map fun i => f i ^ 2) + eps)).bind RealTensor.reciprocal := by
    change ((shifted.entry 0).bind squareRoot).bind RealTensor.reciprocal = _
    rw [hshift]
    rfl
  rw [houtEntry p hp, hscaledEntry p (hscaledDim ▸ hp), hinverse, squareRoot_reciprocal, rmsNorm]
  split <;> rfl

theorem last_of_unpadded {s t : List ℕ} {n d : ℕ} (h : t = List.replicate n 1 ++ s) (hd : d ≠ 1)
    (hlast : t.getLast? = some d) : s.getLast? = some d := by
  rw [h, List.getLast?_append, Option.or_eq_some_iff] at hlast
  rcases hlast with hlast | ⟨-, hlast⟩
  · exact hlast
  · exact absurd (List.eq_of_mem_replicate (List.mem_of_getLast? hlast)) hd

/-- The first element, if the elements that go into the first mean are all the same. -/
theorem normalize_first (hexponent : exponent.shape.prod = 1) (hs : s.prod ≠ 0) {squared axes : List ℕ}
    (hsquared : Broadcasting.broadcastShape s exponent.shape = some squared) (haxes : axesOf squared.length = some axes)
    {c : ℝ} (hc : 0 < c) (hf : ∀ q ∈ group axes squared 0, f q = c)
    (h : normalize axesOf keepdims exponent epsilon (reals s f) (reals [dim] g) = some out) :
    out.entry 0 = (exponent.entry 0).bind fun e => (epsilon.entry 0).bind fun eps =>
      if 0 < c ^ e + eps then some (c * (√(c ^ e + eps))⁻¹ * g 0) else none := by
  obtain ⟨squares, axes', shifted, scaled, hsquares, haxes', hshifted, hscaled, hout⟩ := normalize_eq_some.mp h
  obtain ⟨squares', hsquares', hprod, hentry⟩ := zipWith_single (f := power) (a := reals s f) hexponent hs
  obtain rfl : squares = squares' := Option.some.inj (hsquares.symm.trans hsquares')
  obtain rfl : squared = squares.shape := Option.some.inj (hsquared.symm.trans (shape_of_zipWith hsquares))
  obtain rfl : axes = axes' := Option.some.inj (haxes.symm.trans haxes')
  have hne : squares.shape.prod ≠ 0 := hprod.trans_ne hs
  have hzero : f 0 = c := hf 0 (zero_mem_group hne)
  have hmean : (squares.mean axes keepdims).entry 0 = (exponent.entry 0).map fun e => c ^ e := by
    cases he : exponent.entry 0 with
    | none =>
        apply mean_missing hne
        rw [hentry 0 (Nat.pos_of_ne_zero hne), he]
        rfl
    | some e =>
        apply mean_constant hne
        intro q hq
        rw [hentry q (mem_group.mp hq).1, he]
        change power (f q) e = _
        rw [hf q hq, power_of_pos hc]
  have hinverse : ((shifted.map squareRoot).map RealTensor.reciprocal).entry 0 =
      ((shifted.entry 0).bind squareRoot).bind RealTensor.reciprocal := rfl
  have hfirst : (reals s f).entry 0 = some c := by rw [← hzero]; rfl
  have hweight : (reals [dim] g).entry 0 = some (g 0) := rfl
  rw [zipWith_first hout, zipWith_first hscaled, hinverse, zipWith_first hshifted, hmean, hfirst, hweight]
  cases exponent.entry 0 with
  | none => rfl
  | some e =>
      cases epsilon.entry 0 with
      | none => rfl
      | some eps =>
          change ((((squareRoot (c ^ e + eps)).bind RealTensor.reciprocal).bind (times c)).bind fun u => times u (g 0)) = _
          rw [squareRoot_reciprocal]
          change _ = if 0 < c ^ e + eps then _ else _
          split <;> rfl

theorem eq_of_scaled {c u v : ℝ} (hc : 0 < c) (hu : 0 < u) (hv : 0 < v) (h : c * (√u)⁻¹ = c * (√v)⁻¹) : u = v :=
  (Real.sqrt_inj hu.le hv.le).mp (inv_injective (mul_left_cancel₀ hc.ne' h))

/-- The mean of squares of ones and a two exceeds one. -/
theorem one_lt_average {q : ℕ} (hq : q < dim) : 1 < average ((List.range dim).map fun i => (if i = q then (2 : ℝ) else 1) ^ 2) := by
  have hpos : (0 : ℝ) < dim := Nat.cast_pos.mpr (by omega)
  have hsum : ((List.range dim).map fun _ => (1 : ℝ)).sum < ((List.range dim).map fun i => (if i = q then (2 : ℝ) else 1) ^ 2).sum := by
    apply List.sum_lt_sum
    · intro i _
      split <;> norm_num
    · exact ⟨q, List.mem_range.mpr hq, by rw [if_pos rfl]; norm_num⟩
  rw [List.map_const', List.length_range, List.sum_replicate, nsmul_eq_mul, mul_one] at hsum
  rwa [average, List.length_map, List.length_range, one_lt_div hpos]

/-- A normalization that is RMSNorm on all tensors has its exponent, its number under the root and its mean. -/
theorem exact_of_normalize (hexponent : exponent.shape.prod = 1) (hepsilon : epsilon.shape.prod = 1) (hs : s.prod = dim)
    (hdim : dim ≠ 0) (heps : 0 ≤ eps) (hvalue : normalize axesOf keepdims exponent epsilon (reals s f) (reals [dim] g) = some out)
    (hall : ∀ f g out, normalize axesOf keepdims exponent epsilon (reals s f) (reals [dim] g) = some out →
      out.shape.prod = dim ∧ ∀ p < dim, out.entry p = rmsNorm dim eps f g p) :
    exponent.entry 0 = some 2 ∧ epsilon.entry 0 = some eps ∧ (dim = 1 ∨ s.getLast? = some dim) ∧
      ∀ squared axes, Broadcasting.broadcastShape s exponent.shape = some squared → axesOf squared.length = some axes →
        (keptShape axes squared).prod = 1 := by
  have hpos : 0 < dim := Nat.pos_of_ne_zero hdim
  obtain ⟨squares, axes, shifted, scaled, hsquares, haxes, hshifted, hscaled, hout⟩ := normalize_eq_some.mp hvalue
  have hsquared := shape_of_zipWith hsquares
  obtain ⟨squares', hsquares', hprod, -⟩ := zipWith_single (f := power) (a := reals s f) hexponent (hs.trans_ne hdim)
  obtain rfl : squares = squares' := Option.some.inj (hsquares.symm.trans hsquares')
  have hfirst : ∀ f c, 0 < c → (∀ q ∈ group axes squares.shape 0, f q = c) → rmsNorm dim eps f (fun _ => 1) 0 =
      (exponent.entry 0).bind fun e => (epsilon.entry 0).bind fun eps =>
        if 0 < c ^ e + eps then some (c * (√(c ^ e + eps))⁻¹) else none := by
    intro f c hc hf
    obtain ⟨out', hout'⟩ : ∃ out', normalize axesOf keepdims exponent epsilon (reals s f) (reals [dim] fun _ => 1) = some out' :=
      normalize_shape hvalue rfl rfl
    rw [← (hall _ _ _ hout').2 0 hpos, normalize_first hexponent (hs.trans_ne hdim) hsquared haxes hc hf hout']
    simp only [mul_one]
  have hconstant : ∀ c : ℝ, 0 < c → ∃ e eps', exponent.entry 0 = some e ∧ epsilon.entry 0 = some eps' ∧
      c ^ e + eps' = c ^ 2 + eps := by
    intro c hc
    have heq := hfirst (fun _ => c) c hc fun _ _ => rfl
    rw [rmsNorm_constant hdim hc heps] at heq
    obtain ⟨e, he, heq⟩ := Option.bind_eq_some_iff.mp heq.symm
    obtain ⟨eps', heps', heq⟩ := Option.bind_eq_some_iff.mp heq
    split at heq
    · rename_i hroot
      exact ⟨e, eps', he, heps', eq_of_scaled hc hroot (by positivity) (Option.some.inj heq)⟩
    · cases heq
  obtain ⟨e, eps', he, heps', hone⟩ := hconstant 1 one_pos
  obtain ⟨e', eps'', he', heps'', htwo⟩ := hconstant 2 two_pos
  obtain rfl : e = e' := Option.some.inj (he.symm.trans he')
  obtain rfl : eps' = eps'' := Option.some.inj (heps'.symm.trans heps'')
  rw [Real.one_rpow, one_pow, add_right_inj] at hone
  subst hone
  have hpower : (2 : ℝ) ^ e = 2 ^ (2 : ℝ) := by rw [Real.rpow_two]; exact add_right_cancel htwo
  obtain rfl : e = 2 := (Real.rpow_right_inj two_pos (by norm_num)).mp hpower
  have hkept : (keptShape axes squares.shape).prod = 1 := by
    by_contra hne
    obtain ⟨q, hq, hnot⟩ := exists_notMem_group ((hprod.trans hs).trans_ne hdim) hne
    have hq0 : 0 ≠ q := fun h0 => hnot (h0 ▸ zero_mem_group ((hprod.trans hs).trans_ne hdim))
    have heq := hfirst (fun i => if i = q then 2 else 1) 1 one_pos fun i hi => if_neg fun hiq : i = q => hnot (hiq ▸ hi)
    have hlt := one_lt_average (hq.trans_eq (hprod.trans hs))
    rw [he, heps', rmsNorm, if_pos (by linarith), if_neg hq0, mul_one, one_mul] at heq
    change _ = if 0 < (1 : ℝ) ^ (2 : ℝ) + eps' then some (1 * (√((1 : ℝ) ^ (2 : ℝ) + eps'))⁻¹) else none at heq
    rw [Real.one_rpow, if_pos (by linarith), Option.some_inj] at heq
    have hmean := eq_of_scaled one_pos (by linarith) (by linarith) ((one_mul _).trans heq)
    linarith
  refine ⟨he, heps', ?_, fun squared axes' hsquared' haxes' => ?_⟩
  · obtain ⟨shifted', hshifted', hshape, -⟩ := zipWith_single (f := plus) (a := squares.mean axes keepdims) hepsilon
      ((mean_shape_prod hkept).trans_ne one_ne_zero)
    obtain rfl : shifted = shifted' := Option.some.inj (hshifted.symm.trans hshifted')
    have hsingle : ((shifted.map squareRoot).map RealTensor.reciprocal).shape.prod = 1 := hshape.trans (mean_shape_prod hkept)
    obtain ⟨scaled', hscaled', hscaledProd, -⟩ := zipWith_single (f := times) (a := reals s f) hsingle (hs.trans_ne hdim)
    obtain rfl : scaled = scaled' := Option.some.inj (hscaled.symm.trans hscaled')
    obtain ⟨n, hpadded⟩ := shape_of_zipWith_single hscaled hsingle
    rcases last_of_zipWith_vector hout rfl (hscaledProd.trans hs) hdim (hall _ _ _ hvalue).1 with hone | hlast
    · exact .inl hone
    · by_cases hone : dim = 1
      · exact .inl hone
      · exact .inr (last_of_unpadded hpadded hone hlast)
  · obtain rfl : squares.shape = squared := Option.some.inj (hsquared.symm.trans hsquared')
    obtain rfl : axes = axes' := Option.some.inj (haxes.symm.trans haxes')
    exact hkept

end Exactness

end Zkie.Normalization
