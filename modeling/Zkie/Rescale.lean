import Zkie.RangeCheck

namespace Zkie.Rescale

open ScalarField FixedPoint Plonkish Synthesis Satisfaction HostRun Skeleton Placement RangeCheck

variable {ε : Type}

/-- `2 ^ 60` exceeds `scale18 - 1`. -/
def remainderBits : ℕ := 60

/-- `dividend = (q - 2 ^ 63) * 10 ^ 18 + r`, with the quotient held in shifted form. -/
def rescaleConstraint (dividend : Expression Fr) (q r : Column) : Expression Fr :=
  dividend - (.query q 0 * .constant (i128ToFr scale18) - .constant (i128ToFr (signedShift * scale18))) -
    .query r 0

def slackConstraint (r slack : Column) : Expression Fr :=
  .query slack 0 + .query r 0 - .constant (i128ToFr (scale18 - 1))

def shiftConstraints (a b aShift bShift : Column) : List (Expression Fr) :=
  [.query aShift 0 - .query a 0 - .constant (i128ToFr signedShift),
    .query bShift 0 - .query b 0 - .constant (i128ToFr signedShift)]

/-- The three bit range checks behind every rescaling row. -/
def assignQuotientRanges (rangeQ rangeR rangeRSlack : RangeCheckConfig) (q : I18) (r : ℤ) (known : Bool) :
    Synth Fr ε (AssignedCell Fr × AssignedCell Fr × AssignedCell Fr) := do
  let qRange ← rangeQ.assign (witness known (i128ToFr (shiftedRaw q))) (witness known (shiftedRaw q))
  let rRange ← rangeR.assign (witness known (i128ToFr r)) (witness known r)
  let slackRange ← rangeRSlack.assign (witness known (i128ToFr (scale18 - 1 - r)))
    (witness known (scale18 - 1 - r))
  return (qRange, rRange, slackRange)

section Arithmetic

theorem exists_of_shifted {v : ℕ} (hv : v < 2 ^ 64) : ∃ x : I18, (v : ℤ) = shiftedRaw x := by
  refine ⟨⟨v - signedShift, ?_, ?_⟩, ?_⟩ <;> simp only [signedShift, shiftedRaw] <;> omega

theorem shiftedRaw_range (x : I18) : ∃ v : ℕ, (v : ℤ) = shiftedRaw x ∧ v < 2 ^ 64 := by
  have hl := x.lower
  have hu := x.upper
  simp only [signedShift] at hl hu
  refine ⟨(shiftedRaw x).toNat, ?_, ?_⟩ <;> simp only [shiftedRaw, signedShift] <;> omega

/-- A field element whose shift is a 64-bit number is the image of a signed 64-bit integer. -/
theorem exists_of_shift_zero {f g : Fr} {v : ℕ} (hv : v < 2 ^ 64) (hg : g = v)
    (h : g - f - i128ToFr signedShift = 0) : ∃ x : I18, f = (x.raw : Fr) := by
  obtain ⟨x, hx⟩ := exists_of_shifted hv
  refine ⟨x, ?_⟩
  have hcast : (v : Fr) = ((x.raw + signedShift : ℤ) : Fr) := by
    rw [← Int.cast_natCast, hx, shiftedRaw]
  rw [hg, hcast, i128ToFr_cast] at h
  push_cast at h
  linear_combination -h

theorem shiftedRaw_inj {x y : I18} (h : ((shiftedRaw x : ℤ) : Fr) = ((shiftedRaw y : ℤ) : Fr)) : x = y := by
  have hx := shiftedRaw_range x
  have hy := shiftedRaw_range y
  obtain ⟨v, hv, hlt⟩ := hx
  obtain ⟨w, hw, hlt'⟩ := hy
  have heq : shiftedRaw x = shiftedRaw y := by
    refine intCast_inj ?_ ?_ h
    · rw [← hv, abs_of_nonneg (by omega)]
      norm_num
      omega
    · rw [← hw, abs_of_nonneg (by omega)]
      norm_num
      omega
  exact I18.ext (by simp only [shiftedRaw] at heq; omega)

theorem raw_inj {x y : I18} (h : (x.raw : Fr) = (y.raw : Fr)) : x = y :=
  shiftedRaw_inj (by simp only [shiftedRaw]; push_cast; rw [h])

theorem abs_raw_le (x : I18) : |x.raw| ≤ 2 ^ 63 := by
  have hl := x.lower
  have hu := x.upper
  simp only [signedShift] at hl hu
  exact abs_le.mpr ⟨hl, hu.le⟩

/-- The rescaling and slack constraints, with range-checked quotient, remainder and slack,
determine the quotient as a floor division. The bound rules out a wrap around the modulus. -/
theorem rescale_sound {v : ℤ} {q : I18} {r slack : ℕ} {fq fr fs : Fr} (hv : |v| < 2 ^ 200)
    (hq : fq = (shiftedRaw q : Fr)) (hfr : fr = r) (hr : r < 2 ^ 60) (hfs : fs = slack)
    (hs : slack < 2 ^ 60)
    (h : (v : Fr) - (fq * i128ToFr scale18 - i128ToFr (signedShift * scale18)) - fr = 0)
    (hslack : fs + fr - i128ToFr (scale18 - 1) = 0) : q.raw = v / scale18 := by
  have hbound : (slack : ℤ) + r = scale18 - 1 := by
    refine intCast_inj ?_ ?_ ?_
    · rw [abs_of_nonneg (by omega)]
      norm_num
      omega
    · norm_num [scale18]
    · rw [hfs, hfr, i128ToFr_cast] at hslack
      push_cast at hslack ⊢
      linear_combination hslack
  have hdiv : v = q.raw * scale18 + r := by
    have habs := abs_raw_le q
    refine intCast_inj (by omega) ?_ ?_
    · rw [abs_le] at habs
      rw [abs_lt]
      simp only [scale18]
      norm_num
      omega
    · rw [hq, hfr, i128ToFr_cast, i128ToFr_cast] at h
      simp only [shiftedRaw] at h
      push_cast at h ⊢
      linear_combination h
  exact (rescale_unique hdiv (by omega) (by omega)).1

end Arithmetic

section Quotient

/-- The range checks of a rescaling row, on the columns of the row. -/
structure QuotientInstalled (rangeQ rangeR rangeRSlack : RangeCheckConfig) (q r slack : Column)
    (cs : ConstraintSystem Fr) : Prop where
  values : rangeQ.value = q ∧ rangeR.value = r ∧ rangeRSlack.value = slack
  widths : rangeQ.nBits = 64 ∧ rangeR.nBits = remainderBits ∧ rangeRSlack.nBits = remainderBits
  onQ : rangeQ.Installed cs
  onR : rangeR.Installed cs
  onSlack : rangeRSlack.Installed cs

variable {rangeQ rangeR rangeRSlack : RangeCheckConfig} {q r slack : Column}
  {cs cs' : ConstraintSystem Fr} {T : List ℕ → List Fr → Prop} {A : Assignment Fr}

theorem QuotientInstalled.mono (h : QuotientInstalled rangeQ rangeR rangeRSlack q r slack cs)
    (hle : cs.Extends cs') : QuotientInstalled rangeQ rangeR rangeRSlack q r slack cs' where
  onQ := h.onQ.mono hle
  onR := h.onR.mono hle
  onSlack := h.onSlack.mono hle
  values := h.values
  widths := h.widths

theorem assignQuotientRanges_sound (hwf : cs.WellFormed)
    (h : QuotientInstalled rangeQ rangeR rangeRSlack q r slack cs) (vq : I18) (vr : ℤ) (known : Bool) :
    Sound cs T A (assignQuotientRanges (ε := ε) rangeQ rangeR rangeRSlack vq vr known) fun c =>
      (∃ x : I18, A.cell c.1.cell = (shiftedRaw x : Fr)) ∧
      (∃ v < 2 ^ 60, A.cell c.2.1.cell = (v : ℕ)) ∧ ∃ v < 2 ^ 60, A.cell c.2.2.cell = (v : ℕ) := by
  obtain ⟨hwq, hwr, hws⟩ := h.widths
  refine (RangeCheckConfig.assign_sound hwf h.onQ _ _).bind fun cq hq => ?_
  refine (RangeCheckConfig.assign_sound hwf h.onR _ _).bind fun cr hr => ?_
  refine (RangeCheckConfig.assign_sound hwf h.onSlack _ _).bind fun cs' hs => ?_
  rw [hwq] at hq
  rw [hwr] at hr
  rw [hws] at hs
  obtain ⟨v, hv, hcell⟩ := hq
  obtain ⟨x, hx⟩ := exists_of_shifted hv
  exact .pure ⟨⟨x, by rw [hcell, ← hx, Int.cast_natCast]⟩, hr, hs⟩

theorem assignQuotientRanges_complete (hwf : cs.WellFormed)
    (h : QuotientInstalled rangeQ rangeR rangeRSlack q r slack cs) (vq : I18) {vr : ℤ} (h0 : 0 ≤ vr)
    (hlt : vr < scale18) :
    Complete cs T A (assignQuotientRanges (ε := ε) rangeQ rangeR rangeRSlack vq vr true) fun c =>
      A.Has c.1 q (shiftedRaw vq : Fr) ∧ A.Has c.2.1 r (vr : Fr) ∧
        A.Has c.2.2 slack ((scale18 - 1 - vr : ℤ) : Fr) := by
  obtain ⟨hwq, hwr, hws⟩ := h.widths
  obtain ⟨rfl, rfl, rfl⟩ := h.values
  obtain ⟨v, hv, hv64⟩ := shiftedRaw_range vq
  refine (RangeCheckConfig.assign_complete hwf h.onQ (by omega) (by rw [hwq]; omega)).bind
    fun cq hq => ?_
  refine (RangeCheckConfig.assign_complete hwf h.onR h0 ?_).bind fun cr hr => ?_
  · rw [hwr, remainderBits]
    simp only [scale18] at hlt
    omega
  refine (RangeCheckConfig.assign_complete hwf h.onSlack (by omega) ?_).bind fun cs' hs => ?_
  · rw [hws, remainderBits]
    simp only [scale18]
    omega
  exact .pure ⟨hq, hr, hs⟩

theorem assignQuotientRanges_placed (h : QuotientInstalled rangeQ rangeR rangeRSlack q r slack cs)
    (vq : I18) (vr : ℤ) (known : Bool) :
    Placed (assignQuotientRanges (ε := ε) rangeQ rangeR rangeRSlack vq vr known) :=
  (RangeCheckConfig.assign_placed h.onQ _ _).bind fun _ =>
    (RangeCheckConfig.assign_placed h.onR _ _).bind fun _ =>
      (RangeCheckConfig.assign_placed h.onSlack _ _).bind fun _ => .pure

theorem assignQuotientRanges_decides (h : QuotientInstalled rangeQ rangeR rangeRSlack q r slack cs)
    (vq : I18) (vr : ℤ) (known : Bool) :
    Decides (assignQuotientRanges (ε := ε) rangeQ rangeR rangeRSlack vq vr known) True fun _ => True :=
  ((RangeCheckConfig.assign_decides h.onQ _ _).bind fun _ _ =>
    (RangeCheckConfig.assign_decides h.onR _ _).bind fun _ _ =>
      (RangeCheckConfig.assign_decides h.onSlack _ _).bind fun _ _ => .pure trivial).iff
    (by simp) fun _ _ => id

theorem assignQuotientRanges_agree (h : QuotientInstalled rangeQ rangeR rangeRSlack q r slack cs)
    (vq vq' : I18) (vr vr' : ℤ) (known known' : Bool) :
    Agree (assignQuotientRanges (ε := ε) rangeQ rangeR rangeRSlack vq vr known)
      (assignQuotientRanges (ε := ε) rangeQ rangeR rangeRSlack vq' vr' known') fun c c' =>
      c.1.cell = c'.1.cell ∧ c.2.1.cell = c'.2.1.cell ∧ c.2.2.cell = c'.2.2.cell :=
  (RangeCheckConfig.assign_agree h.onQ _ _ _ _).bind fun _ _ hq =>
    (RangeCheckConfig.assign_agree h.onR _ _ _ _).bind fun _ _ hr =>
      (RangeCheckConfig.assign_agree h.onSlack _ _ _ _).bind fun _ _ hs => .pure ⟨hq, hr, hs⟩

end Quotient

section Operands

/-- The byte range checks of two operands through their shifted copies. -/
structure OperandInstalled (gate : String) (sShift : ℕ) (a b aShift bShift : Column)
    (rangeA rangeB : LookupRangeCheckConfig) (cs : ConstraintSystem Fr) : Prop where
  shift : ⟨gate, sShift, shiftConstraints a b aShift bShift⟩ ∈ cs.gates
  onA : rangeA.Installed cs
  onB : rangeB.Installed cs
  values : rangeA.value = aShift ∧ rangeB.value = bShift
  widths : rangeA.nBits = 64 ∧ rangeB.nBits = 64
  equality : aShift ∈ cs.equality ∧ bShift ∈ cs.equality

variable {gate : String} {sShift : ℕ} {a b aShift bShift : Column}
  {rangeA rangeB : LookupRangeCheckConfig} {cs cs' : ConstraintSystem Fr}
  {T : List ℕ → List Fr → Prop} {A : Assignment Fr}

theorem OperandInstalled.mono (h : OperandInstalled gate sShift a b aShift bShift rangeA rangeB cs)
    (hle : cs.Extends cs') : OperandInstalled gate sShift a b aShift bShift rangeA rangeB cs' where
  shift := hle.gates h.shift
  onA := h.onA.mono hle
  onB := h.onB.mono hle
  values := h.values
  widths := h.widths
  equality := ⟨hle.equality h.equality.1, hle.equality h.equality.2⟩

theorem OperandInstalled.holds_shift (hwf : cs.WellFormed)
    (h : OperandInstalled gate sShift a b aShift bShift rangeA rangeB cs) (r : ℕ) (o : ℤ) :
    Holds cs T A (.enable sShift r o) ↔
      A.cell ⟨r, aShift, o⟩ - A.cell ⟨r, a, o⟩ - i128ToFr signedShift = 0 ∧
      A.cell ⟨r, bShift, o⟩ - A.cell ⟨r, b, o⟩ - i128ToFr signedShift = 0 := by
  rw [holds_gate hwf h.shift]
  simp [shiftConstraints, Assignment.row]

/-- A shifted copy that equals a byte-checked cell bounds the operand. -/
theorem exists_operand {f g v : Fr} (hv : ∃ n < 2 ^ 64, v = (n : ℕ)) (hg : g = v)
    (h : g - f - i128ToFr signedShift = 0) : ∃ x : I18, f = (x.raw : Fr) := by
  obtain ⟨n, hn, rfl⟩ := hv
  exact exists_of_shift_zero hn hg h

theorem shift_zero (x : I18) : (shiftedRaw x : Fr) - (x.raw : Fr) - i128ToFr signedShift = 0 := by
  rw [i128ToFr_cast, shiftedRaw]
  push_cast
  ring

end Operands

/-- The honest row satisfies its rescaling constraint. -/
theorem rescale_zero {v : ℤ} {q : I18} (hq : q.raw = v / scale18) :
    (v : Fr) - ((shiftedRaw q : Fr) * i128ToFr scale18 - i128ToFr (signedShift * scale18)) -
      ((v % scale18 : ℤ) : Fr) = 0 := by
  have hv : (v : Fr) = ((v / scale18 * scale18 + v % scale18 : ℤ) : Fr) := by rw [← (rescale_spec v).1]
  rw [i128ToFr_cast, i128ToFr_cast, shiftedRaw, hq, hv]
  push_cast
  ring

theorem slack_zero (r : ℤ) : ((scale18 - 1 - r : ℤ) : Fr) + (r : Fr) - i128ToFr (scale18 - 1) = 0 := by
  rw [i128ToFr_cast]
  push_cast
  ring

end Zkie.Rescale
