import Zkie.Rescale

namespace Zkie.Division

open ScalarField FixedPoint Plonkish Synthesis Satisfaction HostRun Skeleton Placement RangeCheck Rescale

/-- The remainder and the slack are bounded by the divisor, so they need the whole range of 64-bit numbers. -/
def remainderBits : ℕ := 64

/-- The divisor is below `2 ^ 63`. -/
def divisorMinusOneBits : ℕ := 63

inductive DivError where
  | nonPositiveDivisor (divisor : I18)
  | quotientOverflow (numerator divisor : I18)
  deriving DecidableEq, Repr

/-- The quotient in fixed point, and the remainder of the scaled numerator. -/
def divQuotientRemainder (numerator divisor : I18) : Except DivError (I18 × ℤ) :=
  if divisor.raw ≤ 0 then .error (.nonPositiveDivisor divisor)
  else
    match I18.ofInt? (numerator.raw * scale18 / divisor.raw) with
    | some quotient => .ok (quotient, numerator.raw * scale18 % divisor.raw)
    | none => .error (.quotientOverflow numerator divisor)

section Arithmetic

variable {n d q : I18} {r : ℤ}

theorem divQuotientRemainder_eq_ok : divQuotientRemainder n d = .ok (q, r) ↔
    0 < d.raw ∧ q.raw = n.raw * scale18 / d.raw ∧ r = n.raw * scale18 % d.raw := by
  unfold divQuotientRemainder
  by_cases hd : d.raw ≤ 0
  · rw [if_pos hd]
    constructor
    · intro h
      cases h
    · rintro ⟨hpos, -⟩
      omega
  · rw [if_neg hd]
    cases h : I18.ofInt? (n.raw * scale18 / d.raw) with
    | none =>
        constructor
        · intro h'
          cases h'
        · rintro ⟨-, hq, -⟩
          rw [ofInt?_eq_some.mpr hq] at h
          cases h
    | some x =>
        have hx := ofInt?_eq_some.mp h
        simp only [Except.ok.injEq, Prod.mk.injEq, I18.ext_iff, hx, eq_comm, not_le.mp hd, true_and]

/-- The scaled numerator is a 128-bit number. -/
theorem scaled_numerator_lt (n : I18) : |n.raw * scale18| < 2 ^ 127 := by
  rw [abs_mul]
  calc |n.raw| * |scale18| ≤ 2 ^ 63 * |scale18| := mul_le_mul_of_nonneg_right (abs_raw_le n) (abs_nonneg _)
    _ < 2 ^ 127 := by norm_num [scale18]

theorem floor_unique {v d q r : ℤ} (h : v = q * d + r) (h0 : 0 ≤ r) (hlt : r < d) : q = v / d := by
  rw [h, add_comm, Int.add_mul_ediv_right _ _ (by omega), Int.ediv_eq_zero_of_lt h0 hlt, zero_add]

/-- The three gates, with the range checks, determine the quotient as a floor division by a positive divisor. -/
theorem div_sound {n q : I18} {r slack dm1 : ℕ} {fn fd fq fr fs fm : Fr} (hn : fn = (n.raw : Fr))
    (hq : fq = (shiftedRaw q : Fr)) (hfr : fr = r) (hr : r < 2 ^ 64) (hfs : fs = slack) (hs : slack < 2 ^ 64)
    (hfm : fm = dm1) (hm : dm1 < 2 ^ 63)
    (hdiv : fn * i128ToFr scale18 - (fq - i128ToFr signedShift) * fd - fr = 0) (hslack : fs + fr - fd + 1 = 0)
    (hdm1 : fm - fd + 1 = 0) : fd = ((dm1 + 1 : ℤ) : Fr) ∧ q.raw = n.raw * scale18 / (dm1 + 1) := by
  have hfd : fd = ((dm1 + 1 : ℤ) : Fr) := by
    rw [hfm] at hdm1
    push_cast
    linear_combination -hdm1
  have hbound : (slack : ℤ) + r = dm1 := by
    refine intCast_inj ?_ ?_ ?_
    · rw [abs_of_nonneg (by omega)]
      norm_num
      omega
    · rw [abs_of_nonneg (by omega)]
      norm_num
      omega
    · rw [hfs, hfr, hfd] at hslack
      push_cast at hslack ⊢
      linear_combination hslack
  refine ⟨hfd, ?_⟩
  have hvalue : n.raw * scale18 = q.raw * (dm1 + 1) + r := by
    have hnum := scaled_numerator_lt n
    have hquot : |q.raw * (dm1 + 1)| ≤ 2 ^ 63 * 2 ^ 63 := by
      rw [abs_mul]
      apply mul_le_mul (abs_raw_le q) _ (abs_nonneg _) (by norm_num)
      rw [abs_of_nonneg (by omega)]
      omega
    refine intCast_inj (hnum.trans (by norm_num)) ?_ ?_
    · rw [abs_le] at hquot
      rw [abs_lt]
      norm_num at hquot ⊢
      omega
    · rw [hn, hq, hfr, hfd, i128ToFr_cast, i128ToFr_cast, shiftedRaw] at hdiv
      push_cast at hdiv ⊢
      linear_combination hdiv
  exact floor_unique hvalue (by omega) (by omega)

end Arithmetic

structure DivConfig where
  numerator : Column
  divisor : Column
  qShift : Column
  r : Column
  slack : Column
  dm1 : Column
  sDiv : ℕ
  sSlack : ℕ
  sDm1 : ℕ
  rangeQ : RangeCheckConfig
  rangeR : RangeCheckConfig
  rangeSlack : RangeCheckConfig
  rangeDm1 : RangeCheckConfig
  deriving DecidableEq, Repr

namespace DivConfig

/-- `numerator * 10 ^ 18 = (qShift - 2 ^ 63) * divisor + r`. -/
def divGate (numerator divisor qShift r : Column) : List (Expression Fr) :=
  [.query numerator 0 * .constant (i128ToFr scale18) -
    (.query qShift 0 - .constant (i128ToFr signedShift)) * .query divisor 0 - .query r 0]

def slackGate (divisor r slack : Column) : List (Expression Fr) :=
  [.query slack 0 + .query r 0 - .query divisor 0 + .constant 1]

def dm1Gate (divisor dm1 : Column) : List (Expression Fr) := [.query dm1 0 - .query divisor 0 + .constant 1]

def configure (numerator divisor qShift r slack dm1 bits : Column) : Configure Fr DivConfig := do
  enableEquality numerator
  enableEquality divisor
  enableEquality qShift
  enableEquality r
  enableEquality slack
  enableEquality dm1
  let sDiv ← selector
  createGate "div rescale" sDiv (divGate numerator divisor qShift r)
  let sSlack ← selector
  createGate "div slack equals divisor minus one minus remainder" sSlack (slackGate divisor r slack)
  let sDm1 ← selector
  createGate "divisor_minus_one equals divisor minus one" sDm1 (dm1Gate divisor dm1)
  let rangeQ ← RangeCheckConfig.configure qShift bits 64
  let rangeR ← RangeCheckConfig.configure r bits remainderBits
  let rangeSlack ← RangeCheckConfig.configure slack bits remainderBits
  let rangeDm1 ← RangeCheckConfig.configure dm1 bits divisorMinusOneBits
  return { numerator, divisor, qShift, r, slack, dm1, sDiv, sSlack, sDm1, rangeQ, rangeR, rangeSlack, rangeDm1 }

structure DivCells where
  numerator : AssignedCell Fr
  divisor : AssignedCell Fr
  qShift : AssignedCell Fr
  r : AssignedCell Fr
  slack : AssignedCell Fr
  dm1 : AssignedCell Fr

def coreRegion (config : DivConfig) (numerator divisor quotient : I18) (r : ℤ) : Synth Fr DivError DivCells :=
  Synth.assignRegion "div core" fun region => do
    Synth.enable config.sDiv region 0
    Synth.enable config.sSlack region 0
    Synth.enable config.sDm1 region 0
    let numeratorCell ← Synth.assignAdvice region config.numerator 0 (some (i64ToFr numerator))
    let divisorCell ← Synth.assignAdvice region config.divisor 0 (some (i64ToFr divisor))
    let qShiftCell ← Synth.assignAdvice region config.qShift 0 (some (i128ToFr (shiftedRaw quotient)))
    let rCell ← Synth.assignAdvice region config.r 0 (some (i128ToFr r))
    let slackCell ← Synth.assignAdvice region config.slack 0 (some (i128ToFr (divisor.raw - 1 - r)))
    let dm1Cell ← Synth.assignAdvice region config.dm1 0 (some (i128ToFr (divisor.raw - 1)))
    return ⟨numeratorCell, divisorCell, qShiftCell, rCell, slackCell, dm1Cell⟩

/-- A range check of a number that the prover knows. -/
def rangeOf (range : RangeCheckConfig) (v : ℤ) : Synth Fr DivError (AssignedCell Fr) :=
  range.assign (witness true (i128ToFr v)) (witness true v)

def assign (config : DivConfig) (numerator divisor : I18) :
    Synth Fr DivError (I18 × AssignedCell Fr × AssignedCell Fr) := do
  let (quotient, r) ← Synth.ofExcept (divQuotientRemainder numerator divisor)
  let cells ← config.coreRegion numerator divisor quotient r
  let qRange ← rangeOf config.rangeQ (shiftedRaw quotient)
  let rRange ← rangeOf config.rangeR r
  let slackRange ← rangeOf config.rangeSlack (divisor.raw - 1 - r)
  let dm1Range ← rangeOf config.rangeDm1 (divisor.raw - 1)
  Synth.linkCells "div range check links"
    [(cells.qShift, qRange), (cells.r, rRange), (cells.slack, slackRange), (cells.dm1, dm1Range)]
  return (quotient, cells.numerator, cells.divisor)

/-- The cell of the quotient stands in the row of the numerator. -/
def quotientCell (config : DivConfig) (numerator : AssignedCell Fr) : Cell :=
  ⟨numerator.cell.region, config.qShift, numerator.cell.offset⟩

structure Installed (config : DivConfig) (cs : ConstraintSystem Fr) : Prop where
  div : ⟨"div rescale", config.sDiv, divGate config.numerator config.divisor config.qShift config.r⟩ ∈ cs.gates
  slackGate : ⟨"div slack equals divisor minus one minus remainder", config.sSlack,
    slackGate config.divisor config.r config.slack⟩ ∈ cs.gates
  dm1Gate : ⟨"divisor_minus_one equals divisor minus one", config.sDm1, dm1Gate config.divisor config.dm1⟩ ∈ cs.gates
  ranges : config.rangeQ.Installed cs ∧ config.rangeR.Installed cs ∧ config.rangeSlack.Installed cs ∧
    config.rangeDm1.Installed cs
  values : config.rangeQ.value = config.qShift ∧ config.rangeR.value = config.r ∧
    config.rangeSlack.value = config.slack ∧ config.rangeDm1.value = config.dm1
  widths : config.rangeQ.nBits = 64 ∧ config.rangeR.nBits = 64 ∧ config.rangeSlack.nBits = 64 ∧
    config.rangeDm1.nBits = 63
  equality : ∀ c ∈ [config.numerator, config.divisor, config.qShift, config.r, config.slack, config.dm1], c ∈ cs.equality
  nodup : [config.numerator, config.divisor, config.qShift, config.r, config.slack, config.dm1].Nodup

variable {config : DivConfig} {cs cs' : ConstraintSystem Fr} {T : List ℕ → List Fr → Prop} {A : Assignment Fr}
  {n d : I18}

theorem Installed.mono (h : config.Installed cs) (hle : cs.Extends cs') : config.Installed cs' where
  div := hle.gates h.div
  slackGate := hle.gates h.slackGate
  dm1Gate := hle.gates h.dm1Gate
  ranges := ⟨h.ranges.1.mono hle, h.ranges.2.1.mono hle, h.ranges.2.2.1.mono hle, h.ranges.2.2.2.mono hle⟩
  values := h.values
  widths := h.widths
  equality := fun c hc => hle.equality (h.equality c hc)
  nodup := h.nodup

theorem configure_adds (numerator divisor qShift r slack dm1 bits : Column) (L : List (List ℕ × List Fr)) :
    Adds L (configure numerator divisor qShift r slack dm1 bits) fun _ => L := by
  rintro cs config cs' h rfl
  cases h
  rfl

theorem configure_installed {numerator divisor qShift r slack dm1 bits : Column}
    (hnd : [bits, numerator, divisor, qShift, r, slack, dm1].Nodup) :
    Configures (configure numerator divisor qShift r slack dm1 bits) cs fun config cs' => config.Installed cs' := by
  obtain ⟨hbits, hcolumns⟩ := List.nodup_cons.mp hnd
  simp only [List.mem_cons, List.not_mem_nil, or_false, not_or] at hbits
  obtain ⟨-, -, hbq, hbr, hbs, hbm⟩ := hbits
  refine (Configures.enableEquality numerator).bind fun _ cs₁ _ he₁ => ?_
  refine (Configures.enableEquality divisor).bind fun _ cs₂ h₂ he₂ => ?_
  refine (Configures.enableEquality qShift).bind fun _ cs₃ h₃ he₃ => ?_
  refine (Configures.enableEquality r).bind fun _ cs₄ h₄ he₄ => ?_
  refine (Configures.enableEquality slack).bind fun _ cs₅ h₅ he₅ => ?_
  refine (Configures.enableEquality dm1).bind fun _ cs₆ h₆ he₆ => ?_
  refine Configures.gate _ _ fun cs₇ h₇ hdiv => ?_
  refine Configures.gate _ _ fun cs₈ h₈ hslack => ?_
  refine Configures.gate _ _ fun cs₉ h₉ hdm1 => ?_
  refine (RangeCheckConfig.configure_installed hbq (by norm_num) (by decide)).bind fun rq cs₁₀ h₁₀ hrq => ?_
  refine (RangeCheckConfig.configure_installed hbr (by norm_num [remainderBits]) (by decide)).bind fun rr cs₁₁ h₁₁ hrr => ?_
  refine (RangeCheckConfig.configure_installed hbs (by norm_num [remainderBits]) (by decide)).bind fun rs cs₁₂ h₁₂ hrs => ?_
  refine (RangeCheckConfig.configure_installed hbm (by norm_num [divisorMinusOneBits]) (by decide)).bind
    fun rm cs₁₃ h₁₃ hrm => ?_
  have t₁₁ := h₁₂.trans h₁₃
  have t₁₀ := h₁₁.trans t₁₁
  have t₉ := h₁₀.trans t₁₀
  have t₈ := h₉.trans t₉
  have t₆ := h₇.trans (h₈.trans t₈)
  have t₅ := h₆.trans t₆
  have t₄ := h₅.trans t₅
  have t₃ := h₄.trans t₄
  have t₂ := h₃.trans t₃
  refine Configures.pure ⟨(h₈.trans t₈).gates hdiv, t₈.gates hslack, t₉.gates hdm1,
    ⟨hrq.1.mono t₁₀, hrr.1.mono t₁₁, hrs.1.mono h₁₃, hrm.1⟩, ⟨hrq.2.1, hrr.2.1, hrs.2.1, hrm.2.1⟩,
    ⟨hrq.2.2, hrr.2.2, hrs.2.2, hrm.2.2⟩, ?_, hcolumns⟩
  simp only [List.forall_mem_cons, List.not_mem_nil, false_implies, implies_true, and_true]
  exact ⟨(h₂.trans t₂).equality he₁, t₂.equality he₂, t₃.equality he₃, t₄.equality he₄, t₅.equality he₅, t₆.equality he₆⟩

section Region

variable (config n d) (q : I18) (r : ℤ)

/-- The cells of the main row. -/
def coreCells (region : ℕ) : DivCells where
  numerator := ⟨⟨region, config.numerator, 0⟩, some (i64ToFr n)⟩
  divisor := ⟨⟨region, config.divisor, 0⟩, some (i64ToFr d)⟩
  qShift := ⟨⟨region, config.qShift, 0⟩, some (i128ToFr (shiftedRaw q))⟩
  r := ⟨⟨region, config.r, 0⟩, some (i128ToFr r)⟩
  slack := ⟨⟨region, config.slack, 0⟩, some (i128ToFr (d.raw - 1 - r))⟩
  dm1 := ⟨⟨region, config.dm1, 0⟩, some (i128ToFr (d.raw - 1))⟩

def coreEvents (region : ℕ) : List (Event Fr) :=
  [.region "div core" region, .enable config.sDiv region 0, .enable config.sSlack region 0,
    .enable config.sDm1 region 0, .advice ⟨region, config.numerator, 0⟩ (some (i64ToFr n)),
    .advice ⟨region, config.divisor, 0⟩ (some (i64ToFr d)),
    .advice ⟨region, config.qShift, 0⟩ (some (i128ToFr (shiftedRaw q))),
    .advice ⟨region, config.r, 0⟩ (some (i128ToFr r)),
    .advice ⟨region, config.slack, 0⟩ (some (i128ToFr (d.raw - 1 - r))),
    .advice ⟨region, config.dm1, 0⟩ (some (i128ToFr (d.raw - 1)))]

theorem coreRegion_lays : Lays (config.coreRegion n d q r) (coreCells config n d q r) (coreEvents config n d q r) :=
  Emits.lays _ fun _ _ => rfl

end Region

section Gates

theorem holds_div (hwf : cs.WellFormed) (h : config.Installed cs) (r : ℕ) :
    Holds cs T A (.enable config.sDiv r 0) ↔
      A.cell ⟨r, config.numerator, 0⟩ * i128ToFr scale18 - (A.cell ⟨r, config.qShift, 0⟩ - i128ToFr signedShift) *
        A.cell ⟨r, config.divisor, 0⟩ - A.cell ⟨r, config.r, 0⟩ = 0 := by
  rw [holds_gate hwf h.div]
  simp [divGate, Assignment.row]

theorem holds_slackGate (hwf : cs.WellFormed) (h : config.Installed cs) (r : ℕ) :
    Holds cs T A (.enable config.sSlack r 0) ↔
      A.cell ⟨r, config.slack, 0⟩ + A.cell ⟨r, config.r, 0⟩ - A.cell ⟨r, config.divisor, 0⟩ + 1 = 0 := by
  rw [holds_gate hwf h.slackGate]
  simp [slackGate, Assignment.row]

theorem holds_dm1Gate (hwf : cs.WellFormed) (h : config.Installed cs) (r : ℕ) :
    Holds cs T A (.enable config.sDm1 r 0) ↔
      A.cell ⟨r, config.dm1, 0⟩ - A.cell ⟨r, config.divisor, 0⟩ + 1 = 0 := by
  rw [holds_gate hwf h.dm1Gate]
  simp [dm1Gate, Assignment.row]

/-- The gates on the cells of one row. -/
structure CoreHolds (A : Assignment Fr) (cells : DivCells) : Prop where
  div : A.cell cells.numerator.cell * i128ToFr scale18 - (A.cell cells.qShift.cell - i128ToFr signedShift) *
    A.cell cells.divisor.cell - A.cell cells.r.cell = 0
  slack : A.cell cells.slack.cell + A.cell cells.r.cell - A.cell cells.divisor.cell + 1 = 0
  dm1 : A.cell cells.dm1.cell - A.cell cells.divisor.cell + 1 = 0

theorem coreRegion_sound (hwf : cs.WellFormed) (h : config.Installed cs) (q : I18) (r : ℤ) :
    Sound cs T A (config.coreRegion n d q r) fun cells =>
      CoreHolds A cells ∧ cells.qShift.cell = config.quotientCell cells.numerator := by
  apply Triple.of_lays (coreRegion_lays config n d q r)
  intro region hr
  refine ⟨fun _ _ => trivial, ⟨?_, ?_, ?_⟩, rfl⟩
  · exact (holds_div hwf h region).mp (hr _ (by simp [coreEvents]))
  · exact (holds_slackGate hwf h region).mp (hr _ (by simp [coreEvents]))
  · exact (holds_dm1Gate hwf h region).mp (hr _ (by simp [coreEvents]))

theorem rangeOf_sound {range : RangeCheckConfig} {bits : ℕ} (hwf : cs.WellFormed) (h : range.Installed cs)
    (hbits : range.nBits = bits) (v : ℤ) :
    Sound cs T A (rangeOf range v) fun c => ∃ v < 2 ^ bits, A.cell c.cell = (v : ℕ) :=
  hbits ▸ RangeCheckConfig.assign_sound hwf h _ _

/-- If the numerator is a 64-bit number, the divisor is positive and the quotient is the floor. -/
theorem assign_sound (hwf : cs.WellFormed) (h : config.Installed cs) :
    Sound cs T A (config.assign n d) fun c => ∀ z : I18, A.cell c.2.1.cell = (z.raw : Fr) →
      ∃ (divisor : ℤ) (q : I18), 1 ≤ divisor ∧ divisor ≤ 2 ^ 63 ∧ A.cell c.2.2.cell = (divisor : Fr) ∧
        A.cell (config.quotientCell c.2.1) = (shiftedRaw q : Fr) ∧ q.raw = z.raw * scale18 / divisor := by
  obtain ⟨hwq, hwr, hws, hwm⟩ := h.widths
  refine Triple.bind (.ofExcept (Q := fun _ => True) fun _ _ => trivial) fun ⟨quotient, r⟩ _ => ?_
  refine (coreRegion_sound hwf h quotient r).bind fun cells ⟨hcore, hcell⟩ => ?_
  refine (rangeOf_sound hwf h.ranges.1 hwq _).bind fun qr ⟨vq, hvq, hqr⟩ => ?_
  refine (rangeOf_sound hwf h.ranges.2.1 hwr _).bind fun rr ⟨vr, hvr, hrr⟩ => ?_
  refine (rangeOf_sound hwf h.ranges.2.2.1 hws _).bind fun sr ⟨vs, hvs, hsr⟩ => ?_
  refine (rangeOf_sound hwf h.ranges.2.2.2 hwm _).bind fun mr ⟨vm, hvm, hmr⟩ => ?_
  refine Sound.linkCells.bind fun _ hlinks => .pure fun z hz => ?_
  simp only [List.forall_mem_cons, List.not_mem_nil, false_implies, implies_true, and_true] at hlinks
  obtain ⟨hlq, hlr, hls, hlm⟩ := hlinks
  obtain ⟨q, hq⟩ := exists_of_shifted hvq
  have hshift : A.cell cells.qShift.cell = (shiftedRaw q : Fr) := by
    rw [hlq, hqr, ← Int.cast_natCast, hq]
  obtain ⟨hdivisor, hquotient⟩ := div_sound hz hshift (hlr.trans hrr) hvr (hls.trans hsr) hvs (hlm.trans hmr) hvm
    hcore.div hcore.slack hcore.dm1
  refine ⟨vm + 1, q, by omega, by omega, hdivisor, ?_, hquotient⟩
  rw [← hcell, hshift]

theorem coreRegion_complete (hwf : cs.WellFormed) (h : config.Installed cs) {q : I18} {r : ℤ}
    (hdiv : divQuotientRemainder n d = .ok (q, r)) :
    Complete cs T A (config.coreRegion n d q r) fun cells =>
      A.Has cells.numerator config.numerator (n.raw : Fr) ∧ A.Has cells.divisor config.divisor (d.raw : Fr) ∧
        A.Has cells.qShift config.qShift (shiftedRaw q : Fr) ∧ A.Has cells.r config.r (r : Fr) ∧
        A.Has cells.slack config.slack ((d.raw - 1 - r : ℤ) : Fr) ∧
        A.Has cells.dm1 config.dm1 ((d.raw - 1 : ℤ) : Fr) ∧ cells.qShift.cell = config.quotientCell cells.numerator := by
  obtain ⟨hpos, hq, hr⟩ := divQuotientRemainder_eq_ok.mp hdiv
  apply Triple.of_lays (coreRegion_lays config n d q r)
  intro region hregion
  simp only [coreEvents, List.forall_mem_cons, List.not_mem_nil, false_implies, implies_true, and_true, Witnessed,
    i64ToFr_cast, i128ToFr_cast, true_and] at hregion
  obtain ⟨hn, hd, hqs, hrc, hs, hm⟩ := hregion
  refine ⟨?_, ⟨rfl, hn⟩, ⟨rfl, hd⟩, ⟨rfl, hqs⟩, ⟨rfl, hrc⟩, ⟨rfl, hs⟩, ⟨rfl, hm⟩, rfl⟩
  have hvalue : n.raw * scale18 = q.raw * d.raw + r := by
    rw [hq, hr, Int.ediv_mul_add_emod]
  have hvalue' : (n.raw : Fr) * (scale18 : Fr) = (q.raw : Fr) * (d.raw : Fr) + (r : Fr) := by
    exact_mod_cast congrArg (Int.cast : ℤ → Fr) hvalue
  simp only [coreEvents, List.forall_mem_cons, List.not_mem_nil, false_implies, implies_true, and_true,
    holds_div hwf h, holds_slackGate hwf h, holds_dm1Gate hwf h, hn, hd, hqs, hrc, hs, hm, i128ToFr_cast, shiftedRaw]
  refine ⟨trivial, ?_, ?_, ?_, trivial, trivial, trivial, trivial, trivial, trivial⟩
  · push_cast
    linear_combination hvalue'
  · push_cast
    ring
  · push_cast
    ring

theorem rangeOf_complete {range : RangeCheckConfig} {column : Column} {bits : ℕ} (hwf : cs.WellFormed)
    (h : range.Installed cs) (hvalue : range.value = column) (hbits : range.nBits = bits) {v : ℤ} (h0 : 0 ≤ v)
    (hv : v < 2 ^ bits) : Complete cs T A (rangeOf range v) fun c => A.Has c column (v : Fr) := by
  subst hvalue hbits
  exact RangeCheckConfig.assign_complete hwf h h0 hv

theorem assign_complete (hwf : cs.WellFormed) (h : config.Installed cs) :
    Complete cs T A (config.assign n d) fun c =>
      A.Has c.2.1 config.numerator (n.raw : Fr) ∧ A.Has c.2.2 config.divisor (d.raw : Fr) ∧
        A.cell (config.quotientCell c.2.1) = (shiftedRaw c.1 : Fr) ∧ c.1.raw = n.raw * scale18 / d.raw := by
  obtain ⟨hwq, hwr, hws, hwm⟩ := h.widths
  obtain ⟨hvq, hvr, hvs, hvm⟩ := h.values
  refine Triple.bind (.ofExcept fun _ => id) fun qr hdiv => ?_
  obtain ⟨quotient, r⟩ := qr
  obtain ⟨hpos, hq, hr⟩ := divQuotientRemainder_eq_ok.mp hdiv
  have hupper := d.upper
  have hr0 : 0 ≤ r := hr ▸ Int.emod_nonneg _ (by omega)
  have hrlt : r < d.raw := hr ▸ Int.emod_lt_of_pos _ hpos
  simp only [signedShift] at hupper
  refine (coreRegion_complete hwf h hdiv).bind fun cells hcells => ?_
  obtain ⟨hcn, hcd, hcq, hcr, hcs, hcm, hcell⟩ := hcells
  obtain ⟨w, hw, hw64⟩ := shiftedRaw_range quotient
  refine (rangeOf_complete hwf h.ranges.1 hvq hwq (by omega) (by omega)).bind fun qr hqr => ?_
  refine (rangeOf_complete hwf h.ranges.2.1 hvr hwr hr0 (by omega)).bind fun rr hrr => ?_
  refine (rangeOf_complete hwf h.ranges.2.2.1 hvs hws (by omega) (by omega)).bind fun sr hsr => ?_
  refine (rangeOf_complete hwf h.ranges.2.2.2 hvm hwm (by omega) (by omega)).bind fun mr hmr => ?_
  have hequality := h.equality
  simp only [List.forall_mem_cons, List.not_mem_nil, false_implies, implies_true, and_true] at hequality
  obtain ⟨-, -, heq, her, hes, hem⟩ := hequality
  refine (Complete.linkCells ?_).bind fun _ _ => .pure ⟨hcn, hcd, by rw [← hcell]; exact hcq.value, hq⟩
  simp only [List.forall_mem_cons, List.not_mem_nil, false_implies, implies_true, and_true]
  exact ⟨hcq.link hqr heq heq, hcr.link hrr her her, hcs.link hsr hes hes, hcm.link hmr hem hem⟩

theorem assign_placed (h : config.Installed cs) : Placed (config.assign n d) := by
  refine Placed.ofExcept.bind fun ⟨q, r⟩ => ?_
  refine Placed.bind ?_ fun _ => ?_
  · exact .of_row _ (coreRegion_lays config n d q r) (fun _ => rfl) h.nodup fun _ => by simp [coreEvents, IsInner]
  · refine (RangeCheckConfig.assign_placed h.ranges.1 _ _).bind fun _ => ?_
    refine (RangeCheckConfig.assign_placed h.ranges.2.1 _ _).bind fun _ => ?_
    refine (RangeCheckConfig.assign_placed h.ranges.2.2.1 _ _).bind fun _ => ?_
    refine (RangeCheckConfig.assign_placed h.ranges.2.2.2 _ _).bind fun _ => ?_
    exact Placed.linkCells.bind fun _ => .pure

theorem assign_decides (h : config.Installed cs) : Decides (config.assign n d)
    (∃ qr, divQuotientRemainder n d = .ok qr) fun c => c.1.raw = n.raw * scale18 / d.raw := by
  apply Decides.iff (c := (∃ qr, divQuotientRemainder n d = .ok qr) ∧ True ∧ True ∧ True ∧ True ∧ True ∧ True ∧ True)
    ?_ (by simp) fun _ _ => id
  refine Decides.bind (Decides.ofExcept (P := fun qr => divQuotientRemainder n d = .ok qr) fun _ => id)
    fun ⟨q, r⟩ hdiv => ?_
  refine (Decides.region (coreRegion_lays config n d q r)).bind fun _ _ => ?_
  refine (RangeCheckConfig.assign_decides h.ranges.1 _ _).bind fun _ _ => ?_
  refine (RangeCheckConfig.assign_decides h.ranges.2.1 _ _).bind fun _ _ => ?_
  refine (RangeCheckConfig.assign_decides h.ranges.2.2.1 _ _).bind fun _ _ => ?_
  refine (RangeCheckConfig.assign_decides h.ranges.2.2.2 _ _).bind fun _ _ => ?_
  exact Decides.linkCells.bind fun _ _ => .pure (divQuotientRemainder_eq_ok.mp hdiv).2.1

theorem assign_agree (h : config.Installed cs) (n' d' : I18) :
    Agree (config.assign n d) (config.assign n' d') fun c c' => c.2.1.cell = c'.2.1.cell ∧ c.2.2.cell = c'.2.2.cell := by
  refine (Agree.ofExcept (R := fun _ _ => True) fun _ _ _ _ => trivial).bind fun ⟨q, r⟩ ⟨q', r'⟩ _ => ?_
  refine (Agree.of_lays (coreRegion_lays config n d q r) (coreRegion_lays config n' d' q' r')
    (R := fun c c' => c.numerator.cell = c'.numerator.cell ∧ c.divisor.cell = c'.divisor.cell ∧
      c.qShift.cell = c'.qShift.cell ∧ c.r.cell = c'.r.cell ∧ c.slack.cell = c'.slack.cell ∧ c.dm1.cell = c'.dm1.cell)
    (fun _ => rfl) fun _ => ⟨rfl, rfl, rfl, rfl, rfl, rfl⟩).bind fun cells cells' ⟨hn, hd, hq, hr, hs, hm⟩ => ?_
  refine (RangeCheckConfig.assign_agree h.ranges.1 _ _ _ _).bind fun _ _ hqr => ?_
  refine (RangeCheckConfig.assign_agree h.ranges.2.1 _ _ _ _).bind fun _ _ hrr => ?_
  refine (RangeCheckConfig.assign_agree h.ranges.2.2.1 _ _ _ _).bind fun _ _ hsr => ?_
  refine (RangeCheckConfig.assign_agree h.ranges.2.2.2 _ _ _ _).bind fun _ _ hmr => ?_
  refine Agree.bind (Agree.linkCells ?_) fun _ _ _ => .pure ⟨hn, hd⟩
  exact .cons ⟨hq, hqr⟩ (.cons ⟨hr, hrr⟩ (.cons ⟨hs, hsr⟩ (.cons ⟨hm, hmr⟩ .nil)))

end Gates

end DivConfig

end Zkie.Division
