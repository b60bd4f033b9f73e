import Zkie.Eltwise
import Zkie.Lookup
import Zkie.Reduce

namespace Zkie.RmsNorm

open ScalarField FixedPoint Plonkish Synthesis Satisfaction HostRun Skeleton Placement RangeCheck Rescale
  Eltwise Reduce Lookup

variable {ε : Type}

/-- How the lookup domain is specified. The bounds are `f64` bit patterns. -/
inductive RsqrtDomain where
  | range (min max n : UInt64)
  | rawAnchors (points : List I18)
  deriving DecidableEq, Repr

/-- The results of the `f64` computations that shape a circuit; a missing result is a panic. -/
structure Floats where
  reciprocal : UInt64 → Option I18
  epsilon : UInt64 → Option I18
  rangeDomain : UInt64 → UInt64 → UInt64 → Option Domain
  rsqrt : I18 → Option I18

def RsqrtDomain.table (floats : Floats) : RsqrtDomain → Option Domain
  | .range min max n => floats.rangeDomain min max n
  | .rawAnchors points => points.mapM fun p => (floats.rsqrt p).map fun v => (p, v)

inductive RmsNormError where
  | inputCountMismatch (expected got : ℕ)
  | rsqrt (e : LookupError)
  deriving DecidableEq, Repr

structure RmsNormColumns where
  values : Column
  sum : Column
  sumShift : Column
  meanQ : Column
  meanR : Column
  meanSlack : Column
  addA : Column
  addB : Column
  addC : Column
  mulA : Column
  mulB : Column
  mulQ : Column
  mulR : Column
  mulSlack : Column
  rsqrtInput : Column
  rsqrtOutput : Column
  xAnchor : Column
  weightAnchor : Column
  unshiftIn : Column
  unshiftOut : Column
  deriving DecidableEq, Repr

/-- The columns, in the order of the sub-circuits that own them. -/
def RmsNormColumns.toList (c : RmsNormColumns) : List Column :=
  [c.values, c.sum, c.sumShift, c.meanQ, c.meanR, c.meanSlack] ++ ([c.addA, c.addB, c.addC] ++
    ([c.mulA, c.mulB, c.mulQ, c.mulR, c.mulSlack] ++ ([c.rsqrtInput, c.rsqrtOutput] ++
      ([c.xAnchor, c.weightAnchor] ++ [c.unshiftIn, c.unshiftOut]))))

structure RmsNormConfig where
  reduceMean : ReduceMeanConfig
  add : EltwiseAddConfig
  mul : EltwiseMulConfig
  rsqrt : LookupConfig
  k : ℕ
  epsilon : I18
  rsqrtDomain : RsqrtDomain
  xAnchor : Column
  weightAnchor : Column
  unshiftIn : Column
  unshiftOut : Column
  sUnshift : ℕ
  deriving DecidableEq, Repr

structure RmsNormOutput where
  outputs : List I18
  outputCells : List (AssignedCell Fr)
  inputCells : List (AssignedCell Fr)
  weightCells : List (AssignedCell Fr)

/-- The floor of a product, when it fits. -/
def mulFloor (a b : I18) : Option I18 := (requantizeMul a b).toOption.map Prod.fst

/-- The host value of the mean of the squares. -/
def meanSquare (reciprocal : I18) (xs : List I18) : Option I18 := do
  let squares ← xs.mapM fun x => mulFloor x x
  Reduce.reduceMean reciprocal squares

/-- The host value of the scaling by `v`, then by the weights. -/
def scaled (v : I18) (xs ws : List I18) : Option (List I18) := do
  let normed ← xs.mapM fun x => mulFloor x v
  (normed.zip ws).mapM fun p => mulFloor p.1 p.2

/-- The host value of the normalisation. -/
def rmsNorm (reciprocal epsilon : I18) (domain : Domain) (xs ws : List I18) : Option (List I18) := do
  let meanSq ← meanSquare reciprocal xs
  let vpe ← checkedAdd meanSq epsilon
  let rsqrtValue ← value? domain vpe
  scaled rsqrtValue xs ws

theorem rmsNorm_eq_some {reciprocal epsilon : I18} {domain : Domain} {xs ws ys : List I18} :
    rmsNorm reciprocal epsilon domain xs ws = some ys ↔ ∃ m v, meanSquare reciprocal xs = some m ∧
      (checkedAdd m epsilon).bind (value? domain) = some v ∧ scaled v xs ws = some ys := by
  simp only [rmsNorm, Option.bind_eq_bind, Option.bind_eq_some_iff]
  constructor
  · rintro ⟨m, hm, vpe, hvpe, v, hv, hys⟩
    exact ⟨m, v, hm, ⟨vpe, hvpe, hv⟩, hys⟩
  · rintro ⟨m, v, hm, ⟨vpe, hvpe, hv⟩, hys⟩
    exact ⟨m, hm, vpe, hvpe, v, hv, hys⟩

theorem mulFloor_eq_some {a b c : I18} : mulFloor a b = some c ↔ c.raw = a.raw * b.raw / scale18 := by
  rw [mulFloor, Option.map_eq_some_iff]
  constructor
  · rintro ⟨⟨q, r⟩, hqr, rfl⟩
    exact (requantizeMul_eq_ok.mp (toOption_eq_some.mp hqr)).1
  · intro hc
    exact ⟨(c, _), toOption_eq_some.mpr (requantizeMul_eq_ok.mpr ⟨hc, rfl⟩), rfl⟩

theorem reduceMean_eq {reciprocal sum : I18} {vs : List I18} (h : reduceSum vs = some sum) :
    Reduce.reduceMean reciprocal vs = mulFloor sum reciprocal := by
  simp only [Reduce.reduceMean, h, Option.bind_eq_bind, Option.bind_some, mulFloor, Option.pure_def]
  cases (requantizeMul sum reciprocal).toOption <;> rfl

/-- The cells hold the values `xs`. -/
def Carries (A : Assignment Fr) (cells : List (AssignedCell Fr)) (xs : List I18) : Prop :=
  List.Forall₂ (fun c x => A.cell c.cell = (x.raw : Fr)) cells xs

/-- The cells hold the values `xs` in the shifted representation. -/
def CarriesShifted (A : Assignment Fr) (cells : List (AssignedCell Fr)) (xs : List I18) : Prop :=
  List.Forall₂ (fun c x => A.cell c.cell = (shiftedRaw x : Fr)) cells xs

/-- The cells hold the values `xs` and may be copied. -/
def Copyable (cs : ConstraintSystem Fr) (A : Assignment Fr) (cells : List (AssignedCell Fr)) (xs : List I18) :
    Prop :=
  List.Forall₂ (fun c x => c.cell.column ∈ cs.equality ∧ A.cell c.cell = (x.raw : Fr)) cells xs

theorem Carries.unique {A : Assignment Fr} {cells : List (AssignedCell Fr)} {xs ys : List I18}
    (hx : Carries A cells xs) (hy : Carries A cells ys) : xs = ys :=
  List.right_unique_forall₂' (fun _ _ _ hc hc' => raw_inj (hc.symm.trans hc')) hx hy

theorem Copyable.carries {cs : ConstraintSystem Fr} {A : Assignment Fr} {cells : List (AssignedCell Fr)}
    {xs : List I18} (h : Copyable cs A cells xs) : Carries A cells xs := h.imp fun _ _ hc => hc.2

theorem Carries.sum {A : Assignment Fr} {cells : List (AssignedCell Fr)} {xs : List I18}
    (h : Carries A cells xs) : (cells.map fun c => A.cell c.cell).sum = (((xs.map I18.raw).sum : ℤ) : Fr) := by
  induction h with
  | nil => simp
  | cons hc _ ih =>
      rw [List.map_cons, List.sum_cons, List.map_cons, List.sum_cons, Int.cast_add, hc, ih]

theorem abs_sum_le (xs : List I18) : |(xs.map I18.raw).sum| ≤ xs.length * 2 ^ 63 := by
  induction xs with
  | nil => simp
  | cons x xs ih =>
      rw [List.map_cons, List.sum_cons, List.length_cons]
      have hx := abs_raw_le x
      have htri := abs_add_le x.raw (xs.map I18.raw).sum
      push_cast
      linarith

/-- A range-checked total of squares is the total that the host computes. -/
theorem reduceSum_of_squares {A : Assignment Fr} {cells : List (AssignedCell Fr)} {xs zs : List I18} {total : I18}
    (hcells : Carries A cells zs) (hmul : List.Forall₂ (fun x z => mulFloor x x = some z) xs zs)
    (hpos : 0 < cells.length) (hlt : cells.length < 2 ^ 64)
    (hsum : (cells.map fun c => A.cell c.cell).sum = (total.raw : Fr)) : reduceSum zs = some total := by
  have hlen := hcells.length_eq
  refine reduceSum_of_nonneg (hlen ▸ hpos) (fun z hz => ?_) ?_
  · obtain ⟨x, -, hxz⟩ := forall₂_exists_of_mem hmul.flip hz
    rw [mulFloor_eq_some.mp hxz]
    exact Int.ediv_nonneg (mul_self_nonneg _) (by norm_num [scale18])
  · refine intCast_inj ((abs_raw_le total).trans_lt (by norm_num)) ?_ (hsum.symm.trans hcells.sum)
    refine (abs_sum_le zs).trans_lt ?_
    have hbound : (zs.length : ℤ) < 2 ^ 64 := by
      rw [← hlen]
      exact_mod_cast hlt
    linarith

namespace RmsNormConfig

def unshiftGate (unshiftIn unshiftOut : Column) : List (Expression Fr) :=
  [.query unshiftOut 0 + .constant (i128ToFr signedShift) - .query unshiftIn 0]

def configure (floats : Floats) (c : RmsNormColumns) (bits : Column) (k epsilonMilli : UInt64)
    (rsqrtDomain : RsqrtDomain) : Configure Fr RmsNormConfig := do
  assertThat (1 ≤ k.toNat) "RmsNormChip requires at least one input"
  let reduceMean ← ReduceMeanConfig.configure c.values c.sum c.sumShift c.meanQ c.meanR c.meanSlack bits k
    (floats.reciprocal k)
  let add ← EltwiseAddConfig.configure c.addA c.addB c.addC bits
  let mul ← EltwiseMulConfig.configure c.mulA c.mulB c.mulQ c.mulR c.mulSlack bits
  let rsqrt ← LookupConfig.configure c.rsqrtInput c.rsqrtOutput
  let epsilon ← require "epsilon_milli / 1000 must be representable as an I18 fixed-point value"
    (floats.epsilon epsilonMilli)
  enableEquality c.xAnchor
  enableEquality c.weightAnchor
  enableEquality c.unshiftIn
  enableEquality c.unshiftOut
  let sUnshift ← selector
  createGate "rms norm unshift bridge" sUnshift (unshiftGate c.unshiftIn c.unshiftOut)
  return { reduceMean, add, mul, rsqrt, k := k.toNat, epsilon, rsqrtDomain, xAnchor := c.xAnchor,
           weightAnchor := c.weightAnchor, unshiftIn := c.unshiftIn, unshiftOut := c.unshiftOut, sUnshift }

def loadTable (config : RmsNormConfig) (domain : Domain) : Synth Fr ε Unit := do
  config.rsqrt.loadTable domain
  config.mul.loadMulOperandRangeTable

def unshiftRegion (config : RmsNormConfig) (v : I18) (known : Bool) :
    Synth Fr ε (AssignedCell Fr × AssignedCell Fr) :=
  Synth.assignRegion "rms norm unshift" fun region => do
    Synth.enable config.sUnshift region 0
    let shiftedCopy ← Synth.assignAdvice region config.unshiftIn 0 (witness known (i128ToFr (shiftedRaw v)))
    let unshifted ← Synth.assignAdvice region config.unshiftOut 0 (witness known (i64ToFr v))
    return (shiftedCopy, unshifted)

def unshift (config : RmsNormConfig) (shiftedCell : AssignedCell Fr) (v : I18) (known : Bool) :
    Synth Fr ε (AssignedCell Fr) := do
  let (shiftedCopy, unshifted) ← config.unshiftRegion v known
  Synth.linkCells "rms norm unshift link" [(shiftedCopy, shiftedCell)]
  return unshifted

def anchorRegion (config : RmsNormConfig) (x w : I18) (known : Bool) :
    Synth Fr ε (AssignedCell Fr × AssignedCell Fr) :=
  Synth.assignRegion "rms norm anchor" fun region => do
    let xCell ← Synth.assignAdvice region config.xAnchor 0 (witness known (i64ToFr x))
    let wCell ← Synth.assignAdvice region config.weightAnchor 0 (witness known (i64ToFr w))
    return (xCell, wCell)

/-- A multiplication row with both operands linked; the host product is computed again. -/
def linkedMul (config : RmsNormConfig) (links overflow : String) (x y : I18) (xCell yCell : AssignedCell Fr)
    (known : Bool) : Synth Fr ε (I18 × AssignedCell Fr) := do
  let (aCell, bCell, qCell) ← config.mul.assignMulRow x y known
  Synth.linkCells links [(aCell, xCell), (bCell, yCell)]
  let product ← Synth.unwrap overflow (mulFloor x y)
  return (product, qCell)

/-- The squares of the inputs and their mean, each square linked to its place in the sum. -/
def assignMeanSquare (config : RmsNormConfig) (inputs : List I18) (xCells : List (AssignedCell Fr))
    (known : Bool) : Synth Fr ε (I18 × AssignedCell Fr) := do
  let squares ← Synth.forEach (fun (x, xCell) => config.linkedMul "rms norm square anchor links"
    "I18 rms norm square overflow" x x xCell xCell known) (inputs.zip xCells)
  let (meanSq, meanCell, sumInputs) ← config.reduceMean.assign (squares.map Prod.fst) known
  let _ ← Synth.forEach (fun ((sq, sqCell), inputCell) => do
    let sqUnshifted ← config.unshift sqCell sq known
    Synth.linkCells "rms norm mean input link" [(sqUnshifted, inputCell)]) (squares.zip sumInputs)
  return (meanSq, meanCell)

/-- The reciprocal square root of the mean plus epsilon. The operand cell that holds epsilon is
returned by the addition row and dropped. -/
def assignRsqrt (config : RmsNormConfig) (domain : Domain) (meanSq : I18) (meanCell : AssignedCell Fr)
    (known : Bool) : Synth Fr RmsNormError (I18 × AssignedCell Fr) := do
  let (vpeA, _, vpeCell) ← config.add.assignAddRow meanSq config.epsilon known
  Synth.linkCells "rms norm variance plus epsilon link" [(vpeA, meanCell)]
  let vpe ← Synth.unwrap "I18 rms norm variance+epsilon overflow" (checkedAdd meanSq config.epsilon)
  let (rsqrtValue, _) ← (config.rsqrt.assign domain vpe known).mapError .rsqrt
  let vpeUnshifted ← config.unshift vpeCell vpe known
  let (rsqrtInput, rsqrtOutput) ← config.rsqrt.lookupRegion "rms norm rsqrt link row" vpe rsqrtValue known
  Synth.linkCells "rms norm rsqrt input link" [(rsqrtInput, vpeUnshifted)]
  return (rsqrtValue, rsqrtOutput)

/-- Scaling by the reciprocal square root, then by the weights. -/
def assignScaled (config : RmsNormConfig) (inputs weight : List I18) (xCells wCells : List (AssignedCell Fr))
    (rsqrtValue : I18) (rsqrtCell : AssignedCell Fr) (known : Bool) :
    Synth Fr ε (List (I18 × AssignedCell Fr)) := do
  let normed ← Synth.forEach (fun (x, xCell) => config.linkedMul "rms norm scale links"
    "I18 rms norm scale overflow" x rsqrtValue xCell rsqrtCell known) (inputs.zip xCells)
  Synth.forEach (fun ((n, nCell), w, wCell) => do
    let nUnshifted ← config.unshift nCell n known
    config.linkedMul "rms norm weight scale links" "I18 rms norm output overflow" n w nUnshifted wCell known)
    (normed.zip (weight.zip wCells))

def assign (config : RmsNormConfig) (domain : Domain) (inputs weight : List I18) (known : Bool) :
    Synth Fr RmsNormError RmsNormOutput := do
  Synth.ensure (inputs.length = config.k) (.inputCountMismatch config.k inputs.length)
  Synth.ensure (weight.length = config.k) (.inputCountMismatch config.k weight.length)
  let anchors ← Synth.forEach (fun (x, w) => config.anchorRegion x w known) (inputs.zip weight)
  let xCells := anchors.map Prod.fst
  let wCells := anchors.map Prod.snd
  let (meanSq, meanCell) ← config.assignMeanSquare inputs xCells known
  let (rsqrtValue, rsqrtCell) ← config.assignRsqrt domain meanSq meanCell known
  let outputs ← config.assignScaled inputs weight xCells wCells rsqrtValue rsqrtCell known
  return ⟨outputs.map Prod.fst, outputs.map Prod.snd, xCells, wCells⟩

structure Installed (config : RmsNormConfig) (cs : ConstraintSystem Fr) : Prop where
  reduceMean : config.reduceMean.Installed cs
  add : config.add.Installed cs
  mul : config.mul.Installed cs
  rsqrt : config.rsqrt.Installed cs
  unshift : ⟨"rms norm unshift bridge", config.sUnshift,
    unshiftGate config.unshiftIn config.unshiftOut⟩ ∈ cs.gates
  equality : ∀ c ∈ [config.xAnchor, config.weightAnchor, config.unshiftIn, config.unshiftOut], c ∈ cs.equality
  distinct : config.xAnchor ≠ config.weightAnchor ∧ config.unshiftIn ≠ config.unshiftOut
  length : config.reduceMean.sum.k = config.k

variable {config : RmsNormConfig} {cs cs' : ConstraintSystem Fr} {T : List ℕ → List Fr → Prop}
  {A : Assignment Fr} {known : Bool}

theorem Installed.mono (h : config.Installed cs) (hle : cs.Extends cs') : config.Installed cs' where
  reduceMean := h.reduceMean.mono hle
  add := h.add.mono hle
  mul := h.mul.mono hle
  rsqrt := h.rsqrt.mono hle
  unshift := hle.gates h.unshift
  equality c hc := hle.equality (h.equality c hc)
  distinct := h.distinct
  length := h.length

theorem configure_adds (floats : Floats) (c : RmsNormColumns) (bits : Column) (k epsilonMilli : UInt64)
    (rsqrtDomain : RsqrtDomain) (L : List (List ℕ × List Fr)) :
    Adds L (configure floats c bits k epsilonMilli rsqrtDomain) fun config =>
      L ++ [config.mul.rangeA.idle, config.mul.rangeB.idle, config.rsqrt.idle] := by
  refine Adds.assertThat.bind fun _ => (ReduceMeanConfig.configure_adds _ _ _ _ _ _ _ _ _ L).bind fun _ => ?_
  refine (EltwiseAddConfig.configure_adds _ _ _ _ L).bind fun _ => ?_
  refine (EltwiseMulConfig.configure_adds _ _ _ _ _ _ L).bind fun mul => ?_
  refine (LookupConfig.configure_adds _ _ _).bind fun rsqrt => Adds.require.bind fun epsilon => ?_
  rintro cs config cs' h hL
  cases h
  exact hL.trans (List.append_assoc _ _ _)

theorem configure_installed {floats : Floats} {c : RmsNormColumns} {bits : Column} {k epsilonMilli : UInt64}
    {rsqrtDomain : RsqrtDomain} (hnd : (bits :: c.toList).Nodup)
    (halloc : ∀ d ∈ bits :: c.toList, cs.Allocated d) :
    Configures (configure floats c bits k epsilonMilli rsqrtDomain) cs fun config cs' =>
      config.Installed cs' ∧ config.k = k.toNat ∧ floats.reciprocal k = some config.reduceMean.reciprocal ∧
        floats.epsilon epsilonMilli = some config.epsilon ∧ config.rsqrtDomain = rsqrtDomain ∧
        cs.numTables ≤ config.rsqrt.tableInput ∧ config.rsqrt.tableInput < cs'.numTables := by
  obtain ⟨hbits, hcols⟩ := List.nodup_cons.mp hnd
  simp only [RmsNormColumns.toList, List.mem_append, not_or] at hbits
  obtain ⟨hbmean, hbadd, hbmul, -⟩ := hbits
  obtain ⟨hmean, hcols, -⟩ := List.nodup_append.mp hcols
  obtain ⟨hadd, hcols, -⟩ := List.nodup_append.mp hcols
  obtain ⟨hmul, hcols, -⟩ := List.nodup_append.mp hcols
  obtain ⟨hrsqrt, hcols, -⟩ := List.nodup_append.mp hcols
  obtain ⟨hanchor, hshift, -⟩ := List.nodup_append.mp hcols
  refine Configures.assertThat.bind fun _ cs₀ h₀ _ => ?_
  refine (ReduceMeanConfig.configure_installed (List.nodup_cons.mpr ⟨hbmean, hmean⟩)).bind
    fun mean cs₁ h₁ ⟨hmean, hk, _, hrecip, _⟩ => ?_
  refine (EltwiseAddConfig.configure_installed (List.nodup_cons.mpr ⟨hbadd, hadd⟩)).bind
    fun add cs₂ h₂ hadd => ?_
  refine (EltwiseMulConfig.configure_installed (List.nodup_cons.mpr ⟨hbmul, hmul⟩) fun d hd => ?_).bind
    fun mul cs₃ h₃ ⟨hmul, _⟩ => ?_
  · have hd' : d ∈ bits :: c.toList := by
      rcases List.mem_cons.mp hd with rfl | hd
      · exact List.mem_cons_self
      · exact List.mem_cons_of_mem _ (List.mem_append_right _ (List.mem_append_right _ (List.mem_append_left _ hd)))
    exact (halloc d hd').mono ((h₀.trans h₁).trans h₂)
  refine (LookupConfig.configure_installed (by simpa using hrsqrt)).bind fun rsqrt cs₄ h₄ ⟨hrsqrt, hlow, hhigh⟩ => ?_
  refine Configures.require.bind fun epsilon cs₅ h₅ heps => ?_
  refine (Configures.enableEquality c.xAnchor).bind fun _ cs₆ h₆ hx => ?_
  refine (Configures.enableEquality c.weightAnchor).bind fun _ cs₇ h₇ hw => ?_
  refine (Configures.enableEquality c.unshiftIn).bind fun _ cs₈ h₈ hi => ?_
  refine (Configures.enableEquality c.unshiftOut).bind fun _ cs₉ h₉ ho => ?_
  refine Configures.gate _ _ fun cs₁₀ h₁₀ hunshift => ?_
  have t₈ := h₉.trans h₁₀
  have t₇ := h₈.trans t₈
  have t₆ := h₇.trans t₇
  have t₄ := h₅.trans (h₆.trans t₆)
  have t₃ := h₄.trans t₄
  have t₂ := h₃.trans t₃
  refine Configures.pure ⟨⟨hmean.mono (h₂.trans t₂), hadd.mono t₂, hmul.mono t₃, hrsqrt.mono t₄, hunshift, ?_,
    ⟨by simpa using hanchor, by simpa using hshift⟩, hk⟩, rfl, hrecip, heps, rfl,
    ((h₀.trans h₁).trans (h₂.trans h₃)).numTables.trans hlow, hhigh.trans_le t₄.numTables⟩
  simp only [List.forall_mem_cons, List.not_mem_nil, false_implies, implies_true, and_true]
  exact ⟨t₆.equality hx, t₇.equality hw, t₈.equality hi, h₁₀.equality ho⟩

theorem unshiftRegion_lays (v : I18) : Lays (config.unshiftRegion (ε := ε) v known)
    (fun r => (⟨⟨r, config.unshiftIn, 0⟩, witness known (i128ToFr (shiftedRaw v))⟩,
      ⟨⟨r, config.unshiftOut, 0⟩, witness known (i64ToFr v)⟩))
    fun r => [.region "rms norm unshift" r, .enable config.sUnshift r 0,
      .advice ⟨r, config.unshiftIn, 0⟩ (witness known (i128ToFr (shiftedRaw v))),
      .advice ⟨r, config.unshiftOut, 0⟩ (witness known (i64ToFr v))] :=
  Emits.lays _ fun _ _ => rfl

theorem holds_unshift (hwf : cs.WellFormed) (h : config.Installed cs) (r : ℕ) :
    Holds cs T A (.enable config.sUnshift r 0) ↔
      A.cell ⟨r, config.unshiftOut, 0⟩ + (signedShift : Fr) - A.cell ⟨r, config.unshiftIn, 0⟩ = 0 := by
  rw [holds_gate hwf h.unshift]
  simp [unshiftGate, Assignment.row]

theorem unshift_sound (hwf : cs.WellFormed) (h : config.Installed cs) (shiftedCell : AssignedCell Fr) (v : I18) :
    Sound cs T A (config.unshift (ε := ε) shiftedCell v known) fun c =>
      ∀ z : I18, A.cell shiftedCell.cell = (shiftedRaw z : Fr) ↔ A.cell c.cell = (z.raw : Fr) := by
  refine Triple.bind (Q := fun c => A.cell c.2.cell + (signedShift : Fr) = A.cell c.1.cell) ?_
    fun c hgate => ?_
  · refine .of_lays (unshiftRegion_lays v) fun r hr => ⟨fun _ _ => trivial, ?_⟩
    exact sub_eq_zero.mp ((holds_unshift hwf h r).mp (hr _ (by simp)))
  obtain ⟨copy, out⟩ := c
  refine Sound.linkCells.bind fun _ hlinks => .pure fun z => ?_
  rw [← hlinks (copy, shiftedCell) (by simp), ← hgate, shiftedRaw, Int.cast_add]
  exact add_left_inj _

theorem unshift_complete (hwf : cs.WellFormed) (h : config.Installed cs) {shiftedCell : AssignedCell Fr}
    {column : Column} {v : I18} (hcolumn : column ∈ cs.equality) (hv : A.Has shiftedCell column (shiftedRaw v : Fr)) :
    Complete cs T A (config.unshift (ε := ε) shiftedCell v true) fun c =>
      A.Has c config.unshiftOut (v.raw : Fr) := by
  refine Triple.bind (Q := fun c => A.Has c.1 config.unshiftIn (shiftedRaw v : Fr) ∧
    A.Has c.2 config.unshiftOut (v.raw : Fr)) ?_ fun ⟨copy, out⟩ ⟨hin, hout⟩ => ?_
  · refine .of_lays (unshiftRegion_lays v) fun r hr => ?_
    simp only [List.forall_mem_cons, List.not_mem_nil, false_implies, implies_true, and_true,
      Witnessed, witness, if_true, i128ToFr_cast, i64ToFr_cast, true_and] at hr
    refine ⟨?_, ⟨rfl, hr.1⟩, rfl, hr.2⟩
    simp only [List.forall_mem_cons, List.not_mem_nil, false_implies, implies_true, and_true,
      holds_unshift hwf h, hr.1, hr.2]
    refine ⟨trivial, ?_, trivial, trivial⟩
    rw [shiftedRaw]
    push_cast
    ring
  refine (Complete.linkCells ?_).bind fun _ _ => .pure hout
  simp only [List.forall_mem_cons, List.not_mem_nil, false_implies, implies_true, and_true]
  exact hin.link hv (h.equality _ (by simp)) hcolumn

theorem unshift_placed (h : config.Installed cs) (shiftedCell : AssignedCell Fr) (v : I18) :
    Placed (config.unshift (ε := ε) shiftedCell v known) :=
  (Placed.of_row [config.unshiftIn, config.unshiftOut] (unshiftRegion_lays v) (fun _ => rfl)
    (by simpa using h.distinct.2) fun _ => by simp [IsInner]).bind fun _ => Placed.linkCells.bind fun _ => .pure

theorem unshift_decides (shiftedCell : AssignedCell Fr) (v : I18) :
    Decides (config.unshift (ε := ε) shiftedCell v known) True fun _ => True :=
  ((Decides.region (unshiftRegion_lays v)).bind fun _ _ => Decides.linkCells.bind fun _ _ =>
    Decides.pure trivial).iff (by simp) fun _ _ => id

/-- The same columns and gates with another epsilon and another domain. -/
def deviate (config : RmsNormConfig) (b : I18) (d : RsqrtDomain) : RmsNormConfig :=
  { config with epsilon := b, rsqrtDomain := d }

/-- The layout does not depend on epsilon, which the circuit never sees. -/
theorem unshift_agree {b : I18} {d : RsqrtDomain} {shiftedCell shiftedCell' : AssignedCell Fr}
    (hcell : shiftedCell.cell = shiftedCell'.cell) (v v' : I18) (known' : Bool) :
    Agree (config.unshift (ε := ε) shiftedCell v known)
      ((config.deviate b d).unshift (ε := ε) shiftedCell' v' known') fun c c' => c.cell = c'.cell := by
  refine (Agree.of_lays (unshiftRegion_lays v) (unshiftRegion_lays v')
    (R := fun c c' => c.1.cell = c'.1.cell ∧ c.2.cell = c'.2.cell) (fun _ => rfl) fun _ => ⟨rfl, rfl⟩).bind
    fun ⟨copy, out⟩ ⟨copy', out'⟩ hc => ?_
  refine (Agree.linkCells ?_).bind fun _ _ _ => .pure hc.2
  exact .cons ⟨hc.1, hcell⟩ .nil

theorem linkedMul_sound (hwf : cs.WellFormed) (h : config.Installed cs)
    (hT : LookupRangeCheckConfig.OnlyBytes T) (links overflow : String) (x y : I18)
    (xCell yCell : AssignedCell Fr) :
    Sound cs T A (config.linkedMul (ε := ε) links overflow x y xCell yCell known) fun c =>
      ∃ a b z : I18, A.cell xCell.cell = (a.raw : Fr) ∧ A.cell yCell.cell = (b.raw : Fr) ∧
        A.cell c.2.cell = (shiftedRaw z : Fr) ∧ mulFloor a b = some z := by
  refine (EltwiseMulConfig.assignMulRow_sound hwf h.mul hT x y known).bind
    fun ⟨ca, cb, cq⟩ ⟨a, b, z, ha, hb, hz, hraw⟩ => ?_
  refine Sound.linkCells.bind fun _ hlinks => ?_
  simp only [List.forall_mem_cons, List.not_mem_nil, false_implies, implies_true, and_true] at hlinks
  refine Triple.bind (.unwrap (Q := fun _ => True) fun _ _ => trivial) fun product _ => .pure ?_
  exact ⟨a, b, z, hlinks.1.symm.trans ha, hlinks.2.symm.trans hb, hz, mulFloor_eq_some.mpr hraw⟩

theorem linkedMul_complete (hwf : cs.WellFormed) (h : config.Installed cs)
    (hA : config.mul.rangeA.BytesLoaded T) (hB : config.mul.rangeB.BytesLoaded T) (links overflow : String)
    {x y : I18} {xCell yCell : AssignedCell Fr}
    (hx : xCell.cell.column ∈ cs.equality ∧ A.cell xCell.cell = (x.raw : Fr))
    (hy : yCell.cell.column ∈ cs.equality ∧ A.cell yCell.cell = (y.raw : Fr)) :
    Complete cs T A (config.linkedMul (ε := ε) links overflow x y xCell yCell true) fun c =>
      A.Has c.2 config.mul.q (shiftedRaw c.1 : Fr) := by
  refine (EltwiseMulConfig.assignMulRow_complete hwf h.mul hA hB x y).bind
    fun ⟨ca, cb, cq⟩ ⟨z, hraw, ha, hb, hz⟩ => ?_
  have heq := h.mul.equality
  refine (Complete.linkCells ?_).bind fun _ _ => ?_
  · simp only [List.forall_mem_cons, List.not_mem_nil, false_implies, implies_true, and_true]
    exact ⟨ha.link ⟨rfl, hx.2⟩ (heq _ (by simp)) hx.1, hb.link ⟨rfl, hy.2⟩ (heq _ (by simp)) hy.1⟩
  refine Triple.bind (.unwrap (Q := fun product => product = z) fun product hp => ?_) fun product hp => .pure ?_
  · rw [mulFloor_eq_some.mpr hraw] at hp
    exact (Option.some.inj hp).symm
  · rw [hp]
    exact hz

theorem linkedMul_placed (h : config.Installed cs) (links overflow : String) (x y : I18)
    (xCell yCell : AssignedCell Fr) :
    Placed (config.linkedMul (ε := ε) links overflow x y xCell yCell known) :=
  (EltwiseMulConfig.assignMulRow_placed h.mul x y known).bind fun _ => Placed.linkCells.bind fun _ =>
    Placed.unwrap.bind fun _ => .pure

theorem linkedMul_decides (h : config.Installed cs) (links overflow : String) (x y : I18)
    (xCell yCell : AssignedCell Fr) :
    Decides (config.linkedMul (ε := ε) links overflow x y xCell yCell known)
      (True ∧ (mulFloor x y).isSome) fun c => mulFloor x y = some c.1 := by
  refine Decides.iff (c := (requantizeMul x y).toOption.isSome ∧ True ∧
    ∃ z, mulFloor x y = some z ∧ True) (P := fun c => mulFloor x y = some c.1) ?_ ?_ fun _ _ => id
  · exact (EltwiseMulConfig.assignMulRow_decides h.mul x y known).bind fun _ _ =>
      Decides.linkCells.bind fun _ _ => Decides.unwrap_bind fun z hz => .pure hz
  · rw [mulFloor]
    cases (requantizeMul x y).toOption <;> simp

theorem linkedMul_agree (h : config.Installed cs) {b : I18} {d : RsqrtDomain} {links : String} {overflow overflow' : String}
    {xCell xCell' yCell yCell' : AssignedCell Fr} (hx : xCell.cell = xCell'.cell)
    (hy : yCell.cell = yCell'.cell) (x x' y y' : I18) (known' : Bool) :
    Agree (config.linkedMul (ε := ε) links overflow x y xCell yCell known)
      ((config.deviate b d).linkedMul (ε := ε) links overflow' x' y' xCell' yCell' known')
      fun c c' => c.2.cell = c'.2.cell := by
  refine (EltwiseMulConfig.assignMulRow_agree h.mul x x' y y' known known').bind
    fun ⟨ca, cb, cq⟩ ⟨ca', cb', cq'⟩ ⟨ha, hb, hq⟩ => ?_
  refine (Agree.linkCells ?_).bind fun _ _ _ => ?_
  · exact .cons ⟨ha, hx⟩ (.cons ⟨hb, hy⟩ .nil)
  exact (Agree.unwrap (R := fun _ _ => True) fun _ _ _ _ => trivial).bind fun _ _ _ => .pure hq

theorem assignMeanSquare_sound (hwf : cs.WellFormed) (h : config.Installed cs)
    (hT : LookupRangeCheckConfig.OnlyBytes T) {inputs : List I18} {xCells : List (AssignedCell Fr)}
    (hlen : inputs.length = config.k) (hcells : xCells.length = config.k) :
    Sound cs T A (config.assignMeanSquare (ε := ε) inputs xCells known) fun c =>
      ∃ xs m, Carries A xCells xs ∧ meanSquare config.reduceMean.reciprocal xs = some m ∧
        A.cell c.2.cell = (shiftedRaw m : Fr) := by
  refine Triple.bind (.forEach (Q := fun p c => ∃ x z : I18, A.cell p.2.cell = (x.raw : Fr) ∧
    A.cell c.2.cell = (shiftedRaw z : Fr) ∧ mulFloor x x = some z) fun ⟨x, xCell⟩ _ => ?_) fun squares hsq => ?_
  · refine (linkedMul_sound hwf h hT _ _ x x xCell xCell).mono fun c ⟨a, b, z, ha, hb, hz, hmul⟩ => ?_
    rw [← raw_inj (ha.symm.trans hb)] at hmul
    exact ⟨a, z, ha, hz, hmul⟩
  obtain ⟨xs, zs, hxs, hzs, hmul⟩ := forall₂_choose hsq
  refine (ReduceMeanConfig.assign_sound hwf h.reduceMean).bind
    fun ⟨meanSq, meanCell, sumInputs⟩ ⟨sum, mean, hsum, hmean, hraw, hk⟩ => ?_
  refine Triple.bind (.forEach (Q := fun p _ => ∀ z : I18, A.cell p.1.2.cell = (shiftedRaw z : Fr) →
    A.cell p.2.cell = (z.raw : Fr)) fun ⟨⟨sq, sqCell⟩, inputCell⟩ _ => ?_) fun _ hlinks => .pure ?_
  · refine (unshift_sound hwf h sqCell sq).bind fun out hout => Sound.linkCells.mono fun _ hlink z hz => ?_
    rw [← hlink (out, inputCell) (by simp)]
    exact (hout z).mp hz
  have hcarries : Carries A sumInputs zs := by
    refine forall₂_of_zip ?_ hzs fun p hp z hz => ?_
    · rw [hk, h.length, ← hsq.length_eq, List.length_zip, hlen, hcells, Nat.min_self]
    · obtain ⟨-, -, hp⟩ := forall₂_exists_of_mem hlinks hp
      exact hp z hz
  have hsome : reduceSum zs = some sum :=
    reduceSum_of_squares hcarries hmul (by rw [hk]; exact h.reduceMean.sum.pos)
      (by rw [hk]; exact h.reduceMean.sum.bounded) hsum
  refine ⟨xs, mean, ?_, ?_, hmean⟩
  · rw [← @List.map_snd_zip _ _ inputs xCells (by omega)]
    exact List.forall₂_map_left_iff.mpr hxs
  · simp only [meanSquare, Checked.mapM_eq_some.mpr hmul, Option.bind_eq_bind, Option.bind_some,
      reduceMean_eq hsome, mulFloor_eq_some.mpr hraw]

/-- The row that the circuit looks up is tied to the mean only through an operand that nothing
constrains: any 64-bit offset `b` from the mean to a row of the table is accepted. -/
theorem assignRsqrt_sound (hwf : cs.WellFormed) (h : config.Installed cs) {table : Domain}
    (hT : config.rsqrt.TableIs T table) (domain : Domain) (meanSq : I18) {meanCell : AssignedCell Fr} {m : I18}
    (hm : A.cell meanCell.cell = (shiftedRaw m : Fr)) :
    Sound cs T A (config.assignRsqrt domain meanSq meanCell known) fun c =>
      ∃ b : I18, ∃ p ∈ table ++ [padRow], checkedAdd m b = some p.1 ∧ A.cell c.2.cell = (p.2.raw : Fr) := by
  refine (EltwiseAddConfig.assignAddRow_sound hwf h.add meanSq config.epsilon known).bind
    fun ⟨ca, cb, cc⟩ ⟨x, y, z, hx, _, hz, hraw⟩ => ?_
  refine Sound.linkCells.bind fun _ hlink => ?_
  refine Triple.bind (.unwrap (Q := fun _ => True) fun _ _ => trivial) fun vpe _ => ?_
  refine (Triple.mapError (LookupConfig.assign_sound vpe)).bind fun ⟨rsqrtValue, _⟩ _ => ?_
  refine (unshift_sound hwf h cc vpe).bind fun out hout => ?_
  refine (LookupConfig.lookupRegion_sound hwf h.rsqrt hT _ vpe rsqrtValue).bind
    fun ⟨ci, co⟩ ⟨p, hp, hpi, hpo⟩ => ?_
  refine Sound.linkCells.bind fun _ hlink' => .pure ⟨y, p, hp, ?_, hpo⟩
  have hxm : x = m := by
    refine shiftedRaw_inj ?_
    rw [← hx, ← hm]
    exact hlink (ca, meanCell) (by simp)
  have hpz : p.1 = z := by
    refine raw_inj (hpi.symm.trans ((hlink' (ci, out) (by simp)).trans ?_))
    exact (hout z).mp hz
  rw [hpz, ← hxm]
  exact checkedAdd_eq_some.mpr hraw

theorem assignScaled_sound (hwf : cs.WellFormed) (h : config.Installed cs)
    (hT : LookupRangeCheckConfig.OnlyBytes T) {inputs weight : List I18} {xCells wCells : List (AssignedCell Fr)}
    (hlen : inputs.length = config.k) (hcells : xCells.length = config.k) (hwlen : weight.length = config.k)
    (hwcells : wCells.length = config.k) (rsqrtValue : I18) {rsqrtCell : AssignedCell Fr} {v : I18}
    (hv : A.cell rsqrtCell.cell = (v.raw : Fr)) :
    Sound cs T A (config.assignScaled (ε := ε) inputs weight xCells wCells rsqrtValue rsqrtCell known) fun c =>
      ∃ xs ws ys, Carries A xCells xs ∧ Carries A wCells ws ∧ CarriesShifted A (c.map Prod.snd) ys ∧
        scaled v xs ws = some ys := by
  refine Triple.bind (.forEach (Q := fun p c => ∃ x z : I18, A.cell p.2.cell = (x.raw : Fr) ∧
    A.cell c.2.cell = (shiftedRaw z : Fr) ∧ mulFloor x v = some z) fun ⟨x, xCell⟩ _ => ?_) fun normed hnorm => ?_
  · refine (linkedMul_sound hwf h hT _ _ x rsqrtValue xCell rsqrtCell).mono
      fun c ⟨a, b, z, ha, hb, hz, hmul⟩ => ?_
    rw [raw_inj (hb.symm.trans hv)] at hmul
    exact ⟨a, z, ha, hz, hmul⟩
  obtain ⟨xs, ns, hxs, hns, hmul⟩ := forall₂_choose hnorm
  refine Triple.mono (.forEach (Q := fun p c => ∃ (nw : I18 × I18) (y : I18),
    (A.cell p.1.2.cell = (shiftedRaw nw.1 : Fr) ∧ A.cell p.2.2.cell = (nw.2.raw : Fr)) ∧
    A.cell c.2.cell = (shiftedRaw y : Fr) ∧ mulFloor nw.1 nw.2 = some y)
    fun ⟨⟨n, nCell⟩, w, wCell⟩ _ => ?_) fun outs houts => ?_
  · refine (unshift_sound hwf h nCell n).bind fun out hout => ?_
    refine (linkedMul_sound hwf h hT _ _ n w out wCell).mono fun c ⟨a, b, z, ha, hb, hz, hmul⟩ => ?_
    exact ⟨(a, b), z, ⟨(hout a).mpr ha, hb⟩, hz, hmul⟩
  obtain ⟨nws, ys, hnws, hys, hmul'⟩ := forall₂_choose houts
  have hnlen : normed.length = config.k := by
    rw [← hnorm.length_eq, List.length_zip, hlen, hcells, Nat.min_self]
  have hwzip : (weight.zip wCells).length = config.k := by rw [List.length_zip, hwlen, hwcells, Nat.min_self]
  have hfst : nws.map Prod.fst = ns := by
    refine List.right_unique_forall₂' (fun _ _ _ hz hz' => shiftedRaw_inj (hz.symm.trans hz')) ?_ hns
    rw [← @List.map_fst_zip _ _ normed (weight.zip wCells) (by omega), List.forall₂_map_left_iff,
      List.forall₂_map_right_iff]
    exact hnws.imp fun _ _ hp => hp.1
  have hnw : nws = ns.zip (nws.map Prod.snd) := List.zip_of_prod hfst rfl
  refine ⟨xs, nws.map Prod.snd, ys, ?_, ?_, List.forall₂_map_left_iff.mpr hys, ?_⟩
  · rw [← @List.map_snd_zip _ _ inputs xCells (by omega)]
    exact List.forall₂_map_left_iff.mpr hxs
  · rw [← @List.map_snd_zip _ _ weight wCells (by omega),
      ← @List.map_snd_zip _ _ normed (weight.zip wCells) (by omega), Carries, List.forall₂_map_left_iff,
      List.forall₂_map_left_iff, List.forall₂_map_right_iff]
    exact hnws.imp fun _ _ hp => hp.2
  · rw [scaled, Checked.mapM_eq_some.mpr hmul, Option.bind_eq_bind, Option.bind_some, ← hnw]
    exact Checked.mapM_eq_some.mpr hmul'

theorem anchorRegion_lays (x w : I18) : Lays (config.anchorRegion (ε := ε) x w known)
    (fun r => (⟨⟨r, config.xAnchor, 0⟩, witness known (i64ToFr x)⟩,
      ⟨⟨r, config.weightAnchor, 0⟩, witness known (i64ToFr w)⟩))
    fun r => [.region "rms norm anchor" r, .advice ⟨r, config.xAnchor, 0⟩ (witness known (i64ToFr x)),
      .advice ⟨r, config.weightAnchor, 0⟩ (witness known (i64ToFr w))] :=
  Emits.lays _ fun _ _ => rfl

/-- The rows of the table that a prover may use: any row that some offset reaches. -/
def Reachable (reciprocal : I18) (table : Domain) (xs ws ys : List I18) : Prop :=
  ∃ b : I18, ∃ p ∈ table ++ [padRow], rmsNorm reciprocal b [p] xs ws = some ys

theorem value?_singleton {p : I18 × I18} : value? [p] p.1 = some p.2 := by simp [value?]

theorem assign_sound (hwf : cs.WellFormed) (h : config.Installed cs)
    (hB : LookupRangeCheckConfig.OnlyBytes T) {table : Domain} (hT : config.rsqrt.TableIs T table)
    (domain : Domain) (inputs weight : List I18) :
    Sound cs T A (config.assign domain inputs weight known) fun out =>
      ∃ xs ws ys, Carries A out.inputCells xs ∧ Carries A out.weightCells ws ∧
        CarriesShifted A out.outputCells ys ∧ out.inputCells.length = config.k ∧
        out.weightCells.length = config.k ∧ out.outputs.length = out.outputCells.length ∧
        Reachable config.reduceMean.reciprocal table xs ws ys := by
  refine Triple.ensure.bind fun _ hlen => Triple.ensure.bind fun _ hwlen => ?_
  refine Triple.bind (.forEach (Q := fun _ _ => True) fun p _ =>
    .of_lays (anchorRegion_lays p.1 p.2) fun _ _ => ⟨fun _ _ => trivial, trivial⟩) fun anchors hanchors => ?_
  have hanchors : anchors.length = config.k := by
    rw [← hanchors.length_eq, List.length_zip, hlen, hwlen, Nat.min_self]
  have hx : (anchors.map Prod.fst).length = config.k := by rw [List.length_map, hanchors]
  have hw : (anchors.map Prod.snd).length = config.k := by rw [List.length_map, hanchors]
  refine (assignMeanSquare_sound hwf h hB hlen hx).bind fun ⟨meanSq, meanCell⟩ ⟨xs, m, hxs, hm, hmean⟩ => ?_
  refine (assignRsqrt_sound hwf h hT domain meanSq hmean).bind
    fun ⟨rsqrtValue, rsqrtCell⟩ ⟨b, p, hp, hvpe, hv⟩ => ?_
  refine (assignScaled_sound hwf h hB hlen hx hwlen hw rsqrtValue hv).bind
    fun outs ⟨xs', ws, ys, hxs', hws, hys, hscaled⟩ => 
      .pure ⟨xs, ws, ys, hxs, hws, hys, hx, hw, by simp, b, p, hp, ?_⟩
  simp only [rmsNorm, hm, Option.bind_eq_bind, Option.bind_some, hvpe, value?_singleton]
  rw [hxs.unique hxs', hscaled]

theorem assignMeanSquare_complete (hwf : cs.WellFormed) (h : config.Installed cs)
    (hA : config.mul.rangeA.BytesLoaded T) (hB : config.mul.rangeB.BytesLoaded T) {inputs : List I18}
    {xCells : List (AssignedCell Fr)} (hx : Copyable cs A xCells inputs) :
    Complete cs T A (config.assignMeanSquare (ε := ε) inputs xCells true) fun c =>
      A.Has c.2 config.reduceMean.q (shiftedRaw c.1 : Fr) := by
  refine Triple.bind (.forEach (Q := fun _ c => A.Has c.2 config.mul.q (shiftedRaw c.1 : Fr))
    fun ⟨x, xCell⟩ hp => ?_) fun squares hsq => ?_
  · have hc := List.forall₂_zip hx.flip hp
    exact linkedMul_complete hwf h hA hB _ _ hc hc
  refine (ReduceMeanConfig.assign_complete hwf h.reduceMean).bind
    fun ⟨meanSq, meanCell, sumInputs⟩ ⟨hmean, hsum⟩ => ?_
  refine Triple.bind (.forEach (Q := fun _ _ => True) fun ⟨⟨sq, sqCell⟩, inputCell⟩ hp => ?_)
    fun _ _ => .pure hmean
  obtain ⟨-, -, hq⟩ := forall₂_exists_of_mem hsq.flip (List.of_mem_zip hp).1
  have hinput := List.forall₂_zip (List.forall₂_map_right_iff.mp hsum).flip hp
  refine (unshift_complete hwf h (h.mul.equality _ (by simp)) hq).bind fun out hout => Complete.linkCells ?_
  simp only [List.forall_mem_cons, List.not_mem_nil, false_implies, implies_true, and_true]
  exact hout.link hinput (h.equality _ (by simp)) h.reduceMean.sum.equality.1

theorem assignRsqrt_complete (hwf : cs.WellFormed) (h : config.Installed cs) {table domain : Domain}
    (hT : config.rsqrt.TableIs T table) (hdomain : ∀ p ∈ domain, p ∈ table ++ [padRow]) {meanSq : I18}
    {meanCell : AssignedCell Fr} (hm : A.Has meanCell config.reduceMean.q (shiftedRaw meanSq : Fr)) :
    Complete cs T A (config.assignRsqrt domain meanSq meanCell true) fun c =>
      A.Has c.2 config.rsqrt.output (c.1.raw : Fr) := by
  refine (EltwiseAddConfig.assignAddRow_complete hwf h.add meanSq config.epsilon).bind
    fun ⟨ca, cb, cc⟩ ⟨z, hz, ha, _, hc⟩ => ?_
  refine (Complete.linkCells ?_).bind fun _ _ => ?_
  · simp only [List.forall_mem_cons, List.not_mem_nil, false_implies, implies_true, and_true]
    exact ha.link hm h.add.equality.1 h.reduceMean.equality.1
  refine Triple.bind (.unwrap (Q := fun vpe => vpe = z) fun vpe hvpe => ?_) fun vpe hvpe => ?_
  · exact Option.some.inj (hvpe.symm.trans hz)
  rw [hvpe]
  refine (Triple.mapError (LookupConfig.assign_complete hwf h.rsqrt hT hdomain z)).bind
    fun ⟨rsqrtValue, _⟩ ⟨hvalue, _⟩ => ?_
  refine (unshift_complete hwf h h.add.equality.2.2 hc).bind fun out hout => ?_
  refine (LookupConfig.lookupRegion_complete hwf h.rsqrt hT _ (hdomain _ (LookupConfig.value?_mem hvalue))).bind
    fun ⟨ci, co⟩ ⟨hi, ho⟩ => ?_
  refine (Complete.linkCells ?_).bind fun _ _ => .pure ho
  simp only [List.forall_mem_cons, List.not_mem_nil, false_implies, implies_true, and_true]
  exact hi.link hout h.rsqrt.equality.1 (h.equality _ (by simp))

theorem assignScaled_complete (hwf : cs.WellFormed) (h : config.Installed cs)
    (hA : config.mul.rangeA.BytesLoaded T) (hB : config.mul.rangeB.BytesLoaded T) {inputs weight : List I18}
    {xCells wCells : List (AssignedCell Fr)} (hx : Copyable cs A xCells inputs) (hw : Copyable cs A wCells weight)
    {v : I18} {rsqrtCell : AssignedCell Fr}
    (hv : rsqrtCell.cell.column ∈ cs.equality ∧ A.cell rsqrtCell.cell = (v.raw : Fr)) :
    Complete cs T A (config.assignScaled (ε := ε) inputs weight xCells wCells v rsqrtCell true) fun outs =>
      ∀ c ∈ outs, A.Has c.2 config.mul.q (shiftedRaw c.1 : Fr) := by
  refine Triple.bind (.forEach (Q := fun _ c => A.Has c.2 config.mul.q (shiftedRaw c.1 : Fr))
    fun ⟨x, xCell⟩ hp => ?_) fun normed hnorm => ?_
  · exact linkedMul_complete hwf h hA hB _ _ (List.forall₂_zip hx.flip hp) hv
  refine Triple.mono (.forEach (Q := fun _ c => A.Has c.2 config.mul.q (shiftedRaw c.1 : Fr))
    fun ⟨⟨n, nCell⟩, w, wCell⟩ hp => ?_) fun outs houts c hc => ?_
  · obtain ⟨-, -, hq⟩ := forall₂_exists_of_mem hnorm.flip (List.of_mem_zip hp).1
    have hwc := List.forall₂_zip hw.flip (List.of_mem_zip hp).2
    refine (unshift_complete hwf h (h.mul.equality _ (by simp)) hq).bind fun out hout => ?_
    exact linkedMul_complete hwf h hA hB _ _
      ⟨by rw [hout.column]; exact h.equality _ (by simp), hout.value⟩ hwc
  · obtain ⟨-, -, hq⟩ := forall₂_exists_of_mem houts.flip hc
    exact hq

/-- The cells hold the values `xs` in the shifted representation and may be copied. -/
def CopyableShifted (cs : ConstraintSystem Fr) (A : Assignment Fr) (cells : List (AssignedCell Fr))
    (xs : List I18) : Prop :=
  List.Forall₂ (fun c x => c.cell.column ∈ cs.equality ∧ A.cell c.cell = (shiftedRaw x : Fr)) cells xs

theorem assign_complete (hwf : cs.WellFormed) (h : config.Installed cs)
    (hA : config.mul.rangeA.BytesLoaded T) (hB : config.mul.rangeB.BytesLoaded T) {table domain : Domain}
    (hT : config.rsqrt.TableIs T table) (hdomain : ∀ p ∈ domain, p ∈ table ++ [padRow]) (inputs weight : List I18) :
    Complete cs T A (config.assign domain inputs weight true) fun out =>
      Copyable cs A out.inputCells inputs ∧ Copyable cs A out.weightCells weight ∧
        CopyableShifted cs A out.outputCells out.outputs := by
  refine Triple.ensure.bind fun _ hlen => Triple.ensure.bind fun _ hwlen => ?_
  refine Triple.bind (.forEach (Q := fun p c => A.Has c.1 config.xAnchor (p.1.raw : Fr) ∧
    A.Has c.2 config.weightAnchor (p.2.raw : Fr)) fun p _ => ?_) fun anchors hanchors => ?_
  · refine .of_lays (anchorRegion_lays p.1 p.2) fun r hr => ?_
    simp only [List.forall_mem_cons, List.not_mem_nil, false_implies, implies_true, and_true,
      Witnessed, witness, if_true, i64ToFr_cast, true_and] at hr
    refine ⟨?_, ⟨rfl, hr.1⟩, rfl, hr.2⟩
    simp only [List.forall_mem_cons, List.not_mem_nil, false_implies, implies_true, and_true]
    exact ⟨trivial, trivial, trivial⟩
  have hx : Copyable cs A (anchors.map Prod.fst) inputs := by
    rw [Copyable, ← @List.map_fst_zip _ _ inputs weight (by omega), List.forall₂_map_left_iff,
      List.forall₂_map_right_iff]
    exact hanchors.flip.imp fun _ _ hc => ⟨hc.1.column ▸ h.equality _ (by simp), hc.1.value⟩
  have hw : Copyable cs A (anchors.map Prod.snd) weight := by
    rw [Copyable, ← @List.map_snd_zip _ _ inputs weight (by omega), List.forall₂_map_left_iff,
      List.forall₂_map_right_iff]
    exact hanchors.flip.imp fun _ _ hc => ⟨hc.2.column ▸ h.equality _ (by simp), hc.2.value⟩
  refine (assignMeanSquare_complete hwf h hA hB hx).bind ?_
  rintro ⟨meanSq, meanCell⟩ hmean
  refine (assignRsqrt_complete hwf h hT hdomain hmean).bind ?_
  rintro ⟨rsqrtValue, rsqrtCell⟩ hv
  refine (assignScaled_complete hwf h hA hB hx hw ⟨hv.column ▸ h.rsqrt.equality.2, hv.value⟩).bind
    fun outs houts => .pure ⟨hx, hw, ?_⟩
  rw [CopyableShifted, List.forall₂_map_left_iff, List.forall₂_map_right_iff, List.forall₂_same]
  exact fun c hc => ⟨(houts c hc).column ▸ h.mul.equality _ (by simp), (houts c hc).value⟩

theorem assignMeanSquare_placed (h : config.Installed cs) (inputs : List I18) (xCells : List (AssignedCell Fr)) :
    Placed (config.assignMeanSquare (ε := ε) inputs xCells known) :=
  (Placed.forEach fun _ _ => linkedMul_placed h _ _ _ _ _ _).bind fun _ =>
    (ReduceMeanConfig.assign_placed h.reduceMean).bind fun _ =>
      (Placed.forEach fun _ _ => (unshift_placed h _ _).bind fun _ => Placed.linkCells).bind fun _ => .pure

theorem assignRsqrt_placed (h : config.Installed cs) (domain : Domain) (meanSq : I18) (meanCell : AssignedCell Fr) :
    Placed (config.assignRsqrt domain meanSq meanCell known) :=
  (EltwiseAddConfig.assignAddRow_placed h.add _ _ known).bind fun _ => Placed.linkCells.bind fun _ =>
    Placed.unwrap.bind fun vpe => (Placed.mapError (LookupConfig.assign_placed h.rsqrt vpe)).bind fun _ =>
      (unshift_placed h _ _).bind fun _ => (LookupConfig.lookupRegion_placed h.rsqrt _ _ _).bind fun _ =>
        Placed.linkCells.bind fun _ => .pure

theorem assignScaled_placed (h : config.Installed cs) (inputs weight : List I18)
    (xCells wCells : List (AssignedCell Fr)) (rsqrtValue : I18) (rsqrtCell : AssignedCell Fr) :
    Placed (config.assignScaled (ε := ε) inputs weight xCells wCells rsqrtValue rsqrtCell known) :=
  (Placed.forEach fun _ _ => linkedMul_placed h _ _ _ _ _ _).bind fun _ =>
    Placed.forEach fun _ _ => (unshift_placed h _ _).bind fun _ => linkedMul_placed h _ _ _ _ _ _

theorem assign_placed (h : config.Installed cs) (domain : Domain) (inputs weight : List I18) :
    Placed (config.assign domain inputs weight known) :=
  Placed.ensure.bind fun _ => Placed.ensure.bind fun _ => (Placed.forEach fun p _ =>
    Placed.of_row [config.xAnchor, config.weightAnchor] (anchorRegion_lays p.1 p.2) (fun _ => rfl)
      (by simpa using h.distinct.1) fun _ => by simp [IsInner]).bind fun _ => (assignMeanSquare_placed h _ _).bind fun _ =>
        (assignRsqrt_placed h _ _ _).bind fun _ => (assignScaled_placed h _ _ _ _ _ _).bind fun _ => .pure

theorem assignMeanSquare_decides (h : config.Installed cs) {inputs : List I18} {xCells : List (AssignedCell Fr)}
    (hlen : inputs.length = config.k) (hcells : xCells.length = config.k) :
    Decides (config.assignMeanSquare (ε := ε) inputs xCells known)
      (True ∧ (meanSquare config.reduceMean.reciprocal inputs).isSome)
      fun c => meanSquare config.reduceMean.reciprocal inputs = some c.1 := by
  have hzip := mapM_zip_fst (fun x => mulFloor x x) (hlen.trans hcells.symm).le
  refine Decides.iff (c := True ∧ ∃ squares, (inputs.zip xCells).mapM (fun p => mulFloor p.1 p.1) = some squares ∧
    squares.length = config.reduceMean.sum.k ∧ ∃ m, Reduce.reduceMean config.reduceMean.reciprocal squares = some m ∧
      True ∧ True) (P := fun c => meanSquare config.reduceMean.reciprocal inputs = some c.1) ?_ ?_ fun _ _ => id
  · refine Decides.bind_some (g := fun squares : List (I18 × AssignedCell Fr) => squares.map Prod.fst)
      (Decides.forEach_some fun p _ => linkedMul_decides h _ _ p.1 p.1 p.2 p.2) fun squares hsq => ?_
    refine Decides.bind_some (g := fun c : I18 × AssignedCell Fr × List (AssignedCell Fr) => c.1)
      (ReduceMeanConfig.assign_decides h.reduceMean) fun ⟨meanSq, meanCell, sumInputs⟩ hmean => ?_
    refine Decides.bind (P := fun _ => True) (Decides.forEach_always fun p _ => ?_) fun _ _ => .pure ?_
    · exact ((unshift_decides p.1.2 p.1.1).bind fun _ _ => Decides.linkCells).iff (by simp) fun _ _ => id
    · rw [meanSquare, ← hzip, hsq, Option.bind_eq_bind, Option.bind_some, hmean]
  · rw [meanSquare, ← hzip]
    cases hsq : (inputs.zip xCells).mapM fun p => mulFloor p.1 p.1 with
    | none => simp
    | some squares =>
        have hsquares : squares.length = config.reduceMean.sum.k := by
          rw [h.length, ← (Checked.mapM_eq_some.mp hsq).length_eq, List.length_zip, hlen, hcells, Nat.min_self]
        simp [hsquares, Option.isSome_iff_exists]

theorem assignRsqrt_decides (h : config.Installed cs) (domain : Domain) (meanSq : I18) (meanCell : AssignedCell Fr) :
    Decides (config.assignRsqrt domain meanSq meanCell known)
      (True ∧ ((checkedAdd meanSq config.epsilon).bind (value? domain)).isSome)
      fun c => (checkedAdd meanSq config.epsilon).bind (value? domain) = some c.1 := by
  refine Decides.iff (c := (checkedAdd meanSq config.epsilon).isSome ∧ True ∧
    ∃ vpe, checkedAdd meanSq config.epsilon = some vpe ∧ True ∧ ∃ v, value? domain vpe = some v ∧
      True ∧ True ∧ True ∧ True)
    (P := fun c => (checkedAdd meanSq config.epsilon).bind (value? domain) = some c.1) ?_ ?_ fun _ _ => id
  · refine (EltwiseAddConfig.assignAddRow_decides h.add meanSq config.epsilon known).bind fun cells _ => ?_
    refine Decides.linkCells.bind fun _ _ => Decides.unwrap_bind fun vpe hvpe => ?_
    refine Decides.bind_some (g := fun c : I18 × AssignedCell Fr => c.1)
      (Decides.mapError (LookupConfig.assign_decides vpe)) fun ⟨v, _⟩ hv => ?_
    refine (unshift_decides _ vpe).bind fun _ _ => (Decides.region (LookupConfig.lookupRegion_lays _ _ _)).bind
      fun _ _ => Decides.linkCells.bind fun _ _ => .pure ?_
    rw [hvpe, Option.bind_some, hv]
  · cases checkedAdd meanSq config.epsilon with
    | none => simp
    | some vpe => simp [Option.isSome_iff_exists]

theorem assignScaled_decides (h : config.Installed cs) {inputs weight : List I18}
    {xCells wCells : List (AssignedCell Fr)} (hlen : inputs.length = config.k) (hcells : xCells.length = config.k)
    (hwlen : weight.length = config.k) (hwcells : wCells.length = config.k) (v : I18) (rsqrtCell : AssignedCell Fr) :
    Decides (config.assignScaled (ε := ε) inputs weight xCells wCells v rsqrtCell known)
      (True ∧ (scaled v inputs weight).isSome) fun outs => scaled v inputs weight = some (outs.map Prod.fst) := by
  have hzip := mapM_zip_fst (fun x => mulFloor x v) (hlen.trans hcells.symm).le
  have hzip' : ∀ normed : List (I18 × AssignedCell Fr),
      ((normed.zip (weight.zip wCells)).mapM fun p => mulFloor p.1.1 p.2.1) =
        ((normed.map Prod.fst).zip weight).mapM fun p => mulFloor p.1 p.2 := fun normed => by
    conv_rhs => rw [← @List.map_fst_zip _ _ weight wCells (by omega), List.zip_map, List.mapM_map]
    rfl
  refine Decides.iff (c := True ∧ ∃ ns, (inputs.zip xCells).mapM (fun p => mulFloor p.1 v) = some ns ∧
    True ∧ ((ns.zip weight).mapM fun p => mulFloor p.1 p.2).isSome)
    (P := fun outs => scaled v inputs weight = some (outs.map Prod.fst)) ?_ ?_ fun _ _ => id
  · refine Decides.bind_some (g := fun normed : List (I18 × AssignedCell Fr) => normed.map Prod.fst)
      (Decides.forEach_some fun p _ => linkedMul_decides h _ _ p.1 v p.2 rsqrtCell) fun normed hnorm => ?_
    refine Decides.iff (Decides.forEach_some (v := fun p : (I18 × AssignedCell Fr) × I18 × AssignedCell Fr =>
      mulFloor p.1.1 p.2.1) (g := Prod.fst) fun ⟨⟨n, nCell⟩, w, wCell⟩ _ => ?_) ?_ fun _ outs houts => ?_
    · exact ((unshift_decides nCell n).bind fun out _ => linkedMul_decides h _ _ n w out wCell).iff
        (by simp) fun _ _ => id
    · rw [hzip']
    · rw [hzip'] at houts
      rw [scaled, ← hzip, hnorm, Option.bind_eq_bind, Option.bind_some, houts]
  · rw [scaled, ← hzip]
    cases (inputs.zip xCells).mapM fun p => mulFloor p.1 v <;> simp

theorem assign_decides (h : config.Installed cs) (domain : Domain) (inputs weight : List I18) :
    Decides (config.assign domain inputs weight known)
      ((inputs.length = config.k ∧ weight.length = config.k) ∧
        (rmsNorm config.reduceMean.reciprocal config.epsilon domain inputs weight).isSome)
      fun out => rmsNorm config.reduceMean.reciprocal config.epsilon domain inputs weight = some out.outputs := by
  refine Decides.iff (c := inputs.length = config.k ∧ weight.length = config.k ∧ True ∧ True ∧
    ∃ m, meanSquare config.reduceMean.reciprocal inputs = some m ∧ True ∧
      ∃ v, (checkedAdd m config.epsilon).bind (value? domain) = some v ∧ True ∧
        ∃ ys, scaled v inputs weight = some ys ∧ True)
    (P := fun out => rmsNorm config.reduceMean.reciprocal config.epsilon domain inputs weight = some out.outputs)
    ?_ ?_ fun _ _ => id
  · refine Decides.ensure.bind fun _ hlen => Decides.ensure.bind fun _ hwlen => ?_
    refine Decides.bind (P := fun anchors => anchors.length = config.k) ?_ fun anchors hanchors => ?_
    · refine (Decides.forEach (c := fun _ => True) (Q := fun _ _ => True) fun p _ =>
        Decides.region (anchorRegion_lays p.1 p.2)).iff (by simp) fun _ anchors hanchors => ?_
      rw [← hanchors.length_eq, List.length_zip, hlen, hwlen, Nat.min_self]
    have hx : (anchors.map Prod.fst).length = config.k := by rw [List.length_map, hanchors]
    have hw : (anchors.map Prod.snd).length = config.k := by rw [List.length_map, hanchors]
    refine Decides.bind_some (g := Prod.fst) (assignMeanSquare_decides h hlen hx) fun ⟨m, mCell⟩ hm => ?_
    refine Decides.bind_some (g := Prod.fst) (assignRsqrt_decides h domain m mCell) fun ⟨v, vCell⟩ hv => ?_
    refine Decides.bind_some (g := fun outs => outs.map Prod.fst)
      (assignScaled_decides h hlen hx hwlen hw v vCell) fun outs houts => .pure ?_
    rw [rmsNorm_eq_some]
    exact ⟨m, v, hm, hv, houts⟩
  · simp only [Option.isSome_iff_exists, rmsNorm_eq_some, true_and, and_true, and_assoc, and_congr_right_iff]
    intro _ _
    constructor
    · rintro ⟨m, hm, v, hv, ys, hys⟩
      exact ⟨ys, m, v, hm, hv, hys⟩
    · rintro ⟨ys, m, v, hm, hv, hys⟩
      exact ⟨m, hm, v, hv, ys, hys⟩

section Agreement

variable {b : I18} {d : RsqrtDomain} {inputs inputs' weight weight' : List I18}
  {xCells xCells' wCells wCells' : List (AssignedCell Fr)} {known' : Bool}

theorem assignMeanSquare_agree (h : config.Installed cs) (hlen : inputs.length = inputs'.length)
    (hx : SameCells xCells xCells') :
    Agree (config.assignMeanSquare (ε := ε) inputs xCells known)
      ((config.deviate b d).assignMeanSquare (ε := ε) inputs' xCells' known')
      fun c c' => c.2.cell = c'.2.cell := by
  refine Agree.bind (Agree.forEach (forall₂_zip_zip (forall₂_of_length hlen) hx)
    fun ⟨x, xCell⟩ ⟨x', xCell'⟩ hc => linkedMul_agree h hc.2 hc.2 x x' x x' known') fun squares squares' hsq => ?_
  refine (ReduceMeanConfig.assign_agree h.reduceMean (squares'.map Prod.fst) known').bind
    fun ⟨m, mCell, cells⟩ ⟨m', mCell', cells'⟩ ⟨hm, hcells⟩ => ?_
  refine Agree.bind (Agree.forEach (S := fun _ _ => True) (forall₂_zip_zip hsq hcells)
    fun ⟨⟨sq, sqCell⟩, inputCell⟩ ⟨⟨sq', sqCell'⟩, inputCell'⟩ hc => ?_) fun _ _ _ => .pure hm
  refine (unshift_agree hc.1 sq sq' known').bind fun out out' hout => Agree.linkCells ?_
  exact .cons ⟨hout, hc.2⟩ .nil

theorem assignRsqrt_agree (h : config.Installed cs) (domain domain' : Domain) (meanSq meanSq' : I18)
    {meanCell meanCell' : AssignedCell Fr} (hm : meanCell.cell = meanCell'.cell) :
    Agree (config.assignRsqrt domain meanSq meanCell known)
      ((config.deviate b d).assignRsqrt domain' meanSq' meanCell' known')
      fun c c' => c.2.cell = c'.2.cell := by
  refine (EltwiseAddConfig.assignAddRow_agree h.add meanSq meanSq' config.epsilon b known known').bind
    fun ⟨ca, cb, cc⟩ ⟨ca', cb', cc'⟩ ⟨ha, _, hc⟩ => ?_
  refine (Agree.linkCells ?_).bind fun _ _ _ => ?_
  · exact .cons ⟨ha, hm⟩ .nil
  refine (Agree.unwrap (R := fun _ _ => True) fun _ _ _ _ => trivial).bind fun vpe vpe' _ => ?_
  refine (Agree.mapError (LookupConfig.assign_agree domain' vpe vpe' known')).bind fun ⟨v, _⟩ ⟨v', _⟩ _ => ?_
  refine (unshift_agree hc vpe vpe' known').bind fun out out' hout => ?_
  refine (LookupConfig.lookupRegion_agree _ vpe vpe' v v' known').bind
    fun ⟨ci, co⟩ ⟨ci', co'⟩ ⟨hi, ho⟩ => ?_
  refine (Agree.linkCells ?_).bind fun _ _ _ => .pure ho
  exact .cons ⟨hi, hout⟩ .nil

theorem assignScaled_agree (h : config.Installed cs) (hlen : inputs.length = inputs'.length)
    (hwlen : weight.length = weight'.length) (hx : SameCells xCells xCells') (hw : SameCells wCells wCells')
    (v v' : I18) {rsqrtCell rsqrtCell' : AssignedCell Fr} (hv : rsqrtCell.cell = rsqrtCell'.cell) :
    Agree (config.assignScaled (ε := ε) inputs weight xCells wCells v rsqrtCell known)
      ((config.deviate b d).assignScaled (ε := ε) inputs' weight' xCells' wCells' v' rsqrtCell' known')
      fun outs outs' => SameCells (outs.map Prod.snd) (outs'.map Prod.snd) := by
  refine Agree.bind (Agree.forEach (forall₂_zip_zip (forall₂_of_length hlen) hx)
    fun ⟨x, xCell⟩ ⟨x', xCell'⟩ hc => linkedMul_agree h hc.2 hv x x' v v' known') fun normed normed' hnorm => ?_
  refine Agree.mono (Agree.forEach (S := fun c c' => c.2.cell = c'.2.cell)
    (forall₂_zip_zip hnorm (forall₂_zip_zip (forall₂_of_length hwlen) hw))
    fun ⟨⟨n, nCell⟩, w, wCell⟩ ⟨⟨n', nCell'⟩, w', wCell'⟩ hc => ?_) fun outs outs' houts => ?_
  · exact (unshift_agree hc.1 n n' known').bind fun out out' hout => linkedMul_agree h hout hc.2.2 n n' w w' known'
  · exact List.forall₂_map_left_iff.mpr (List.forall₂_map_right_iff.mpr houts)

theorem assign_agree (h : config.Installed cs) (domain domain' : Domain) :
    Agree (config.assign domain inputs weight known)
      ((config.deviate b d).assign domain' inputs' weight' known')
      fun out out' => SameCells out.inputCells out'.inputCells ∧ SameCells out.weightCells out'.weightCells ∧
        SameCells out.outputCells out'.outputCells ∧ out.outputs.length = out'.outputs.length := by
  refine Agree.ensure.bind fun _ _ hlen => Agree.ensure.bind fun _ _ hwlen => ?_
  have hlen' : inputs.length = inputs'.length := hlen.1.trans hlen.2.symm
  have hwlen' : weight.length = weight'.length := hwlen.1.trans hwlen.2.symm
  refine Agree.bind (Agree.forEach (S := fun c c' => c.1.cell = c'.1.cell ∧ c.2.cell = c'.2.cell)
    (forall₂_zip_zip (forall₂_of_length hlen') (forall₂_of_length hwlen')) fun p p' _ =>
      Agree.of_lays (anchorRegion_lays p.1 p.2) (anchorRegion_lays p'.1 p'.2) (fun _ => rfl) fun _ => ⟨rfl, rfl⟩)
    fun anchors anchors' hanchors => ?_
  have hx : SameCells (anchors.map Prod.fst) (anchors'.map Prod.fst) :=
    List.forall₂_map_left_iff.mpr (List.forall₂_map_right_iff.mpr (hanchors.imp fun _ _ hc => hc.1))
  have hw : SameCells (anchors.map Prod.snd) (anchors'.map Prod.snd) :=
    List.forall₂_map_left_iff.mpr (List.forall₂_map_right_iff.mpr (hanchors.imp fun _ _ hc => hc.2))
  refine (assignMeanSquare_agree h hlen' hx).bind fun ⟨m, mCell⟩ ⟨m', mCell'⟩ hm => ?_
  refine (assignRsqrt_agree h domain domain' m m' hm).bind fun ⟨v, vCell⟩ ⟨v', vCell'⟩ hv => ?_
  exact (assignScaled_agree h hlen' hwlen' hx hw v v' hv).bind fun outs outs' houts =>
    .pure ⟨hx, hw, houts, by simpa using houts.length_eq⟩

end Agreement

end RmsNormConfig

end Zkie.RmsNorm
