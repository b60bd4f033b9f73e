import Zkie.Rescale

namespace Zkie.Eltwise

open ScalarField FixedPoint Plonkish Synthesis Satisfaction HostRun Skeleton Placement RangeCheck Rescale

variable {ε : Type}

structure EltwiseAddConfig where
  a : Column
  b : Column
  c : Column
  sAdd : ℕ
  rangeA : RangeCheckConfig
  rangeB : RangeCheckConfig
  rangeC : RangeCheckConfig
  deriving DecidableEq, Repr

namespace EltwiseAddConfig

def addGate (a b c : Column) : List (Expression Fr) :=
  [.query a 0 + .query b 0 - .query c 0 - .constant (i128ToFr signedShift)]

def configure (a b c bits : Column) : Configure Fr EltwiseAddConfig := do
  enableEquality a
  enableEquality b
  enableEquality c
  let sAdd ← selector
  createGate "add (shifted)" sAdd (addGate a b c)
  let rangeA ← RangeCheckConfig.configure a bits 64
  let rangeB ← RangeCheckConfig.configure b bits 64
  let rangeC ← RangeCheckConfig.configure c bits 64
  return { a, b, c, sAdd, rangeA, rangeB, rangeC }

/-- The gate row of an addition, on shifted operands. -/
def addRegion (add : EltwiseAddConfig) (a b c : I18) (known : Bool) :
    Synth Fr ε (AssignedCell Fr × AssignedCell Fr × AssignedCell Fr) :=
  Synth.assignRegion "layer norm add row" fun region => do
    Synth.enable add.sAdd region 0
    let aCell ← Synth.assignAdvice region add.a 0 (witness known (i128ToFr (shiftedRaw a)))
    let bCell ← Synth.assignAdvice region add.b 0 (witness known (i128ToFr (shiftedRaw b)))
    let cCell ← Synth.assignAdvice region add.c 0 (witness known (i128ToFr (shiftedRaw c)))
    return (aCell, bCell, cCell)

def assignAddRow (add : EltwiseAddConfig) (a b : I18) (known : Bool) :
    Synth Fr ε (AssignedCell Fr × AssignedCell Fr × AssignedCell Fr) := do
  let c ← Synth.unwrap "I18 layer norm add overflow" (checkedAdd a b)
  let (aCell, bCell, cCell) ← add.addRegion a b c known
  let aRange ← add.rangeA.assign (witness known (i128ToFr (shiftedRaw a))) (witness known (shiftedRaw a))
  let bRange ← add.rangeB.assign (witness known (i128ToFr (shiftedRaw b))) (witness known (shiftedRaw b))
  let cRange ← add.rangeC.assign (witness known (i128ToFr (shiftedRaw c))) (witness known (shiftedRaw c))
  Synth.linkCells "layer norm add row range check links"
    [(aCell, aRange), (bCell, bRange), (cCell, cRange)]
  return (aCell, bCell, cCell)

structure Installed (add : EltwiseAddConfig) (cs : ConstraintSystem Fr) : Prop where
  gate : ⟨"add (shifted)", add.sAdd, addGate add.a add.b add.c⟩ ∈ cs.gates
  rangeA : add.rangeA.Installed cs
  rangeB : add.rangeB.Installed cs
  rangeC : add.rangeC.Installed cs
  values : add.rangeA.value = add.a ∧ add.rangeB.value = add.b ∧ add.rangeC.value = add.c
  widths : add.rangeA.nBits = 64 ∧ add.rangeB.nBits = 64 ∧ add.rangeC.nBits = 64
  equality : add.a ∈ cs.equality ∧ add.b ∈ cs.equality ∧ add.c ∈ cs.equality
  nodup : [add.a, add.b, add.c].Nodup

variable {add : EltwiseAddConfig} {cs cs' : ConstraintSystem Fr} {T : List ℕ → List Fr → Prop}
  {A : Assignment Fr}

theorem Installed.mono (h : add.Installed cs) (hle : cs.Extends cs') : add.Installed cs' where
  gate := hle.gates h.gate
  rangeA := h.rangeA.mono hle
  rangeB := h.rangeB.mono hle
  rangeC := h.rangeC.mono hle
  values := h.values
  widths := h.widths
  equality := ⟨hle.equality h.equality.1, hle.equality h.equality.2.1, hle.equality h.equality.2.2⟩
  nodup := h.nodup

theorem configure_adds (a b c bits : Column) (L : List (List ℕ × List Fr)) :
    Adds L (configure a b c bits) fun _ => L := by
  rintro cs config cs' h rfl
  cases h
  rfl

theorem configure_installed {a b c bits : Column} (hnd : [bits, a, b, c].Nodup) :
    Configures (configure a b c bits) cs fun add cs' => add.Installed cs' := by
  obtain ⟨hbits, habc⟩ := List.nodup_cons.mp hnd
  simp only [List.mem_cons, List.not_mem_nil, or_false, not_or] at hbits
  refine (Configures.enableEquality a).bind fun _ cs₁ _ ha => ?_
  refine (Configures.enableEquality b).bind fun _ cs₂ h₂ hb => ?_
  refine (Configures.enableEquality c).bind fun _ cs₃ h₃ hc => ?_
  refine Configures.gate _ _ fun cs₄ h₄ hgate => ?_
  refine (RangeCheckConfig.configure_installed hbits.1 (by norm_num) (by decide)).bind fun ra cs₅ h₅ hra => ?_
  refine (RangeCheckConfig.configure_installed hbits.2.1 (by norm_num) (by decide)).bind fun rb cs₆ h₆ hrb => ?_
  refine (RangeCheckConfig.configure_installed hbits.2.2 (by norm_num) (by decide)).bind fun rc cs₇ h₇ hrc => ?_
  refine Configures.pure
    { gate := h₇.gates (h₆.gates (h₅.gates hgate))
      rangeA := (hra.1.mono h₆).mono h₇
      rangeB := hrb.1.mono h₇
      rangeC := hrc.1
      values := ⟨hra.2.1, hrb.2.1, hrc.2.1⟩
      widths := ⟨hra.2.2, hrb.2.2, hrc.2.2⟩
      equality := ?_
      nodup := habc }
  have h₄₇ := ((h₄.trans h₅).trans h₆).trans h₇
  exact ⟨((h₂.trans h₃).trans h₄₇).equality ha, (h₃.trans h₄₇).equality hb, h₄₇.equality hc⟩

theorem addRegion_lays (a b c : I18) (known : Bool) :
    Lays (add.addRegion (ε := ε) a b c known)
      (fun r => (⟨⟨r, add.a, 0⟩, witness known (i128ToFr (shiftedRaw a))⟩,
        ⟨⟨r, add.b, 0⟩, witness known (i128ToFr (shiftedRaw b))⟩,
        ⟨⟨r, add.c, 0⟩, witness known (i128ToFr (shiftedRaw c))⟩))
      fun r => [.region "layer norm add row" r, .enable add.sAdd r 0,
        .advice ⟨r, add.a, 0⟩ (witness known (i128ToFr (shiftedRaw a))),
        .advice ⟨r, add.b, 0⟩ (witness known (i128ToFr (shiftedRaw b))),
        .advice ⟨r, add.c, 0⟩ (witness known (i128ToFr (shiftedRaw c)))] :=
  Emits.lays _ fun _ _ => rfl

/-- The gate in terms of the three cells of the row. -/
theorem holds_addGate (hwf : cs.WellFormed) (h : add.Installed cs) (r : ℕ) :
    Holds cs T A (.enable add.sAdd r 0) ↔
      A.cell ⟨r, add.a, 0⟩ + A.cell ⟨r, add.b, 0⟩ - A.cell ⟨r, add.c, 0⟩ - (signedShift : Fr) = 0 := by
  rw [holds_gate hwf h.gate]
  simp [addGate, Assignment.row]

theorem assignAddRow_sound (hwf : cs.WellFormed) (h : add.Installed cs) (a b : I18) (known : Bool) :
    Sound cs T A (add.assignAddRow (ε := ε) a b known) fun c =>
      ∃ x y z : I18, A.cell c.1.cell = (shiftedRaw x : Fr) ∧ A.cell c.2.1.cell = (shiftedRaw y : Fr) ∧
        A.cell c.2.2.cell = (shiftedRaw z : Fr) ∧ z.raw = x.raw + y.raw := by
  refine Triple.bind (.unwrap fun _ _ => trivial) fun c _ => ?_
  refine Triple.bind (Q := fun cells => A.cell cells.1.cell + A.cell cells.2.1.cell -
    A.cell cells.2.2.cell - (signedShift : Fr) = 0) ?_ fun ⟨ca, cb, cc⟩ hgate => ?_
  · refine .of_lays (addRegion_lays a b c known) fun r hr => ⟨fun _ _ => trivial, ?_⟩
    exact (holds_addGate hwf h r).mp (hr _ (by simp))
  refine (RangeCheckConfig.assign_sound hwf h.rangeA _ _).bind fun ra ⟨va, hva, hca⟩ => ?_
  refine (RangeCheckConfig.assign_sound hwf h.rangeB _ _).bind fun rb ⟨vb, hvb, hcb⟩ => ?_
  refine (RangeCheckConfig.assign_sound hwf h.rangeC _ _).bind fun rc ⟨vc, hvc, hcc⟩ => ?_
  refine Sound.linkCells.bind fun _ hlinks => .pure ?_
  simp only [List.forall_mem_cons, List.not_mem_nil, false_implies, implies_true, and_true] at hlinks
  rw [h.widths.1] at hva
  rw [h.widths.2.1] at hvb
  rw [h.widths.2.2] at hvc
  obtain ⟨x, hx⟩ := exists_of_shifted hva
  obtain ⟨y, hy⟩ := exists_of_shifted hvb
  obtain ⟨z, hz⟩ := exists_of_shifted hvc
  have hfa : A.cell ca.cell = (shiftedRaw x : Fr) := by rw [hlinks.1, hca, ← hx, Int.cast_natCast]
  have hfb : A.cell cb.cell = (shiftedRaw y : Fr) := by rw [hlinks.2.1, hcb, ← hy, Int.cast_natCast]
  have hfc : A.cell cc.cell = (shiftedRaw z : Fr) := by rw [hlinks.2.2, hcc, ← hz, Int.cast_natCast]
  refine ⟨x, y, z, hfa, hfb, hfc, ?_⟩
  have hxabs := abs_raw_le x
  have hyabs := abs_raw_le y
  have hzabs := abs_raw_le z
  refine intCast_inj (by omega) ((abs_add_le _ _).trans_lt (by omega)) ?_
  rw [hfa, hfb, hfc] at hgate
  simp only [shiftedRaw] at hgate
  push_cast at hgate ⊢
  linear_combination -hgate

theorem assignAddRow_complete (hwf : cs.WellFormed) (h : add.Installed cs) (a b : I18) :
    Complete cs T A (add.assignAddRow (ε := ε) a b true) fun c =>
      ∃ z : I18, checkedAdd a b = some z ∧ A.Has c.1 add.a (shiftedRaw a : Fr) ∧
        A.Has c.2.1 add.b (shiftedRaw b : Fr) ∧ A.Has c.2.2 add.c (shiftedRaw z : Fr) := by
  refine Triple.bind (.unwrap fun _ h => h) fun c hc => ?_
  have hsum := checkedAdd_eq_some.mp hc
  refine Triple.bind (Q := fun cells => A.Has cells.1 add.a (shiftedRaw a : Fr) ∧
    A.Has cells.2.1 add.b (shiftedRaw b : Fr) ∧ A.Has cells.2.2 add.c (shiftedRaw c : Fr)) ?_
    fun ⟨ca, cb, cc⟩ ⟨ha, hb, hc'⟩ => ?_
  · refine .of_lays (addRegion_lays a b c true) fun r hr => ?_
    simp only [List.forall_mem_cons, List.not_mem_nil, false_implies, implies_true, and_true,
      Witnessed, witness, if_true, i128ToFr_cast] at hr
    obtain ⟨-, -, ha, hb, hc'⟩ := hr
    refine ⟨?_, ⟨rfl, ha⟩, ⟨rfl, hb⟩, rfl, hc'⟩
    simp only [List.forall_mem_cons, List.not_mem_nil, false_implies, implies_true, and_true,
      holds_addGate hwf h, ha, hb, hc']
    refine ⟨trivial, ?_, trivial, trivial, trivial⟩
    simp only [shiftedRaw, hsum]
    push_cast
    ring
  obtain ⟨va, hva, hva64⟩ := shiftedRaw_range a
  obtain ⟨vb, hvb, hvb64⟩ := shiftedRaw_range b
  obtain ⟨vc, hvc, hvc64⟩ := shiftedRaw_range c
  refine (RangeCheckConfig.assign_complete hwf h.rangeA (by omega) (by rw [h.widths.1]; omega)).bind
    fun ra hra => ?_
  refine (RangeCheckConfig.assign_complete hwf h.rangeB (by omega) (by rw [h.widths.2.1]; omega)).bind
    fun rb hrb => ?_
  refine (RangeCheckConfig.assign_complete hwf h.rangeC (by omega) (by rw [h.widths.2.2]; omega)).bind
    fun rc hrc => ?_
  rw [h.values.1] at hra
  rw [h.values.2.1] at hrb
  rw [h.values.2.2] at hrc
  obtain ⟨hea, heb, hec⟩ := h.equality
  refine (Complete.linkCells ?_).bind fun _ _ => .pure ⟨c, hc, ha, hb, hc'⟩
  simp only [List.forall_mem_cons, List.not_mem_nil, false_implies, implies_true, and_true]
  exact ⟨ha.link hra hea hea, hb.link hrb heb heb, hc'.link hrc hec hec⟩

theorem assignAddRow_placed (h : add.Installed cs) (a b : I18) (known : Bool) :
    Placed (add.assignAddRow (ε := ε) a b known) := by
  refine Placed.unwrap.bind fun c => Placed.bind ?_ fun cells =>
    (RangeCheckConfig.assign_placed h.rangeA _ _).bind fun _ =>
      (RangeCheckConfig.assign_placed h.rangeB _ _).bind fun _ =>
        (RangeCheckConfig.assign_placed h.rangeC _ _).bind fun _ => Placed.linkCells.bind fun _ => .pure
  exact .of_row _ (addRegion_lays a b c known) (fun r => rfl) h.nodup fun r => by simp [IsInner]

theorem assignAddRow_decides (h : add.Installed cs) (a b : I18) (known : Bool) :
    Decides (add.assignAddRow (ε := ε) a b known) (checkedAdd a b).isSome fun _ => True := by
  refine ((Decides.unwrap (P := fun _ => True) fun _ _ => trivial).bind fun c _ =>
    (Decides.region (addRegion_lays a b c known)).bind fun _ _ =>
      (RangeCheckConfig.assign_decides h.rangeA _ _).bind fun _ _ =>
        (RangeCheckConfig.assign_decides h.rangeB _ _).bind fun _ _ =>
          (RangeCheckConfig.assign_decides h.rangeC _ _).bind fun _ _ =>
            Decides.linkCells.bind fun _ _ => .pure trivial).iff (by simp) fun _ _ => id

theorem assignAddRow_agree (h : add.Installed cs) (a a' b b' : I18) (known known' : Bool) :
    Agree (add.assignAddRow (ε := ε) a b known) (add.assignAddRow (ε := ε) a' b' known') fun c c' =>
      c.1.cell = c'.1.cell ∧ c.2.1.cell = c'.2.1.cell ∧ c.2.2.cell = c'.2.2.cell := by
  refine (Agree.unwrap (R := fun _ _ => True) fun _ _ _ _ => trivial).bind fun c c' _ => ?_
  refine (Agree.of_lays (addRegion_lays a b c known) (addRegion_lays a' b' c' known')
    (R := fun c c' => c.1.cell = c'.1.cell ∧ c.2.1.cell = c'.2.1.cell ∧ c.2.2.cell = c'.2.2.cell)
    (fun r => rfl) fun r => ⟨rfl, rfl, rfl⟩).bind fun cells cells' hcells => ?_
  refine (RangeCheckConfig.assign_agree h.rangeA _ _ _ _).bind fun ra ra' hra => ?_
  refine (RangeCheckConfig.assign_agree h.rangeB _ _ _ _).bind fun rb rb' hrb => ?_
  refine (RangeCheckConfig.assign_agree h.rangeC _ _ _ _).bind fun rc rc' hrc => ?_
  refine (Agree.linkCells ?_).bind fun _ _ _ => .pure hcells
  exact .cons ⟨hcells.1, hra⟩ (.cons ⟨hcells.2.1, hrb⟩ (.cons ⟨hcells.2.2, hrc⟩ .nil))

end EltwiseAddConfig

structure EltwiseMulConfig where
  a : Column
  b : Column
  q : Column
  r : Column
  slack : Column
  sMul : ℕ
  sSlack : ℕ
  rangeQ : RangeCheckConfig
  rangeR : RangeCheckConfig
  rangeRSlack : RangeCheckConfig
  aShift : Column
  bShift : Column
  sShift : ℕ
  rangeA : LookupRangeCheckConfig
  rangeB : LookupRangeCheckConfig
  deriving DecidableEq, Repr

namespace EltwiseMulConfig

def mulGate (a b q r : Column) : List (Expression Fr) :=
  [rescaleConstraint (.query a 0 * .query b 0) q r]

def configure (a b q r slack bits : Column) : Configure Fr EltwiseMulConfig := do
  enableEquality a
  enableEquality b
  enableEquality q
  enableEquality r
  enableEquality slack
  let sMul ← selector
  createGate "mul rescale (shifted q)" sMul (mulGate a b q r)
  let sSlack ← selector
  createGate "slack equals bound minus remainder" sSlack [slackConstraint r slack]
  let aShift ← adviceColumn
  let bShift ← adviceColumn
  enableEquality aShift
  enableEquality bShift
  let sShift ← selector
  createGate "mul operand shift" sShift (shiftConstraints a b aShift bShift)
  let rangeA ← LookupRangeCheckConfig.configure aShift bits 64
  let rangeB ← LookupRangeCheckConfig.configure bShift bits 64
  let rangeQ ← RangeCheckConfig.configure q bits 64
  let rangeR ← RangeCheckConfig.configure r bits remainderBits
  let rangeRSlack ← RangeCheckConfig.configure slack bits remainderBits
  return { a, b, q, r, slack, sMul, sSlack, rangeQ, rangeR, rangeRSlack, aShift, bShift, sShift,
           rangeA, rangeB }

/-- The two byte tables, one for each operand. -/
def loadMulOperandRangeTable (mul : EltwiseMulConfig) : Synth Fr ε Unit := do
  mul.rangeA.loadTable
  mul.rangeB.loadTable

structure RowCells where
  a : AssignedCell Fr
  b : AssignedCell Fr
  q : AssignedCell Fr
  r : AssignedCell Fr
  slack : AssignedCell Fr
  aShift : AssignedCell Fr
  bShift : AssignedCell Fr

def assignMulOperandShifts (mul : EltwiseMulConfig) (region offset : ℕ) (a b : I18) (known : Bool) :
    Synth Fr ε (AssignedCell Fr × AssignedCell Fr) := do
  Synth.enable mul.sShift region offset
  let aCell ← Synth.assignAdvice region mul.aShift offset (witness known (i128ToFr (shiftedRaw a)))
  let bCell ← Synth.assignAdvice region mul.bShift offset (witness known (i128ToFr (shiftedRaw b)))
  return (aCell, bCell)

/-- The gate row of a multiplication with quotient `q` and remainder `r`. -/
def mulRegion (mul : EltwiseMulConfig) (a b q : I18) (r : ℤ) (known : Bool) : Synth Fr ε RowCells :=
  Synth.assignRegion "layer norm mul row" fun region => do
    Synth.enable mul.sMul region 0
    Synth.enable mul.sSlack region 0
    let aCell ← Synth.assignAdvice region mul.a 0 (witness known (i64ToFr a))
    let bCell ← Synth.assignAdvice region mul.b 0 (witness known (i64ToFr b))
    let qCell ← Synth.assignAdvice region mul.q 0 (witness known (i128ToFr (shiftedRaw q)))
    let rCell ← Synth.assignAdvice region mul.r 0 (witness known (i128ToFr r))
    let slackCell ← Synth.assignAdvice region mul.slack 0 (witness known (i128ToFr (scale18 - 1 - r)))
    let (aShift, bShift) ← mul.assignMulOperandShifts region 0 a b known
    return ⟨aCell, bCell, qCell, rCell, slackCell, aShift, bShift⟩

def linkMulOperandRanges (mul : EltwiseMulConfig) (a b : I18) (aShift bShift : AssignedCell Fr)
    (known : Bool) : Synth Fr ε Unit := do
  let aRange ← mul.rangeA.assign (witness known (i128ToFr (shiftedRaw a))) (witness known (shiftedRaw a))
  let bRange ← mul.rangeB.assign (witness known (i128ToFr (shiftedRaw b))) (witness known (shiftedRaw b))
  Synth.linkCells "mul operand range check links" [(aShift, aRange), (bShift, bRange)]

def assignMulRow (mul : EltwiseMulConfig) (a b : I18) (known : Bool) :
    Synth Fr ε (AssignedCell Fr × AssignedCell Fr × AssignedCell Fr) := do
  let (q, r) ← Synth.unwrap "I18 layer norm mul overflow" (requantizeMul a b).toOption
  let row ← mul.mulRegion a b q r known
  mul.linkMulOperandRanges a b row.aShift row.bShift known
  let (qRange, rRange, slackRange) ←
    assignQuotientRanges mul.rangeQ mul.rangeR mul.rangeRSlack q r known
  Synth.linkCells "layer norm mul row range check links"
    [(row.q, qRange), (row.r, rRange), (row.slack, slackRange)]
  return (row.a, row.b, row.q)

structure Installed (mul : EltwiseMulConfig) (cs : ConstraintSystem Fr) : Prop where
  rescale : ⟨"mul rescale (shifted q)", mul.sMul, mulGate mul.a mul.b mul.q mul.r⟩ ∈ cs.gates
  slackGate : ⟨"slack equals bound minus remainder", mul.sSlack, [slackConstraint mul.r mul.slack]⟩ ∈ cs.gates
  quotient : QuotientInstalled mul.rangeQ mul.rangeR mul.rangeRSlack mul.q mul.r mul.slack cs
  operands : OperandInstalled "mul operand shift" mul.sShift mul.a mul.b mul.aShift mul.bShift
    mul.rangeA mul.rangeB cs
  equality : ∀ c ∈ [mul.a, mul.b, mul.q, mul.r, mul.slack], c ∈ cs.equality
  nodup : [mul.a, mul.b, mul.q, mul.r, mul.slack, mul.aShift, mul.bShift].Nodup

variable {mul : EltwiseMulConfig} {cs cs' : ConstraintSystem Fr} {T : List ℕ → List Fr → Prop}
  {A : Assignment Fr}

theorem Installed.mono (h : mul.Installed cs) (hle : cs.Extends cs') : mul.Installed cs' where
  rescale := hle.gates h.rescale
  slackGate := hle.gates h.slackGate
  quotient := h.quotient.mono hle
  operands := h.operands.mono hle
  equality c hc := hle.equality (h.equality c hc)
  nodup := h.nodup

theorem configure_adds (a b q r slack bits : Column) (L : List (List ℕ × List Fr)) :
    Adds L (configure a b q r slack bits) fun mul => L ++ [mul.rangeA.idle, mul.rangeB.idle] := by
  rintro cs config cs' h rfl
  cases h
  simp [Lookup.idle, LookupRangeCheckConfig.limbInput, LookupRangeCheckConfig.idle]

theorem configure_installed {a b q r slack bits : Column} (hnd : [bits, a, b, q, r, slack].Nodup)
    (halloc : ∀ c ∈ [bits, a, b, q, r, slack], cs.Allocated c) :
    Configures (configure a b q r slack bits) cs fun mul cs' => mul.Installed cs' ∧
      mul.a = a ∧ mul.b = b ∧ mul.q = q := by
  obtain ⟨hbits, habc⟩ := List.nodup_cons.mp hnd
  simp only [List.mem_cons, List.not_mem_nil, or_false, not_or] at hbits
  refine (Configures.enableEquality a).bind fun _ cs₁ h₁ ha => ?_
  refine (Configures.enableEquality b).bind fun _ cs₂ h₂ hb => ?_
  refine (Configures.enableEquality q).bind fun _ cs₃ h₃ hq => ?_
  refine (Configures.enableEquality r).bind fun _ cs₄ h₄ hr => ?_
  refine (Configures.enableEquality slack).bind fun _ cs₅ h₅ hs => ?_
  refine Configures.gate _ _ fun cs₆ h₆ hmul => ?_
  refine Configures.gate _ _ fun cs₇ h₇ hslack => ?_
  have hle₇ := (((((h₁.trans h₂).trans h₃).trans h₄).trans h₅).trans h₆).trans h₇
  refine Configures.adviceColumn.bind fun aShift cs₈ h₈ ⟨haAlloc, haNew⟩ => ?_
  refine Configures.adviceColumn.bind fun bShift cs₉ h₉ ⟨_, hbNew⟩ => ?_
  have hneA : ∀ c ∈ [bits, a, b, q, r, slack], c ≠ aShift := fun c hc =>
    haNew c ((halloc c hc).mono hle₇)
  have hneB : ∀ c ∈ [bits, a, b, q, r, slack], c ≠ bShift := fun c hc =>
    hbNew c ((halloc c hc).mono (hle₇.trans h₈))
  refine (Configures.enableEquality aShift).bind fun _ cs₁₀ h₁₀ haEq => ?_
  refine (Configures.enableEquality bShift).bind fun _ cs₁₁ h₁₁ hbEq => ?_
  refine Configures.gate _ _ fun cs₁₂ h₁₂ hshift => ?_
  refine (LookupRangeCheckConfig.configure_installed (hneA bits (by simp)) (by decide)).bind fun ra cs₁₃ h₁₃ hra => ?_
  refine (LookupRangeCheckConfig.configure_installed (hneB bits (by simp)) (by decide)).bind fun rb cs₁₄ h₁₄ hrb => ?_
  refine (RangeCheckConfig.configure_installed hbits.2.2.1 (by norm_num) (by decide)).bind fun rq cs₁₅ h₁₅ hrq => ?_
  refine (RangeCheckConfig.configure_installed hbits.2.2.2.1 (by norm_num [remainderBits]) (by decide)).bind
    fun rr cs₁₆ h₁₆ hrr => ?_
  refine (RangeCheckConfig.configure_installed hbits.2.2.2.2 (by norm_num [remainderBits]) (by decide)).bind
    fun rs cs₁₇ h₁₇ hrs => ?_
  have t₁₅ := h₁₆.trans h₁₇
  have t₁₄ := h₁₅.trans t₁₅
  have t₁₃ := h₁₄.trans t₁₄
  have t₁₂ := h₁₃.trans t₁₃
  have t₁₁ := h₁₂.trans t₁₂
  have t₇ := ((h₈.trans h₉).trans (h₁₀.trans h₁₁)).trans t₁₁
  have t₅ := h₆.trans (h₇.trans t₇)
  refine Configures.pure ⟨⟨(h₇.trans t₇).gates hmul, t₇.gates hslack, ?_, ?_, ?_, ?_⟩, rfl, rfl, rfl⟩
  · exact ⟨⟨hrq.2.1, hrr.2.1, hrs.2.1⟩, ⟨hrq.2.2, hrr.2.2, hrs.2.2⟩, hrq.1.mono t₁₅, hrr.1.mono h₁₇, hrs.1⟩
  · exact ⟨t₁₂.gates hshift, hra.1.mono t₁₃, hrb.1.mono t₁₄, ⟨hra.2.1, hrb.2.1⟩, ⟨hra.2.2, hrb.2.2⟩,
      (h₁₁.trans t₁₁).equality haEq, t₁₁.equality hbEq⟩
  · simp only [List.forall_mem_cons, List.not_mem_nil, false_implies, implies_true, and_true]
    exact ⟨(((h₂.trans h₃).trans (h₄.trans h₅)).trans t₅).equality ha,
      (h₃.trans ((h₄.trans h₅).trans t₅)).equality hb, ((h₄.trans h₅).trans t₅).equality hq,
      (h₅.trans t₅).equality hr, t₅.equality hs⟩
  · have hab : aShift ≠ bShift := hbNew aShift haAlloc
    simp only [List.forall_mem_cons, List.not_mem_nil, false_implies, implies_true, and_true] at hneA hneB
    simp only [List.nodup_cons, List.mem_cons, List.not_mem_nil, or_false, not_or, not_false_eq_true,
      List.nodup_nil, and_true] at habc ⊢
    tauto

theorem mulRegion_lays (a b q : I18) (r : ℤ) (known : Bool) :
    Lays (mul.mulRegion (ε := ε) a b q r known)
      (fun n => ⟨⟨⟨n, mul.a, 0⟩, witness known (i64ToFr a)⟩, ⟨⟨n, mul.b, 0⟩, witness known (i64ToFr b)⟩,
        ⟨⟨n, mul.q, 0⟩, witness known (i128ToFr (shiftedRaw q))⟩,
        ⟨⟨n, mul.r, 0⟩, witness known (i128ToFr r)⟩,
        ⟨⟨n, mul.slack, 0⟩, witness known (i128ToFr (scale18 - 1 - r))⟩,
        ⟨⟨n, mul.aShift, 0⟩, witness known (i128ToFr (shiftedRaw a))⟩,
        ⟨⟨n, mul.bShift, 0⟩, witness known (i128ToFr (shiftedRaw b))⟩⟩)
      fun n => [.region "layer norm mul row" n, .enable mul.sMul n 0, .enable mul.sSlack n 0,
        .advice ⟨n, mul.a, 0⟩ (witness known (i64ToFr a)),
        .advice ⟨n, mul.b, 0⟩ (witness known (i64ToFr b)),
        .advice ⟨n, mul.q, 0⟩ (witness known (i128ToFr (shiftedRaw q))),
        .advice ⟨n, mul.r, 0⟩ (witness known (i128ToFr r)),
        .advice ⟨n, mul.slack, 0⟩ (witness known (i128ToFr (scale18 - 1 - r))),
        .enable mul.sShift n 0,
        .advice ⟨n, mul.aShift, 0⟩ (witness known (i128ToFr (shiftedRaw a))),
        .advice ⟨n, mul.bShift, 0⟩ (witness known (i128ToFr (shiftedRaw b)))] :=
  Emits.lays _ fun _ _ => rfl

theorem holds_mulGate (hwf : cs.WellFormed) (h : mul.Installed cs) (r : ℕ) :
    Holds cs T A (.enable mul.sMul r 0) ↔
      A.cell ⟨r, mul.a, 0⟩ * A.cell ⟨r, mul.b, 0⟩ - (A.cell ⟨r, mul.q, 0⟩ * i128ToFr scale18 -
        i128ToFr (signedShift * scale18)) - A.cell ⟨r, mul.r, 0⟩ = 0 := by
  rw [holds_gate hwf h.rescale]
  simp [mulGate, rescaleConstraint, Assignment.row]

theorem holds_slackGate (hwf : cs.WellFormed) (h : mul.Installed cs) (r : ℕ) :
    Holds cs T A (.enable mul.sSlack r 0) ↔
      A.cell ⟨r, mul.slack, 0⟩ + A.cell ⟨r, mul.r, 0⟩ - i128ToFr (scale18 - 1) = 0 := by
  rw [holds_gate hwf h.slackGate]
  simp [slackConstraint, Assignment.row]

theorem linkMulOperandRanges_sound (hwf : cs.WellFormed) (h : mul.Installed cs)
    (hT : LookupRangeCheckConfig.OnlyBytes T) (a b : I18) (aShift bShift : AssignedCell Fr) (known : Bool) :
    Sound cs T A (mul.linkMulOperandRanges (ε := ε) a b aShift bShift known) fun _ =>
      (∃ n < 2 ^ 64, A.cell aShift.cell = (n : ℕ)) ∧ ∃ n < 2 ^ 64, A.cell bShift.cell = (n : ℕ) := by
  obtain ⟨hwa, hwb⟩ := h.operands.widths
  refine (LookupRangeCheckConfig.assign_sound hwf h.operands.onA hT _ _).bind fun ra hra => ?_
  refine (LookupRangeCheckConfig.assign_sound hwf h.operands.onB hT _ _).bind fun rb hrb => ?_
  refine Sound.linkCells.mono fun _ hlinks => ?_
  simp only [List.forall_mem_cons, List.not_mem_nil, false_implies, implies_true, and_true] at hlinks
  rw [hwa, ← hlinks.1] at hra
  rw [hwb, ← hlinks.2] at hrb
  exact ⟨hra, hrb⟩

theorem assignMulRow_sound (hwf : cs.WellFormed) (h : mul.Installed cs)
    (hT : LookupRangeCheckConfig.OnlyBytes T) (a b : I18) (known : Bool) :
    Sound cs T A (mul.assignMulRow (ε := ε) a b known) fun c =>
      ∃ x y z : I18, A.cell c.1.cell = (x.raw : Fr) ∧ A.cell c.2.1.cell = (y.raw : Fr) ∧
        A.cell c.2.2.cell = (shiftedRaw z : Fr) ∧ z.raw = x.raw * y.raw / scale18 := by
  refine Triple.bind (.unwrap (Q := fun _ => True) fun _ _ => trivial) fun ⟨q, r⟩ _ => ?_
  refine Triple.bind (Q := fun row =>
    (A.cell row.a.cell * A.cell row.b.cell - (A.cell row.q.cell * i128ToFr scale18 -
      i128ToFr (signedShift * scale18)) - A.cell row.r.cell = 0) ∧
    (A.cell row.slack.cell + A.cell row.r.cell - i128ToFr (scale18 - 1) = 0) ∧
    (A.cell row.aShift.cell - A.cell row.a.cell - i128ToFr signedShift = 0) ∧
    A.cell row.bShift.cell - A.cell row.b.cell - i128ToFr signedShift = 0) ?_
    fun row ⟨hrescale, hslack, hsa, hsb⟩ => ?_
  · refine .of_lays (mulRegion_lays a b q r known) fun n hn => ⟨fun _ _ => trivial, ?_⟩
    exact ⟨(holds_mulGate hwf h n).mp (hn _ (by simp)), (holds_slackGate hwf h n).mp (hn _ (by simp)),
      (h.operands.holds_shift hwf n 0).mp (hn _ (by simp))⟩
  refine (linkMulOperandRanges_sound hwf h hT a b _ _ known).bind fun _ ⟨hna, hnb⟩ => ?_
  refine (assignQuotientRanges_sound hwf h.quotient q r known).bind fun ⟨qr, rr, sr⟩ ⟨hq, hr, hs⟩ => ?_
  refine Sound.linkCells.bind fun _ hlinks => .pure ?_
  simp only [List.forall_mem_cons, List.not_mem_nil, false_implies, implies_true, and_true] at hlinks
  obtain ⟨hlq, hlr, hls⟩ := hlinks
  obtain ⟨x, hx⟩ := exists_operand hna rfl hsa
  obtain ⟨y, hy⟩ := exists_operand hnb rfl hsb
  obtain ⟨z, hz⟩ := hq
  obtain ⟨vr, hvr, hr⟩ := hr
  obtain ⟨vs, hvs, hs⟩ := hs
  refine ⟨x, y, z, hx, hy, hlq.trans hz, ?_⟩
  rw [hx, hy, ← Int.cast_mul] at hrescale
  refine rescale_sound ?_ (hlq.trans hz) (hlr.trans hr) hvr (hls.trans hs) hvs hrescale hslack
  calc |x.raw * y.raw| = |x.raw| * |y.raw| := abs_mul _ _
    _ ≤ 2 ^ 63 * 2 ^ 63 := mul_le_mul (abs_raw_le x) (abs_raw_le y) (abs_nonneg _) (by norm_num)
    _ < 2 ^ 200 := by norm_num

theorem linkMulOperandRanges_complete (hwf : cs.WellFormed) (h : mul.Installed cs)
    (hA : mul.rangeA.BytesLoaded T) (hB : mul.rangeB.BytesLoaded T) (a b : I18)
    {aShift bShift : AssignedCell Fr} (ha : A.Has aShift mul.aShift (shiftedRaw a : Fr))
    (hb : A.Has bShift mul.bShift (shiftedRaw b : Fr)) :
    Complete cs T A (mul.linkMulOperandRanges (ε := ε) a b aShift bShift true) fun _ => True := by
  obtain ⟨hwa, hwb⟩ := h.operands.widths
  obtain ⟨va, hva, hva64⟩ := shiftedRaw_range a
  obtain ⟨vb, hvb, hvb64⟩ := shiftedRaw_range b
  refine (LookupRangeCheckConfig.assign_complete hwf h.operands.onA hA (by omega)
    (by rw [hwa]; omega)).bind fun ra hra => ?_
  refine (LookupRangeCheckConfig.assign_complete hwf h.operands.onB hB (by omega)
    (by rw [hwb]; omega)).bind fun rb hrb => ?_
  rw [h.operands.values.1] at hra
  rw [h.operands.values.2] at hrb
  obtain ⟨hea, heb⟩ := h.operands.equality
  refine Complete.linkCells ?_
  simp only [List.forall_mem_cons, List.not_mem_nil, false_implies, implies_true, and_true]
  exact ⟨ha.link hra hea hea, hb.link hrb heb heb⟩

theorem assignMulRow_complete (hwf : cs.WellFormed) (h : mul.Installed cs)
    (hA : mul.rangeA.BytesLoaded T) (hB : mul.rangeB.BytesLoaded T) (a b : I18) :
    Complete cs T A (mul.assignMulRow (ε := ε) a b true) fun c =>
      ∃ z : I18, z.raw = a.raw * b.raw / scale18 ∧ A.Has c.1 mul.a (a.raw : Fr) ∧
        A.Has c.2.1 mul.b (b.raw : Fr) ∧ A.Has c.2.2 mul.q (shiftedRaw z : Fr) := by
  refine Triple.bind (.unwrap fun _ hqr => requantizeMul_eq_ok.mp (toOption_eq_some.mp hqr)) ?_
  rintro ⟨q, r⟩ ⟨hq, hr⟩
  obtain ⟨-, hr0, hrlt⟩ := rescale_spec (a.raw * b.raw)
  rw [← hr] at hr0 hrlt
  refine Triple.bind (Q := fun row => A.Has row.a mul.a (a.raw : Fr) ∧ A.Has row.b mul.b (b.raw : Fr) ∧
    A.Has row.q mul.q (shiftedRaw q : Fr) ∧ A.Has row.r mul.r (r : Fr) ∧
    A.Has row.slack mul.slack ((scale18 - 1 - r : ℤ) : Fr) ∧
    A.Has row.aShift mul.aShift (shiftedRaw a : Fr) ∧ A.Has row.bShift mul.bShift (shiftedRaw b : Fr)) ?_
    fun row hrow => ?_
  · refine .of_lays (mulRegion_lays a b q r true) fun n hn => ?_
    simp only [List.forall_mem_cons, List.not_mem_nil, false_implies, implies_true, and_true,
      Witnessed, witness, if_true, i128ToFr_cast, i64ToFr_cast, true_and] at hn
    obtain ⟨ha, hb, hq', hr', hs, has, hbs⟩ := hn
    refine ⟨?_, ⟨rfl, ha⟩, ⟨rfl, hb⟩, ⟨rfl, hq'⟩, ⟨rfl, hr'⟩, ⟨rfl, hs⟩, ⟨rfl, has⟩, rfl, hbs⟩
    simp only [List.forall_mem_cons, List.not_mem_nil, false_implies, implies_true, and_true,
      holds_mulGate hwf h, holds_slackGate hwf h, h.operands.holds_shift hwf, ha, hb, hq', hr', hs, has,
      hbs, ← Int.cast_mul]
    have hrescale := rescale_zero hq
    rw [← hr] at hrescale
    exact ⟨trivial, hrescale, slack_zero r, trivial, trivial, trivial, trivial, trivial,
      ⟨shift_zero a, shift_zero b⟩, trivial, trivial⟩
  obtain ⟨hca, hcb, hcq, hcr, hcs, hcas, hcbs⟩ := hrow
  refine (linkMulOperandRanges_complete hwf h hA hB a b hcas hcbs).bind fun _ _ => ?_
  refine (assignQuotientRanges_complete hwf h.quotient q hr0 hrlt).bind ?_
  rintro ⟨qr, rr, sr⟩ ⟨hqr, hrr, hsr⟩
  have heq := h.equality
  simp only [List.forall_mem_cons, List.not_mem_nil, false_implies, implies_true, and_true] at heq
  obtain ⟨-, -, heq, her, hes⟩ := heq
  refine (Complete.linkCells ?_).bind fun _ _ => .pure ⟨q, hq, hca, hcb, hcq⟩
  simp only [List.forall_mem_cons, List.not_mem_nil, false_implies, implies_true, and_true]
  exact ⟨hcq.link hqr heq heq, hcr.link hrr her her, hcs.link hsr hes hes⟩

theorem assignMulRow_placed (h : mul.Installed cs) (a b : I18) (known : Bool) :
    Placed (mul.assignMulRow (ε := ε) a b known) := by
  refine Placed.unwrap.bind fun ⟨q, r⟩ => Placed.bind ?_ fun row => Placed.bind ?_ fun _ =>
    (assignQuotientRanges_placed h.quotient q r known).bind fun _ => Placed.linkCells.bind fun _ => .pure
  · exact .of_row _ (mulRegion_lays a b q r known) (fun _ => rfl) h.nodup fun _ => by simp [IsInner]
  · exact (LookupRangeCheckConfig.assign_placed h.operands.onA _ _).bind fun _ =>
      (LookupRangeCheckConfig.assign_placed h.operands.onB _ _).bind fun _ => Placed.linkCells

theorem assignMulRow_decides (h : mul.Installed cs) (a b : I18) (known : Bool) :
    Decides (mul.assignMulRow (ε := ε) a b known) (requantizeMul a b).toOption.isSome fun _ => True := by
  refine ((Decides.unwrap (P := fun _ => True) fun _ _ => trivial).bind fun ⟨q, r⟩ _ =>
    (Decides.region (mulRegion_lays a b q r known)).bind fun row _ =>
      Decides.bind (P := fun _ => True) ?_ fun _ _ =>
        (assignQuotientRanges_decides h.quotient q r known).bind fun _ _ =>
          Decides.linkCells.bind fun _ _ => .pure trivial).iff (c := _ ∧ True ∧ (True ∧ True ∧ True) ∧ True ∧
            True ∧ True) (by simp) fun _ _ => id
  exact (LookupRangeCheckConfig.assign_decides h.operands.onA _ _).bind fun _ _ =>
    (LookupRangeCheckConfig.assign_decides h.operands.onB _ _).bind fun _ _ => Decides.linkCells

theorem assignMulRow_agree (h : mul.Installed cs) (a a' b b' : I18) (known known' : Bool) :
    Agree (mul.assignMulRow (ε := ε) a b known) (mul.assignMulRow (ε := ε) a' b' known') fun c c' =>
      c.1.cell = c'.1.cell ∧ c.2.1.cell = c'.2.1.cell ∧ c.2.2.cell = c'.2.2.cell := by
  refine (Agree.unwrap (R := fun _ _ => True) fun _ _ _ _ => trivial).bind fun ⟨q, r⟩ ⟨q', r'⟩ _ => ?_
  refine (Agree.of_lays (mulRegion_lays a b q r known) (mulRegion_lays a' b' q' r' known')
    (R := fun c c' => c.a.cell = c'.a.cell ∧ c.b.cell = c'.b.cell ∧ c.q.cell = c'.q.cell ∧
      c.r.cell = c'.r.cell ∧ c.slack.cell = c'.slack.cell ∧ c.aShift.cell = c'.aShift.cell ∧
      c.bShift.cell = c'.bShift.cell)
    (fun n => rfl) fun n => ⟨rfl, rfl, rfl, rfl, rfl, rfl, rfl⟩).bind
    fun row row' ⟨hca, hcb, hcq, hcr, hcs, hcas, hcbs⟩ => ?_
  refine Agree.bind (R := fun _ _ => True) ?_ fun _ _ _ => ?_
  · refine (LookupRangeCheckConfig.assign_agree h.operands.onA _ _ _ _).bind fun ra ra' hra => ?_
    refine (LookupRangeCheckConfig.assign_agree h.operands.onB _ _ _ _).bind fun rb rb' hrb => ?_
    exact Agree.linkCells (.cons ⟨hcas, hra⟩ (.cons ⟨hcbs, hrb⟩ .nil))
  refine (assignQuotientRanges_agree h.quotient q q' r r' known known').bind
    fun ⟨qr, rr, sr⟩ ⟨qr', rr', sr'⟩ ⟨hqr, hrr, hsr⟩ => ?_
  refine (Agree.linkCells ?_).bind fun _ _ _ => .pure ⟨hca, hcb, hcq⟩
  exact .cons ⟨hcq, hqr⟩ (.cons ⟨hcr, hrr⟩ (.cons ⟨hcs, hsr⟩ .nil))

end EltwiseMulConfig

end Zkie.Eltwise
