import Zkie.Rescale

namespace Zkie.DotProduct

open ScalarField FixedPoint Plonkish Synthesis Satisfaction HostRun Skeleton Placement RangeCheck Rescale

variable {ε : Type}

inductive DotProductError where
  | lengthMismatch (expected gotA gotB : ℕ)
  /-- An overflow while the products are added up. -/
  | accumulationOverflow
  | overflow (source : FixedPointError)
  deriving DecidableEq, Repr

structure DotProductConfig where
  a : Column
  b : Column
  accumulator : Column
  q : Column
  r : Column
  slack : Column
  sAccStart : ℕ
  sAccStep : ℕ
  sFinal : ℕ
  sSlack : ℕ
  rangeQ : RangeCheckConfig
  rangeR : RangeCheckConfig
  rangeRSlack : RangeCheckConfig
  aShift : Column
  bShift : Column
  sShift : ℕ
  rangeA : LookupRangeCheckConfig
  rangeB : LookupRangeCheckConfig
  k : ℕ
  deriving DecidableEq, Repr

/-- The products of two vectors, position by position. -/
def products (a b : List I18) : List ℤ := List.zipWith (fun x y => x.raw * y.raw) a b

def dotSum (a b : List I18) : ℤ := (products a b).sum

/-- The running sum after `i` additions. -/
def partialSum (a b : List I18) (i : ℕ) : ℤ := ((products a b).take i).sum

def InI128 (v : ℤ) : Prop := i128Min ≤ v ∧ v < 2 ^ 127

instance (v : ℤ) : Decidable (InI128 v) := inferInstanceAs (Decidable (_ ∧ _))

/-- No addition of the accumulation loop overflows an `i128`. -/
def SumsFit (a b : List I18) : Prop := ∀ i < (products a b).length, InI128 (partialSum a b (i + 1))

instance (a b : List I18) : Decidable (SumsFit a b) := inferInstanceAs (Decidable (∀ i < _, _))

namespace DotProductConfig

def accStartGate (a b accumulator : Column) : List (Expression Fr) :=
  [.query accumulator 0 - .query a 0 * .query b 0]

def accStepGate (a b accumulator : Column) : List (Expression Fr) :=
  [.query accumulator 0 - .query accumulator (-1) - .query a 0 * .query b 0]

def finalGate (accumulator q r : Column) : List (Expression Fr) :=
  [rescaleConstraint (.query accumulator 0) q r]

def configure (a b accumulator q r slack bits : Column) (k : UInt64) : Configure Fr DotProductConfig := do
  assertThat (0 < k.toNat) "dot product length K must be positive"
  enableEquality a
  enableEquality b
  enableEquality accumulator
  enableEquality q
  enableEquality r
  enableEquality slack
  let sAccStart ← selector
  createGate "dot product accumulation start" sAccStart (accStartGate a b accumulator)
  let sAccStep ← selector
  createGate "dot product accumulation step" sAccStep (accStepGate a b accumulator)
  let sFinal ← selector
  createGate "dot product final rescale (shifted q)" sFinal (finalGate accumulator q r)
  let sSlack ← selector
  createGate "dot product slack equals bound minus remainder" sSlack [slackConstraint r slack]
  let aShift ← adviceColumn
  let bShift ← adviceColumn
  enableEquality aShift
  enableEquality bShift
  let sShift ← selector
  createGate "dot product operand shift" sShift (shiftConstraints a b aShift bShift)
  let rangeA ← LookupRangeCheckConfig.configure aShift bits 64
  let rangeB ← LookupRangeCheckConfig.configure bShift bits 64
  let rangeQ ← RangeCheckConfig.configure q bits 64
  let rangeR ← RangeCheckConfig.configure r bits remainderBits
  let rangeRSlack ← RangeCheckConfig.configure slack bits remainderBits
  return { a, b, accumulator, q, r, slack, sAccStart, sAccStep, sFinal, sSlack, rangeQ, rangeR,
           rangeRSlack, aShift, bShift, sShift, rangeA, rangeB, k := k.toNat }

def loadRangeTables (dot : DotProductConfig) : Synth Fr ε Unit := do
  dot.rangeA.loadTable
  dot.rangeB.loadTable

structure RowCells where
  a : AssignedCell Fr
  b : AssignedCell Fr
  aShift : AssignedCell Fr
  bShift : AssignedCell Fr

/-- Row `i` of the accumulation. The accumulator is converted when the witness is evaluated, and
the conversion negates a negative sum. -/
def assignStep (dot : DotProductConfig) (region i : ℕ) (x y : I18) (sum : ℤ) (known : Bool) :
    Synth Fr ε RowCells := do
  let aCell ← Synth.assignAdvice region dot.a i (witness known (i64ToFr x))
  let bCell ← Synth.assignAdvice region dot.b i (witness known (i64ToFr y))
  Synth.enable dot.sShift region i
  let aShift ← Synth.assignAdvice region dot.aShift i (witness known (i128ToFr (shiftedRaw x)))
  let bShift ← Synth.assignAdvice region dot.bShift i (witness known (i128ToFr (shiftedRaw y)))
  Synth.check (¬(known ∧ sum = i128Min)) "attempt to negate with overflow"
  let _ ← Synth.assignAdvice region dot.accumulator i (witness known (i128ToFr sum))
  Synth.enable (if i = 0 then dot.sAccStart else dot.sAccStep) region i
  return ⟨aCell, bCell, aShift, bShift⟩

structure DotCells where
  rows : List RowCells
  q : AssignedCell Fr
  r : AssignedCell Fr
  slack : AssignedCell Fr

def dotRegion (dot : DotProductConfig) (name : String) (a b : List I18) (q : I18) (r : ℤ) (known : Bool) :
    Synth Fr ε DotCells :=
  Synth.assignRegion name fun region => do
    let rows ← Synth.forEach (fun i => dot.assignStep region i (a.getD i default) (b.getD i default)
      (partialSum a b (i + 1)) known) (List.range dot.k)
    Synth.check (dot.k ≠ 0) "attempt to subtract with overflow"
    let last := dot.k - 1
    Synth.enable dot.sFinal region last
    Synth.enable dot.sSlack region last
    let qCell ← Synth.assignAdvice region dot.q last (witness known (i128ToFr (shiftedRaw q)))
    let rCell ← Synth.assignAdvice region dot.r last (witness known (i128ToFr r))
    let slackCell ← Synth.assignAdvice region dot.slack last (witness known (i128ToFr (scale18 - 1 - r)))
    return ⟨rows, qCell, rCell, slackCell⟩

/-- The byte range checks of one pair of operands, with the links they need. -/
def assignOperandRanges (dot : DotProductConfig) (row : RowCells) (x y : I18) (known : Bool) :
    Synth Fr ε (List (AssignedCell Fr × AssignedCell Fr)) := do
  let aRange ← dot.rangeA.assign (witness known (i128ToFr (shiftedRaw x))) (witness known (shiftedRaw x))
  let bRange ← dot.rangeB.assign (witness known (i128ToFr (shiftedRaw y))) (witness known (shiftedRaw y))
  return [(row.aShift, aRange), (row.bShift, bRange)]

/-- The regions of a dot product, for the vectors, the quotient and the remainder that its host has computed. -/
def assignRow (dot : DotProductConfig) (regionName linksName : String) (a b : List I18) (q : I18) (r : ℤ) (known : Bool) :
    Synth Fr ε (List (AssignedCell Fr) × List (AssignedCell Fr) × AssignedCell Fr) := do
  let cells ← dot.dotRegion regionName a b q r known
  let operandLinks ← Synth.forEach (fun (row, x, y) => dot.assignOperandRanges row x y known)
    (cells.rows.zip (a.zip b))
  let (qRange, rRange, slackRange) ←
    assignQuotientRanges dot.rangeQ dot.rangeR dot.rangeRSlack q r known
  Synth.linkCells linksName
    ([(cells.q, qRange), (cells.r, rRange), (cells.slack, slackRange)] ++ operandLinks.flatten)
  return (cells.rows.map RowCells.a, cells.rows.map RowCells.b, cells.q)

def assignDotRow (dot : DotProductConfig) (a b : List I18) (known : Bool) :
    Synth Fr ε (List (AssignedCell Fr) × List (AssignedCell Fr) × AssignedCell Fr) := do
  Synth.check (a.length = dot.k) "assign_dot_row: a.len() must equal configured k"
  Synth.check (b.length = dot.k) "assign_dot_row: b.len() must equal configured k"
  Synth.check (SumsFit a b) "attempt to add with overflow"
  let (q, r) ← Synth.unwrap "assembler dot product overflow" (requantizeRaw (dotSum a b)).toOption
  dot.assignRow "assembler dot product" "assembler dot product range check links" a b q r known

/-- The entry of the chip itself. The source drops the cell of the quotient, which is kept here. -/
def assign (dot : DotProductConfig) (a b : List I18) : Synth Fr DotProductError (I18 × AssignedCell Fr) := do
  Synth.ensure (a.length = dot.k ∧ b.length = dot.k) (.lengthMismatch dot.k a.length b.length)
  Synth.ensure (SumsFit a b) .accumulationOverflow
  let (q, r) ← Synth.ofExcept ((requantizeRaw (dotSum a b)).mapError .overflow)
  let (_, _, qCell) ← dot.assignRow "dot product accumulation" "dot product range check links" a b q r true
  return (q, qCell)

structure Installed (dot : DotProductConfig) (cs : ConstraintSystem Fr) : Prop where
  accStart : ⟨"dot product accumulation start", dot.sAccStart,
    accStartGate dot.a dot.b dot.accumulator⟩ ∈ cs.gates
  accStep : ⟨"dot product accumulation step", dot.sAccStep,
    accStepGate dot.a dot.b dot.accumulator⟩ ∈ cs.gates
  final : ⟨"dot product final rescale (shifted q)", dot.sFinal,
    finalGate dot.accumulator dot.q dot.r⟩ ∈ cs.gates
  slackGate : ⟨"dot product slack equals bound minus remainder", dot.sSlack,
    [slackConstraint dot.r dot.slack]⟩ ∈ cs.gates
  quotient : QuotientInstalled dot.rangeQ dot.rangeR dot.rangeRSlack dot.q dot.r dot.slack cs
  operands : OperandInstalled "dot product operand shift" dot.sShift dot.a dot.b dot.aShift dot.bShift
    dot.rangeA dot.rangeB cs
  equality : ∀ c ∈ [dot.a, dot.b, dot.accumulator, dot.q, dot.r, dot.slack], c ∈ cs.equality
  nodup : [dot.a, dot.b, dot.accumulator, dot.q, dot.r, dot.slack, dot.aShift, dot.bShift].Nodup
  pos : 0 < dot.k
  bounded : dot.k < 2 ^ 64

variable {dot : DotProductConfig} {cs cs' : ConstraintSystem Fr} {T : List ℕ → List Fr → Prop}
  {A : Assignment Fr}

theorem Installed.mono (h : dot.Installed cs) (hle : cs.Extends cs') : dot.Installed cs' where
  accStart := hle.gates h.accStart
  accStep := hle.gates h.accStep
  final := hle.gates h.final
  slackGate := hle.gates h.slackGate
  quotient := h.quotient.mono hle
  operands := h.operands.mono hle
  equality c hc := hle.equality (h.equality c hc)
  nodup := h.nodup
  pos := h.pos
  bounded := h.bounded

theorem configure_adds (a b accumulator q r slack bits : Column) (k : UInt64) (L : List (List ℕ × List Fr)) :
    Adds L (configure a b accumulator q r slack bits k) fun dot => L ++ [dot.rangeA.idle, dot.rangeB.idle] := by
  refine Adds.assertThat.bind fun _ => ?_
  rintro cs config cs' h rfl
  cases h
  simp [Lookup.idle, LookupRangeCheckConfig.limbInput, LookupRangeCheckConfig.idle]

theorem configure_installed {a b accumulator q r slack bits : Column} {k : UInt64}
    (hnd : [bits, a, b, accumulator, q, r, slack].Nodup)
    (halloc : ∀ c ∈ [bits, a, b, accumulator, q, r, slack], cs.Allocated c) :
    Configures (configure a b accumulator q r slack bits k) cs fun dot cs' =>
      dot.Installed cs' ∧ dot.k = k.toNat := by
  obtain ⟨hbits, habc⟩ := List.nodup_cons.mp hnd
  simp only [List.mem_cons, List.not_mem_nil, or_false, not_or] at hbits
  refine Configures.assertThat.bind fun _ cs₀ h₀ hpos => ?_
  refine (Configures.enableEquality a).bind fun _ cs₁ h₁ ha => ?_
  refine (Configures.enableEquality b).bind fun _ cs₂ h₂ hb => ?_
  refine (Configures.enableEquality accumulator).bind fun _ cs₂' h₂' hacc => ?_
  refine (Configures.enableEquality q).bind fun _ cs₃ h₃ hq => ?_
  refine (Configures.enableEquality r).bind fun _ cs₄ h₄ hr => ?_
  refine (Configures.enableEquality slack).bind fun _ cs₅ h₅ hs => ?_
  refine Configures.gate _ _ fun cs₆ h₆ hstart => ?_
  refine Configures.gate _ _ fun cs₇ h₇ hstep => ?_
  refine Configures.gate _ _ fun cs₈ h₈ hfinal => ?_
  refine Configures.gate _ _ fun cs₉ h₉ hslack => ?_
  have hle₅ := ((h₀.trans h₁).trans (h₂.trans h₂')).trans ((h₃.trans h₄).trans h₅)
  have hle₉ := (hle₅.trans (h₆.trans h₇)).trans (h₈.trans h₉)
  refine Configures.adviceColumn.bind fun aShift cs₁₀ h₁₀ ⟨haAlloc, haNew⟩ => ?_
  refine Configures.adviceColumn.bind fun bShift cs₁₁ h₁₁ ⟨_, hbNew⟩ => ?_
  have hneA : ∀ c ∈ [bits, a, b, accumulator, q, r, slack], c ≠ aShift := fun c hc =>
    haNew c ((halloc c hc).mono hle₉)
  have hneB : ∀ c ∈ [bits, a, b, accumulator, q, r, slack], c ≠ bShift := fun c hc =>
    hbNew c ((halloc c hc).mono (hle₉.trans h₁₀))
  refine (Configures.enableEquality aShift).bind fun _ cs₁₂ h₁₂ haEq => ?_
  refine (Configures.enableEquality bShift).bind fun _ cs₁₃ h₁₃ hbEq => ?_
  refine Configures.gate _ _ fun cs₁₄ h₁₄ hshift => ?_
  refine (LookupRangeCheckConfig.configure_installed (hneA bits (by simp)) (by decide)).bind fun ra cs₁₅ h₁₅ hra => ?_
  refine (LookupRangeCheckConfig.configure_installed (hneB bits (by simp)) (by decide)).bind fun rb cs₁₆ h₁₆ hrb => ?_
  refine (RangeCheckConfig.configure_installed hbits.2.2.2.1 (by norm_num) (by decide)).bind fun rq cs₁₇ h₁₇ hrq => ?_
  refine (RangeCheckConfig.configure_installed hbits.2.2.2.2.1 (by norm_num [remainderBits]) (by decide)).bind
    fun rr cs₁₈ h₁₈ hrr => ?_
  refine (RangeCheckConfig.configure_installed hbits.2.2.2.2.2 (by norm_num [remainderBits]) (by decide)).bind
    fun rs cs₁₉ h₁₉ hrs => ?_
  have t₁₇ := h₁₈.trans h₁₉
  have t₁₆ := h₁₇.trans t₁₇
  have t₁₅ := h₁₆.trans t₁₆
  have t₁₄ := h₁₅.trans t₁₅
  have t₁₃ := h₁₄.trans t₁₄
  have t₉ := ((h₁₀.trans h₁₁).trans (h₁₂.trans h₁₃)).trans t₁₃
  have t₈ := h₉.trans t₉
  have t₇ := h₈.trans t₈
  have t₅ := h₆.trans (h₇.trans t₇)
  have t₄ := h₅.trans t₅
  have t₃ := h₄.trans t₄
  have t₂ := h₃.trans t₃
  refine Configures.pure ⟨⟨(h₇.trans t₇).gates hstart, t₇.gates hstep, t₈.gates hfinal, t₉.gates hslack,
    ?_, ?_, ?_, ?_, hpos, k.toNat_lt⟩, rfl⟩
  · exact ⟨⟨hrq.2.1, hrr.2.1, hrs.2.1⟩, ⟨hrq.2.2, hrr.2.2, hrs.2.2⟩, hrq.1.mono t₁₇, hrr.1.mono h₁₉, hrs.1⟩
  · exact ⟨t₁₄.gates hshift, hra.1.mono t₁₅, hrb.1.mono t₁₆, ⟨hra.2.1, hrb.2.1⟩, ⟨hra.2.2, hrb.2.2⟩,
      (h₁₃.trans t₁₃).equality haEq, t₁₃.equality hbEq⟩
  · simp only [List.forall_mem_cons, List.not_mem_nil, false_implies, implies_true, and_true]
    exact ⟨(h₂.trans (h₂'.trans t₂)).equality ha, (h₂'.trans t₂).equality hb, t₂.equality hacc,
      t₃.equality hq, t₄.equality hr, t₅.equality hs⟩
  · have hab : aShift ≠ bShift := hbNew aShift haAlloc
    simp only [List.forall_mem_cons, List.not_mem_nil, false_implies, implies_true, and_true] at hneA hneB
    simp only [List.nodup_cons, List.mem_cons, List.not_mem_nil, or_false, not_or, not_false_eq_true,
      List.nodup_nil, and_true] at habc ⊢
    tauto

section Region

variable (dot) (name : String) (a b : List I18) (q : I18) (vr : ℤ) (known : Bool)

/-- Converting one of the partial sums would negate `i128::MIN`. -/
def Negates : Prop := known = true ∧ ∃ i < dot.k, partialSum a b (i + 1) = i128Min

def rowAt (region i : ℕ) : RowCells where
  a := ⟨⟨region, dot.a, i⟩, witness known (i64ToFr (a.getD i default))⟩
  b := ⟨⟨region, dot.b, i⟩, witness known (i64ToFr (b.getD i default))⟩
  aShift := ⟨⟨region, dot.aShift, i⟩, witness known (i128ToFr (shiftedRaw (a.getD i default)))⟩
  bShift := ⟨⟨region, dot.bShift, i⟩, witness known (i128ToFr (shiftedRaw (b.getD i default)))⟩

def stepEvents (region i : ℕ) : List (Event Fr) :=
  [.advice ⟨region, dot.a, i⟩ (witness known (i64ToFr (a.getD i default))),
    .advice ⟨region, dot.b, i⟩ (witness known (i64ToFr (b.getD i default))),
    .enable dot.sShift region i,
    .advice ⟨region, dot.aShift, i⟩ (witness known (i128ToFr (shiftedRaw (a.getD i default)))),
    .advice ⟨region, dot.bShift, i⟩ (witness known (i128ToFr (shiftedRaw (b.getD i default)))),
    .advice ⟨region, dot.accumulator, i⟩ (witness known (i128ToFr (partialSum a b (i + 1)))),
    .enable (if i = 0 then dot.sAccStart else dot.sAccStep) region i]

def dotCells (region : ℕ) : DotCells where
  rows := (List.range dot.k).map (rowAt dot a b known region)
  q := ⟨⟨region, dot.q, (dot.k - 1 : ℕ)⟩, witness known (i128ToFr (shiftedRaw q))⟩
  r := ⟨⟨region, dot.r, (dot.k - 1 : ℕ)⟩, witness known (i128ToFr vr)⟩
  slack := ⟨⟨region, dot.slack, (dot.k - 1 : ℕ)⟩, witness known (i128ToFr (scale18 - 1 - vr))⟩

def dotEvents (region : ℕ) : List (Event Fr) :=
  .region name region ::
    ((List.range dot.k).flatMap (stepEvents dot a b known region) ++
      [.enable dot.sFinal region (dot.k - 1 : ℕ), .enable dot.sSlack region (dot.k - 1 : ℕ),
        .advice ⟨region, dot.q, (dot.k - 1 : ℕ)⟩ (witness known (i128ToFr (shiftedRaw q))),
        .advice ⟨region, dot.r, (dot.k - 1 : ℕ)⟩ (witness known (i128ToFr vr)),
        .advice ⟨region, dot.slack, (dot.k - 1 : ℕ)⟩ (witness known (i128ToFr (scale18 - 1 - vr)))])

theorem dotRegion_lays (hk : 0 < dot.k) (hneg : ¬Negates dot a b known) :
    Lays (dot.dotRegion (ε := ε) name a b q vr known) (dotCells dot a b q vr known)
      (dotEvents dot name a b q vr known) := by
  refine Emits.lays _ fun r => ?_
  refine Emits.bind (Emits.forEach (g := rowAt dot a b known r) (e := stepEvents dot a b known r) ?_) ?_
  · intro i hi n
    have hi' : ¬(known = true ∧ partialSum a b (i + 1) = i128Min) := fun ⟨hk, hs⟩ =>
      hneg ⟨hk, i, List.mem_range.mp hi, hs⟩
    simp only [assignStep, Synth.check, if_pos hi']
    rfl
  · exact Emits.bind (Emits.check hk.ne') fun _ => rfl

theorem dotRegion_fails (hneg : Negates dot a b known) : Fails (dot.dotRegion (ε := ε) name a b q vr known) := by
  obtain ⟨hknown, i, hi, hs⟩ := hneg
  refine Fails.assignRegion fun r => Fails.bind_left (Fails.forEach (List.mem_range.mpr hi) ?_)
  exact .bind_right fun _ => .bind_right fun _ => .bind_right fun _ => .bind_right fun _ =>
    .bind_right fun _ => (Fails.check (not_not.mpr ⟨hknown, hs⟩)).bind_left

variable {dot name a b q vr known}

theorem mem_dotEvents_step {region i : ℕ} (hi : i < dot.k) {e : Event Fr}
    (he : e ∈ stepEvents dot a b known region i) : e ∈ dotEvents dot name a b q vr known region :=
  List.mem_cons_of_mem _ (List.mem_append_left _ (List.mem_flatMap.mpr ⟨i, by simpa using hi, he⟩))

theorem cellsOf_dotEvents (region : ℕ) : cellsOf (dotEvents dot name a b q vr known region) =
    (List.range dot.k).flatMap (fun i : ℕ =>
      [dot.a, dot.b, dot.aShift, dot.bShift, dot.accumulator].map fun c => (⟨region, c, i⟩ : Cell)) ++
      [dot.q, dot.r, dot.slack].map fun c => (⟨region, c, (dot.k - 1 : ℕ)⟩ : Cell) := by
  simp only [cellsOf, dotEvents, List.filterMap_cons, List.filterMap_append, List.filterMap_flatMap,
    written, List.filterMap_nil, stepEvents, List.map_cons, List.map_nil]

theorem dotRegion_placed (h : dot.Installed cs) : Placed (dot.dotRegion (ε := ε) name a b q vr known) := by
  by_cases hneg : Negates dot a b known
  · exact .of_fails (dotRegion_fails dot name a b q vr known hneg)
  refine .of_lays (dotRegion_lays dot name a b q vr known h.pos hneg) (fun r c hc => ?_) (fun r => ?_) fun r e he => ?_
  · rw [cellsOf_dotEvents, List.mem_append, List.mem_flatMap] at hc
    rcases hc with ⟨i, -, hc⟩ | hc <;> obtain ⟨column, -, rfl⟩ := List.mem_map.mp hc <;> rfl
  · have hnd := h.nodup
    simp only [List.nodup_cons, List.mem_cons, List.not_mem_nil, or_false, not_or, not_false_eq_true,
      List.nodup_nil, and_true] at hnd
    rw [cellsOf_dotEvents]
    refine List.Nodup.append (List.nodup_flatMap.mpr ⟨fun i _ => ?_, ?_⟩) ?_ ?_
    · refine List.Nodup.map (fun c c' hc => (Cell.mk.inj hc).2.1) ?_
      simp only [List.nodup_cons, List.mem_cons, List.not_mem_nil, or_false, not_or, not_false_eq_true,
        List.nodup_nil, and_true]
      tauto
    · refine List.nodup_range.imp fun hij c hc hc' => hij ?_
      obtain ⟨_, -, rfl⟩ := List.mem_map.mp hc
      obtain ⟨_, -, heq⟩ := List.mem_map.mp hc'
      have := (Cell.mk.inj heq).2.2
      omega
    · refine List.Nodup.map (fun c c' hc => (Cell.mk.inj hc).2.1) ?_
      simp only [List.nodup_cons, List.mem_cons, List.not_mem_nil, or_false, not_or, not_false_eq_true,
        List.nodup_nil, and_true]
      tauto
    · intro c hc hc'
      obtain ⟨i, -, hc⟩ := List.mem_flatMap.mp hc
      obtain ⟨c₁, h₁, rfl⟩ := List.mem_map.mp hc
      obtain ⟨c₂, h₂, heq⟩ := List.mem_map.mp hc'
      obtain rfl : c₂ = c₁ := (Cell.mk.inj heq).2.1
      simp only [List.mem_cons, List.not_mem_nil, or_false] at h₁ h₂
      rcases h₁ with rfl | rfl | rfl | rfl | rfl <;> rcases h₂ with h₂ | h₂ | h₂ <;> simp_all
  · simp only [dotEvents, List.mem_cons, List.mem_append, List.mem_flatMap, stepEvents, List.not_mem_nil,
      or_false] at he
    obtain rfl | ⟨i, -, rfl | rfl | rfl | rfl | rfl | rfl | rfl⟩ | rfl | rfl | rfl | rfl | rfl := he <;> trivial

end Region

section Gates

theorem holds_accStart (hwf : cs.WellFormed) (h : dot.Installed cs) (r : ℕ) (o : ℤ) :
    Holds cs T A (.enable dot.sAccStart r o) ↔
      A.cell ⟨r, dot.accumulator, o⟩ - A.cell ⟨r, dot.a, o⟩ * A.cell ⟨r, dot.b, o⟩ = 0 := by
  rw [holds_gate hwf h.accStart]
  simp [accStartGate, Assignment.row]

theorem holds_accStep (hwf : cs.WellFormed) (h : dot.Installed cs) (r : ℕ) (o : ℤ) :
    Holds cs T A (.enable dot.sAccStep r o) ↔
      A.cell ⟨r, dot.accumulator, o⟩ - A.cell ⟨r, dot.accumulator, o - 1⟩ -
        A.cell ⟨r, dot.a, o⟩ * A.cell ⟨r, dot.b, o⟩ = 0 := by
  rw [holds_gate hwf h.accStep]
  simp [accStepGate, Assignment.row, sub_eq_add_neg]

theorem holds_final (hwf : cs.WellFormed) (h : dot.Installed cs) (r : ℕ) (o : ℤ) :
    Holds cs T A (.enable dot.sFinal r o) ↔
      A.cell ⟨r, dot.accumulator, o⟩ - (A.cell ⟨r, dot.q, o⟩ * i128ToFr scale18 -
        i128ToFr (signedShift * scale18)) - A.cell ⟨r, dot.r, o⟩ = 0 := by
  rw [holds_gate hwf h.final]
  simp [finalGate, rescaleConstraint, Assignment.row]

theorem holds_slackGate (hwf : cs.WellFormed) (h : dot.Installed cs) (r : ℕ) (o : ℤ) :
    Holds cs T A (.enable dot.sSlack r o) ↔
      A.cell ⟨r, dot.slack, o⟩ + A.cell ⟨r, dot.r, o⟩ - i128ToFr (scale18 - 1) = 0 := by
  rw [holds_gate hwf h.slackGate]
  simp [slackConstraint, Assignment.row]

/-- What the gates of the region say about its cells. -/
structure Accumulates (dot : DotProductConfig) (A : Assignment Fr) (r : ℕ) : Prop where
  shift : ∀ i : ℕ, i < dot.k →
    A.cell ⟨r, dot.aShift, i⟩ - A.cell ⟨r, dot.a, i⟩ - i128ToFr signedShift = 0 ∧
    A.cell ⟨r, dot.bShift, i⟩ - A.cell ⟨r, dot.b, i⟩ - i128ToFr signedShift = 0
  start : A.cell ⟨r, dot.accumulator, 0⟩ = A.cell ⟨r, dot.a, 0⟩ * A.cell ⟨r, dot.b, 0⟩
  step : ∀ i : ℕ, i + 1 < dot.k → A.cell ⟨r, dot.accumulator, (i + 1 : ℕ)⟩ =
    A.cell ⟨r, dot.accumulator, i⟩ + A.cell ⟨r, dot.a, (i + 1 : ℕ)⟩ * A.cell ⟨r, dot.b, (i + 1 : ℕ)⟩
  final : A.cell ⟨r, dot.accumulator, (dot.k - 1 : ℕ)⟩ -
    (A.cell ⟨r, dot.q, (dot.k - 1 : ℕ)⟩ * i128ToFr scale18 - i128ToFr (signedShift * scale18)) -
    A.cell ⟨r, dot.r, (dot.k - 1 : ℕ)⟩ = 0
  slack : A.cell ⟨r, dot.slack, (dot.k - 1 : ℕ)⟩ + A.cell ⟨r, dot.r, (dot.k - 1 : ℕ)⟩ -
    i128ToFr (scale18 - 1) = 0

theorem Accumulates.sum {r : ℕ} (h : Accumulates dot A r) (i : ℕ) (hi : i < dot.k) :
    A.cell ⟨r, dot.accumulator, i⟩ =
      ∑ j ∈ Finset.range (i + 1), A.cell ⟨r, dot.a, j⟩ * A.cell ⟨r, dot.b, j⟩ := by
  induction i with
  | zero => simpa using h.start
  | succ i ih => rw [h.step i hi, ih (by omega), Finset.sum_range_succ _ (i + 1)]

variable {name : String} {a b : List I18} {q : I18} {vr : ℤ} {known : Bool}

theorem dotRegion_sound (hwf : cs.WellFormed) (h : dot.Installed cs) :
    Sound cs T A (dot.dotRegion (ε := ε) name a b q vr known) fun cells =>
      ∃ r, cells = dotCells dot a b q vr known r ∧ Accumulates dot A r := by
  by_cases hneg : Negates dot a b known
  · exact .of_fails (dotRegion_fails dot name a b q vr known hneg)
  refine .of_lays (dotRegion_lays dot name a b q vr known h.pos hneg) fun r hr => ⟨fun _ _ => trivial, r, rfl, ?_⟩
  have hstep : ∀ i < dot.k, ∀ e ∈ stepEvents dot a b known r i, Holds cs T A e := fun i hi e he =>
    hr e (mem_dotEvents_step hi he)
  constructor
  · intro i hi
    exact (h.operands.holds_shift hwf r i).mp (hstep i hi _ (by simp [stepEvents]))
  · exact sub_eq_zero.mp ((holds_accStart hwf h r 0).mp (hstep 0 h.pos _ (by simp [stepEvents])))
  · intro i hi
    have hgate := (holds_accStep hwf h r (i + 1 : ℕ)).mp (hstep (i + 1) hi _ (by simp [stepEvents]))
    rw [show ((i + 1 : ℕ) : ℤ) - 1 = (i : ℤ) by omega] at hgate
    linear_combination hgate
  · exact (holds_final hwf h r _).mp (hr _ (by simp [dotEvents]))
  · exact (holds_slackGate hwf h r _).mp (hr _ (by simp [dotEvents]))

end Gates

section Row

variable {name regionName linksName : String} {a b : List I18} {known : Bool}

theorem assignOperandRanges_sound (hwf : cs.WellFormed) (h : dot.Installed cs)
    (hT : LookupRangeCheckConfig.OnlyBytes T) (row : RowCells) (x y : I18) :
    Sound cs T A (dot.assignOperandRanges (ε := ε) row x y known) fun links =>
      (∀ p ∈ links, A.cell p.1.cell = A.cell p.2.cell) →
        (∃ n < 2 ^ 64, A.cell row.aShift.cell = (n : ℕ)) ∧ ∃ n < 2 ^ 64, A.cell row.bShift.cell = (n : ℕ) := by
  obtain ⟨hwa, hwb⟩ := h.operands.widths
  refine (LookupRangeCheckConfig.assign_sound hwf h.operands.onA hT _ _).bind fun ra hra => ?_
  refine (LookupRangeCheckConfig.assign_sound hwf h.operands.onB hT _ _).bind fun rb hrb => ?_
  refine .pure fun hlinks => ?_
  simp only [List.forall_mem_cons, List.not_mem_nil, false_implies, implies_true, and_true] at hlinks
  rw [hwa, ← hlinks.1] at hra
  rw [hwb, ← hlinks.2] at hrb
  exact ⟨hra, hrb⟩

theorem dotSum_range (x y : ℕ → I18) (k : ℕ) :
    dotSum ((List.range k).map x) ((List.range k).map y) =
      ∑ i ∈ Finset.range k, (x i).raw * (y i).raw := by
  rw [dotSum, products, List.zipWith_map, List.zipWith_self, Finset.sum_range, ← List.sum_ofFn]
  congr 1
  exact List.ext_getElem (by simp) (by simp)

theorem abs_sum_le (x y : ℕ → I18) (k : ℕ) (hk : k < 2 ^ 64) :
    |∑ i ∈ Finset.range k, (x i).raw * (y i).raw| < 2 ^ 200 := by
  have hterm : ∀ i ∈ Finset.range k, |(x i).raw * (y i).raw| ≤ 2 ^ 126 := fun i _ => by
    rw [abs_mul]
    calc |(x i).raw| * |(y i).raw| ≤ 2 ^ 63 * 2 ^ 63 :=
          mul_le_mul (abs_raw_le _) (abs_raw_le _) (abs_nonneg _) (by norm_num)
      _ = 2 ^ 126 := by norm_num
  calc |∑ i ∈ Finset.range k, (x i).raw * (y i).raw|
      ≤ ∑ i ∈ Finset.range k, |(x i).raw * (y i).raw| := Finset.abs_sum_le_sum_abs _ _
    _ ≤ ∑ _i ∈ Finset.range k, (2 : ℤ) ^ 126 := Finset.sum_le_sum hterm
    _ = k * 2 ^ 126 := by rw [Finset.sum_const, Finset.card_range, nsmul_eq_mul]
    _ < 2 ^ 200 := by
      have : (k : ℤ) < 2 ^ 64 := by exact_mod_cast hk
      norm_num
      omega

theorem mem_zip_of_rows {rows : List RowCells} (hrows : rows.length = dot.k) (hla : a.length = dot.k)
    (hlb : b.length = dot.k) {row : RowCells} (hrow : row ∈ rows) :
    ∃ z ∈ rows.zip (a.zip b), z.1 = row := by
  have hfst : (rows.zip (a.zip b)).map Prod.fst = rows :=
    List.map_fst_zip (by rw [List.length_zip, hla, hlb, hrows]; exact (min_self _).ge)
  rw [← hfst] at hrow
  exact List.mem_map.mp hrow

/-- A column of cells read as integers, one for each row. -/
theorem forall₂_rows {f : ℕ → AssignedCell Fr} {x : ℕ → I18} {k : ℕ}
    (h : ∀ i < k, A.cell (f i).cell = ((x i).raw : Fr)) :
    List.Forall₂ (fun c v => A.cell c.cell = (v.raw : Fr)) ((List.range k).map f)
      ((List.range k).map x) := by
  rw [List.forall₂_map_left_iff, List.forall₂_map_right_iff, List.forall₂_same]
  intro i hi
  exact h i (List.mem_range.mp hi)

/-- Every satisfying assignment of a dot product row holds two integer vectors and the floor of
their scaled product. -/
theorem assignRow_sound (hwf : cs.WellFormed) (h : dot.Installed cs) (hT : LookupRangeCheckConfig.OnlyBytes T)
    (hla : a.length = dot.k) (hlb : b.length = dot.k) (q : I18) (vr : ℤ) :
    Sound cs T A (dot.assignRow (ε := ε) regionName linksName a b q vr known) fun c =>
      ∃ (x y : List I18) (z : I18), List.Forall₂ (fun c v => A.cell c.cell = (v.raw : Fr)) c.1 x ∧
        List.Forall₂ (fun c v => A.cell c.cell = (v.raw : Fr)) c.2.1 y ∧
        A.cell c.2.2.cell = (shiftedRaw z : Fr) ∧ z.raw = dotSum x y / scale18 ∧
        x.length = dot.k ∧ y.length = dot.k := by
  refine (dotRegion_sound hwf h).bind fun cells ⟨r, hcells, hacc⟩ => ?_
  refine (Triple.forEach fun z _ => assignOperandRanges_sound hwf h hT z.1 z.2.1 z.2.2).bind fun links hlinks => ?_
  refine (assignQuotientRanges_sound hwf h.quotient q vr known).bind fun ⟨qr, rr, sr⟩ ⟨hq, hr, hs⟩ => ?_
  refine Sound.linkCells.bind fun _ hlinked => .pure ?_
  have hbytes : ∀ row ∈ cells.rows, (∃ n < 2 ^ 64, A.cell row.aShift.cell = (n : ℕ)) ∧
      ∃ n < 2 ^ 64, A.cell row.bShift.cell = (n : ℕ) := fun row hrow => by
    obtain ⟨z, hz, rfl⟩ := mem_zip_of_rows (by simp [hcells, dotCells]) hla hlb hrow
    obtain ⟨l, hl, hbound⟩ := forall₂_exists_of_mem hlinks hz
    exact hbound fun p hp => hlinked p (List.mem_append_right _ (List.mem_flatten.mpr ⟨l, hl, hp⟩))
  simp only [List.forall_mem_append, List.forall_mem_cons, List.not_mem_nil, false_implies,
    implies_true, and_true] at hlinked
  obtain ⟨⟨hlq, hlr, hls⟩, -⟩ := hlinked
  subst hcells
  have hoperand : ∀ i, ∃ x y : I18, i < dot.k →
      A.cell ⟨r, dot.a, i⟩ = (x.raw : Fr) ∧ A.cell ⟨r, dot.b, i⟩ = (y.raw : Fr) := fun i => by
    by_cases hi : i < dot.k
    · obtain ⟨hna, hnb⟩ := hbytes (rowAt dot a b known r i) (List.mem_map_of_mem (List.mem_range.mpr hi))
      obtain ⟨x, hx⟩ := exists_operand hna rfl (hacc.shift i hi).1
      obtain ⟨y, hy⟩ := exists_operand hnb rfl (hacc.shift i hi).2
      exact ⟨x, y, fun _ => ⟨hx, hy⟩⟩
    · exact ⟨default, default, fun hi' => absurd hi' hi⟩
  choose x y hxy using hoperand
  obtain ⟨z, hz⟩ := hq
  obtain ⟨vr', hvr, hr⟩ := hr
  obtain ⟨vs, hvs, hs⟩ := hs
  refine ⟨(List.range dot.k).map x, (List.range dot.k).map y, z, ?_, ?_, hlq.trans hz, ?_, by simp, by simp⟩
  · simp only [dotCells, List.map_map]
    exact forall₂_rows fun i hi => (hxy i hi).1
  · simp only [dotCells, List.map_map]
    exact forall₂_rows fun i hi => (hxy i hi).2
  rw [dotSum_range]
  have hk := h.pos
  have hfinal := hacc.final
  have hlast : dot.k - 1 + 1 = dot.k := by omega
  rw [hacc.sum (dot.k - 1) (by omega), hlast, Finset.sum_congr rfl fun i hi => by
    rw [(hxy i (Finset.mem_range.mp hi)).1, (hxy i (Finset.mem_range.mp hi)).2, ← Int.cast_mul],
    ← Int.cast_sum] at hfinal
  exact rescale_sound (abs_sum_le x y dot.k h.bounded) (hlq.trans hz) (hlr.trans hr) hvr (hls.trans hs)
    hvs hfinal hacc.slack

theorem assignDotRow_sound (hwf : cs.WellFormed) (h : dot.Installed cs)
    (hT : LookupRangeCheckConfig.OnlyBytes T) :
    Sound cs T A (dot.assignDotRow (ε := ε) a b known) fun c =>
      ∃ (x y : List I18) (z : I18), List.Forall₂ (fun c v => A.cell c.cell = (v.raw : Fr)) c.1 x ∧
        List.Forall₂ (fun c v => A.cell c.cell = (v.raw : Fr)) c.2.1 y ∧
        A.cell c.2.2.cell = (shiftedRaw z : Fr) ∧ z.raw = dotSum x y / scale18 ∧
        x.length = dot.k ∧ y.length = dot.k := by
  refine Triple.check.bind fun _ hla => Triple.check.bind fun _ hlb => Triple.check.bind fun _ _ => ?_
  refine Triple.bind (.unwrap (Q := fun _ => True) fun _ _ => trivial) fun ⟨q, vr⟩ _ => ?_
  exact assignRow_sound hwf h hT hla hlb q vr

/-- The quotient that the chip returns is some 64-bit integer. -/
theorem assign_sound (hwf : cs.WellFormed) (h : dot.Installed cs) (hT : LookupRangeCheckConfig.OnlyBytes T) :
    Sound cs T A (dot.assign a b) fun out => ∃ z : I18, A.cell out.2.cell = (shiftedRaw z : Fr) := by
  refine Triple.ensure.bind fun _ hlen => Triple.ensure.bind fun _ _ => ?_
  refine Triple.bind (.ofExcept (Q := fun _ => True) fun _ _ => trivial) fun ⟨q, vr⟩ _ => ?_
  refine (assignRow_sound hwf h hT hlen.1 hlen.2 q vr).bind fun c hc => .pure ?_
  obtain ⟨-, -, z, -, -, hz, -⟩ := hc
  exact ⟨z, hz⟩

theorem partialSum_succ {i : ℕ} (ha : i < a.length) (hb : i < b.length) :
    partialSum a b (i + 1) = partialSum a b i + (a.getD i default).raw * (b.getD i default).raw := by
  have hlen : i < (products a b).length := by
    rw [products, List.length_zipWith]
    omega
  rw [partialSum, List.sum_take_succ _ _ hlen, partialSum]
  simp [products, ha, hb]

theorem partialSum_length (hla : a.length = dot.k) (hlb : b.length = dot.k) :
    partialSum a b dot.k = dotSum a b := by
  have hlen : (products a b).length = dot.k := by
    rw [products, List.length_zipWith, hla, hlb, min_self]
  rw [partialSum, dotSum, ← hlen, List.take_length]

theorem dotRegion_complete (hwf : cs.WellFormed) (h : dot.Installed cs) (hla : a.length = dot.k)
    (hlb : b.length = dot.k) {q : I18} (hq : q.raw = dotSum a b / scale18) :
    Complete cs T A (dot.dotRegion (ε := ε) name a b q (dotSum a b % scale18) true) fun cells =>
      ∃ r, cells = dotCells dot a b q (dotSum a b % scale18) true r ∧
        (∀ i < dot.k, A.Has (rowAt dot a b true r i).a dot.a ((a.getD i default).raw : Fr) ∧
          A.Has (rowAt dot a b true r i).b dot.b ((b.getD i default).raw : Fr) ∧
          A.Has (rowAt dot a b true r i).aShift dot.aShift (shiftedRaw (a.getD i default) : Fr) ∧
          A.Has (rowAt dot a b true r i).bShift dot.bShift (shiftedRaw (b.getD i default) : Fr)) ∧
        A.Has cells.q dot.q (shiftedRaw q : Fr) ∧ A.Has cells.r dot.r ((dotSum a b % scale18 : ℤ) : Fr) ∧
        A.Has cells.slack dot.slack ((scale18 - 1 - dotSum a b % scale18 : ℤ) : Fr) := by
  by_cases hneg : Negates dot a b true
  · exact .of_fails (dotRegion_fails dot name a b q _ true hneg)
  refine .of_lays (dotRegion_lays dot name a b q _ true h.pos hneg) fun r hr => ?_
  have hpos := h.pos
  have hrow : ∀ i < dot.k, A.cell ⟨r, dot.a, i⟩ = ((a.getD i default).raw : Fr) ∧
      A.cell ⟨r, dot.b, i⟩ = ((b.getD i default).raw : Fr) ∧
      A.cell ⟨r, dot.aShift, i⟩ = (shiftedRaw (a.getD i default) : Fr) ∧
      A.cell ⟨r, dot.bShift, i⟩ = (shiftedRaw (b.getD i default) : Fr) ∧
      A.cell ⟨r, dot.accumulator, i⟩ = (partialSum a b (i + 1) : Fr) := fun i hi => by
    have hstep : ∀ e ∈ stepEvents dot a b true r i, Witnessed A e := fun e he =>
      hr e (mem_dotEvents_step hi he)
    simpa only [stepEvents, List.forall_mem_cons, List.not_mem_nil, false_implies, implies_true, and_true,
      Witnessed, witness, if_true, i128ToFr_cast, i64ToFr_cast, true_and] using hstep
  have hlast : ∀ e ∈ [Event.advice ⟨r, dot.q, (dot.k - 1 : ℕ)⟩ (witness true (i128ToFr (shiftedRaw q))),
      .advice ⟨r, dot.r, (dot.k - 1 : ℕ)⟩ (witness true (i128ToFr (dotSum a b % scale18))),
      .advice ⟨r, dot.slack, (dot.k - 1 : ℕ)⟩ (witness true (i128ToFr (scale18 - 1 - dotSum a b % scale18)))],
      Witnessed A e := fun e he => hr e (by
        simp only [dotEvents, List.mem_cons, List.mem_append, List.not_mem_nil, or_false] at he ⊢
        tauto)
  simp only [List.forall_mem_cons, List.not_mem_nil, false_implies, implies_true, and_true,
    Witnessed, witness, if_true, i128ToFr_cast] at hlast
  obtain ⟨hcq, hcr, hcs⟩ := hlast
  refine ⟨fun e he => ?_, r, rfl, fun i hi => ?_, ⟨rfl, hcq⟩, ⟨rfl, hcr⟩, rfl, hcs⟩
  · simp only [dotEvents, List.mem_cons, List.mem_append, List.mem_flatMap, List.mem_range, stepEvents,
      List.not_mem_nil, or_false] at he
    obtain rfl | ⟨i, hi, he⟩ | rfl | rfl | rfl | rfl | rfl := he
    · trivial
    · obtain ⟨hca, hcb, hcas, hcbs, hacc⟩ := hrow i hi
      obtain rfl | rfl | rfl | rfl | rfl | rfl | rfl := he <;> try trivial
      · rw [h.operands.holds_shift hwf, hca, hcb, hcas, hcbs]
        exact ⟨shift_zero _, shift_zero _⟩
      · cases i with
        | zero =>
            rw [if_pos rfl, holds_accStart hwf h, hacc, hca, hcb,
              partialSum_succ (by omega) (by omega), partialSum, List.take_zero, List.sum_nil]
            push_cast
            ring
        | succ i =>
            have hprev := (hrow i (by omega)).2.2.2.2
            rw [if_neg (by omega), holds_accStep hwf h,
              show ((i + 1 : ℕ) : ℤ) - 1 = (i : ℤ) by omega, hacc, hprev, hca, hcb,
              partialSum_succ (i := i + 1) (by omega) (by omega)]
            push_cast
            ring
    · have hacc := (hrow (dot.k - 1) (by omega)).2.2.2.2
      rw [show dot.k - 1 + 1 = dot.k by omega, partialSum_length hla hlb] at hacc
      rw [holds_final hwf h, hacc, hcq, hcr]
      exact rescale_zero hq
    · rw [holds_slackGate hwf h, hcs, hcr]
      exact slack_zero _
    · trivial
    · trivial
    · trivial
  · obtain ⟨hca, hcb, hcas, hcbs, -⟩ := hrow i hi
    exact ⟨⟨rfl, hca⟩, ⟨rfl, hcb⟩, ⟨rfl, hcas⟩, rfl, hcbs⟩

theorem map_getD_range {k : ℕ} (h : a.length = k) : (List.range k).map (fun i => a.getD i default) = a := by
  subst h
  exact List.ext_getElem (by simp) (by simp +contextual)

theorem forall₂_getD {k : ℕ} {R : AssignedCell Fr → I18 → Prop} {f : ℕ → AssignedCell Fr}
    (hla : a.length = k) (h : ∀ i < k, R (f i) (a.getD i default)) :
    List.Forall₂ R ((List.range k).map f) a := by
  rw [← map_getD_range hla, List.forall₂_map_left_iff, List.forall₂_map_right_iff, List.forall₂_same]
  intro i hi
  exact h i (List.mem_range.mp hi)

theorem assignOperandRanges_complete (hwf : cs.WellFormed) (h : dot.Installed cs)
    (hA : dot.rangeA.BytesLoaded T) (hB : dot.rangeB.BytesLoaded T) {row : RowCells} {x y : I18}
    (ha : A.Has row.aShift dot.aShift (shiftedRaw x : Fr))
    (hb : A.Has row.bShift dot.bShift (shiftedRaw y : Fr)) :
    Complete cs T A (dot.assignOperandRanges (ε := ε) row x y true) fun links =>
      ∀ p ∈ links, p.1.cell.column ∈ cs.equality ∧ p.2.cell.column ∈ cs.equality ∧
        A.cell p.1.cell = A.cell p.2.cell := by
  obtain ⟨hwa, hwb⟩ := h.operands.widths
  obtain ⟨va, hva, hva64⟩ := shiftedRaw_range x
  obtain ⟨vb, hvb, hvb64⟩ := shiftedRaw_range y
  refine (LookupRangeCheckConfig.assign_complete hwf h.operands.onA hA (by omega)
    (by rw [hwa]; omega)).bind fun ra hra => ?_
  refine (LookupRangeCheckConfig.assign_complete hwf h.operands.onB hB (by omega)
    (by rw [hwb]; omega)).bind fun rb hrb => ?_
  rw [h.operands.values.1] at hra
  rw [h.operands.values.2] at hrb
  obtain ⟨hea, heb⟩ := h.operands.equality
  refine .pure ?_
  simp only [List.forall_mem_cons, List.not_mem_nil, false_implies, implies_true, and_true]
  exact ⟨ha.link hra hea hea, hb.link hrb heb heb⟩

theorem assignRow_complete (hwf : cs.WellFormed) (h : dot.Installed cs)
    (hA : dot.rangeA.BytesLoaded T) (hB : dot.rangeB.BytesLoaded T) (hla : a.length = dot.k) (hlb : b.length = dot.k)
    {q : I18} (hq : q.raw = dotSum a b / scale18) :
    Complete cs T A (dot.assignRow (ε := ε) regionName linksName a b q (dotSum a b % scale18) true) fun c =>
      List.Forall₂ (fun c (v : I18) => A.Has c dot.a (v.raw : Fr)) c.1 a ∧
        List.Forall₂ (fun c (v : I18) => A.Has c dot.b (v.raw : Fr)) c.2.1 b ∧
        A.Has c.2.2 dot.q (shiftedRaw q : Fr) := by
  obtain ⟨-, hr0, hrlt⟩ := rescale_spec (dotSum a b)
  refine (dotRegion_complete hwf h hla hlb hq).bind fun cells ⟨r, hcells, hrows, hcq, hcr, hcs⟩ => ?_
  refine (Triple.forEach (Q := fun _ links => ∀ p ∈ links, p.1.cell.column ∈ cs.equality ∧
    p.2.cell.column ∈ cs.equality ∧ A.cell p.1.cell = A.cell p.2.cell) fun z hz => ?_).bind
    fun links hlinks => ?_
  · obtain ⟨i, hi, rfl⟩ := List.mem_iff_getElem.mp hz
    simp only [List.length_zip, hla, hlb, min_self] at hi
    have hi' : i < dot.k := by omega
    have hrow := hrows i hi'
    simp only [List.getD_eq_getElem?_getD, List.getElem?_eq_getElem (hla ▸ hi'),
      List.getElem?_eq_getElem (hlb ▸ hi'), Option.getD_some] at hrow
    subst hcells
    simp only [List.getElem_zip, dotCells, List.getElem_map, List.getElem_range]
    exact assignOperandRanges_complete hwf h hA hB hrow.2.2.1 hrow.2.2.2
  refine (assignQuotientRanges_complete hwf h.quotient q hr0 hrlt).bind
    fun ⟨qr, rr, sr⟩ ⟨hqr, hrr, hsr⟩ => ?_
  have heq := h.equality
  simp only [List.forall_mem_cons, List.not_mem_nil, false_implies, implies_true, and_true] at heq
  obtain ⟨-, -, -, heq, her, hes⟩ := heq
  refine (Complete.linkCells ?_).bind fun _ _ => .pure ⟨?_, ?_, hcq⟩
  · simp only [List.forall_mem_append, List.forall_mem_cons, List.not_mem_nil, false_implies, implies_true,
      and_true]
    refine ⟨⟨hcq.link hqr heq heq, hcr.link hrr her her, hcs.link hsr hes hes⟩, fun p hp => ?_⟩
    obtain ⟨l, hl, hp⟩ := List.mem_flatten.mp hp
    obtain ⟨z, -, hz⟩ := forall₂_exists_of_mem hlinks.flip hl
    exact hz p hp
  · subst hcells
    simp only [dotCells, List.map_map]
    exact forall₂_getD hla fun i hi => (hrows i hi).1
  · subst hcells
    simp only [dotCells, List.map_map]
    exact forall₂_getD hlb fun i hi => (hrows i hi).2.1

theorem assignDotRow_complete (hwf : cs.WellFormed) (h : dot.Installed cs)
    (hA : dot.rangeA.BytesLoaded T) (hB : dot.rangeB.BytesLoaded T) :
    Complete cs T A (dot.assignDotRow (ε := ε) a b true) fun c =>
      ∃ z : I18, z.raw = dotSum a b / scale18 ∧
        List.Forall₂ (fun c (v : I18) => A.Has c dot.a (v.raw : Fr)) c.1 a ∧
        List.Forall₂ (fun c (v : I18) => A.Has c dot.b (v.raw : Fr)) c.2.1 b ∧
        A.Has c.2.2 dot.q (shiftedRaw z : Fr) := by
  refine Triple.check.bind fun _ hla => Triple.check.bind fun _ hlb => Triple.check.bind fun _ _ => ?_
  refine Triple.bind (.unwrap fun _ hqr => requantizeRaw_eq_ok.mp (toOption_eq_some.mp hqr))
    fun ⟨q, vr⟩ ⟨hq, hvr⟩ => ?_
  subst hvr
  exact (assignRow_complete hwf h hA hB hla hlb hq).mono fun c hc => ⟨q, hq, hc⟩

theorem assign_complete (hwf : cs.WellFormed) (h : dot.Installed cs)
    (hA : dot.rangeA.BytesLoaded T) (hB : dot.rangeB.BytesLoaded T) :
    Complete cs T A (dot.assign a b) fun out =>
      ∃ z : I18, z.raw = dotSum a b / scale18 ∧ A.cell out.2.cell = (shiftedRaw z : Fr) := by
  refine Triple.ensure.bind fun _ hlen => Triple.ensure.bind fun _ _ => ?_
  refine Triple.bind (.ofExcept (Q := fun r => requantizeRaw (dotSum a b) = .ok r) fun _ hqr =>
    mapError_eq_ok.mp hqr) fun ⟨q, vr⟩ hqr => ?_
  obtain ⟨hq, hvr⟩ := requantizeRaw_eq_ok.mp hqr
  subst hvr
  refine (assignRow_complete hwf h hA hB hlen.1 hlen.2 hq).bind fun c hc => .pure ?_
  exact ⟨q, hq, hc.2.2.value⟩

theorem assignRow_placed (h : dot.Installed cs) (q : I18) (vr : ℤ) :
    Placed (dot.assignRow (ε := ε) regionName linksName a b q vr known) := by
  refine (dotRegion_placed h).bind fun cells => Placed.bind ?_ fun links =>
    (assignQuotientRanges_placed h.quotient q vr known).bind fun _ => Placed.linkCells.bind fun _ => .pure
  exact Placed.forEach fun z _ => (LookupRangeCheckConfig.assign_placed h.operands.onA _ _).bind fun _ =>
    (LookupRangeCheckConfig.assign_placed h.operands.onB _ _).bind fun _ => .pure

theorem assignDotRow_placed (h : dot.Installed cs) : Placed (dot.assignDotRow (ε := ε) a b known) :=
  Placed.check.bind fun _ => Placed.check.bind fun _ => Placed.check.bind fun _ =>
    Placed.unwrap.bind fun ⟨q, vr⟩ => assignRow_placed h q vr

theorem assign_placed (h : dot.Installed cs) : Placed (dot.assign a b) :=
  Placed.ensure.bind fun _ => Placed.ensure.bind fun _ => Placed.ofExcept.bind fun ⟨q, vr⟩ =>
    (assignRow_placed h q vr).bind fun _ => .pure

/-- The host conditions under which a dot product row is assigned. -/
def RowFits (dot : DotProductConfig) (a b : List I18) (known : Bool) : Prop :=
  a.length = dot.k ∧ b.length = dot.k ∧ SumsFit a b ∧ (requantizeRaw (dotSum a b)).toOption.isSome ∧
    ¬Negates dot a b known

theorem dotRegion_decides (h : dot.Installed cs) (q : I18) (vr : ℤ) :
    Decides (dot.dotRegion (ε := ε) name a b q vr known) (¬Negates dot a b known) fun _ => True := by
  by_cases hneg : Negates dot a b known
  · exact (Decides.of_fails (dotRegion_fails dot name a b q vr known hneg)).iff (by simp [hneg]) fun _ _ => id
  · exact (Decides.region (dotRegion_lays dot name a b q vr known h.pos hneg)).iff (by simp [hneg])
      fun _ _ => id

theorem assignRow_decides (h : dot.Installed cs) (q : I18) (vr : ℤ) :
    Decides (dot.assignRow (ε := ε) regionName linksName a b q vr known) (¬Negates dot a b known) fun _ => True := by
  refine ((dotRegion_decides h q vr).bind fun cells _ =>
    Decides.bind (c := True) (P := fun _ => True) ?_ fun links _ =>
      (assignQuotientRanges_decides h.quotient q vr known).bind fun _ _ =>
        Decides.linkCells.bind fun _ _ => .pure trivial).iff (by simp) fun _ _ => id
  refine (Decides.forEach (c := fun _ => True) (Q := fun _ _ => True) fun z _ => ?_).iff (by simp) fun _ _ _ => trivial
  exact ((LookupRangeCheckConfig.assign_decides h.operands.onA _ _).bind fun _ _ =>
    (LookupRangeCheckConfig.assign_decides h.operands.onB _ _).bind fun _ _ => .pure trivial).iff
    (by simp) fun _ _ => id

theorem assignDotRow_decides (h : dot.Installed cs) :
    Decides (dot.assignDotRow (ε := ε) a b known) (RowFits dot a b known) fun _ => True :=
  (Decides.check.bind fun _ _ => Decides.check.bind fun _ _ => Decides.check.bind fun _ _ =>
    (Decides.unwrap (P := fun _ => True) fun _ _ => trivial).bind fun ⟨q, vr⟩ _ =>
      assignRow_decides h q vr).iff (by simp [RowFits]) fun _ _ => id

/-- The chip succeeds under the same conditions. -/
theorem assign_decides (h : dot.Installed cs) : Decides (dot.assign a b) (RowFits dot a b true) fun _ => True :=
  (Decides.ensure.bind fun _ _ => Decides.ensure.bind fun _ _ =>
    (Decides.ofExcept (P := fun _ => True) fun _ _ => trivial).bind fun ⟨q, vr⟩ _ =>
      (assignRow_decides h q vr).bind fun _ _ => .pure trivial).iff
    (by simp [RowFits, and_assoc, mapError_eq_ok, Option.isSome_iff_exists, toOption_eq_some]) fun _ _ => id

theorem dotRegion_agree (h : dot.Installed cs) (a' b' : List I18) (q q' : I18) (vr vr' : ℤ) (known' : Bool) :
    Agree (dot.dotRegion (ε := ε) name a b q vr known) (dot.dotRegion (ε := ε) name a' b' q' vr' known') fun c c' =>
      ∃ r, c = dotCells dot a b q vr known r ∧ c' = dotCells dot a' b' q' vr' known' r := by
  by_cases hneg : Negates dot a b known
  · exact .of_fails_left (dotRegion_fails dot name a b q vr known hneg)
  by_cases hneg' : Negates dot a' b' known'
  · exact .of_fails_right (dotRegion_fails dot name a' b' q' vr' known' hneg')
  refine .of_lays (dotRegion_lays dot name a b q vr known h.pos hneg)
    (dotRegion_lays dot name a' b' q' vr' known' h.pos hneg') (fun r => ?_) fun r => ⟨r, rfl, rfl⟩
  simp only [dotEvents, List.map_cons, List.map_append, List.map_flatMap, stepEvents, skeleton]

theorem assignRow_agree (h : dot.Installed cs) {a' b' : List I18} (hla : a.length = dot.k ∧ a'.length = dot.k)
    (hlb : b.length = dot.k ∧ b'.length = dot.k) (q q' : I18) (vr vr' : ℤ) (known' : Bool) :
    Agree (dot.assignRow (ε := ε) regionName linksName a b q vr known)
      (dot.assignRow (ε := ε) regionName linksName a' b' q' vr' known') fun c c' =>
        List.Forall₂ (fun x y => x.cell = y.cell) c.1 c'.1 ∧
        List.Forall₂ (fun x y => x.cell = y.cell) c.2.1 c'.2.1 ∧ c.2.2.cell = c'.2.2.cell := by
  refine (dotRegion_agree h a' b' q q' vr vr' known').bind fun cells cells' ⟨r, hc, hc'⟩ => ?_
  subst hc hc'
  refine (Agree.forEach (R := fun z z' => z.1.aShift.cell = z'.1.aShift.cell ∧
    z.1.bShift.cell = z'.1.bShift.cell) (S := List.Forall₂ fun p p' => p.1.cell = p'.1.cell ∧
    p.2.cell = p'.2.cell) ?_ fun z z' hz => ?_).bind fun links links' hlinks => ?_
  · refine List.forall₂_iff_get.mpr ⟨by simp [dotCells, hla, hlb], fun i hi hi' => ?_⟩
    simp [dotCells, rowAt]
  · refine (LookupRangeCheckConfig.assign_agree h.operands.onA _ _ _ _).bind fun ra ra' hra => ?_
    refine (LookupRangeCheckConfig.assign_agree h.operands.onB _ _ _ _).bind fun rb rb' hrb => ?_
    exact .pure (.cons ⟨hz.1, hra⟩ (.cons ⟨hz.2, hrb⟩ .nil))
  refine (assignQuotientRanges_agree h.quotient q q' vr vr' known known').bind
    fun ⟨qr, rr, sr⟩ ⟨qr', rr', sr'⟩ ⟨hqr, hrr, hsr⟩ => ?_
  refine (Agree.linkCells ?_).bind fun _ _ _ => .pure ⟨?_, ?_, rfl⟩
  · refine List.rel_append (.cons ⟨rfl, hqr⟩ (.cons ⟨rfl, hrr⟩ (.cons ⟨rfl, hsr⟩ .nil))) ?_
    exact List.rel_flatten hlinks
  · simp only [dotCells, List.map_map, List.forall₂_map_left_iff, List.forall₂_map_right_iff]
    exact List.forall₂_same.mpr fun _ _ => rfl
  · simp only [dotCells, List.map_map, List.forall₂_map_left_iff, List.forall₂_map_right_iff]
    exact List.forall₂_same.mpr fun _ _ => rfl

theorem assignDotRow_agree (h : dot.Installed cs) (a' b' : List I18) (known' : Bool) :
    Agree (dot.assignDotRow (ε := ε) a b known) (dot.assignDotRow (ε := ε) a' b' known') fun c c' =>
      List.Forall₂ (fun x y => x.cell = y.cell) c.1 c'.1 ∧
      List.Forall₂ (fun x y => x.cell = y.cell) c.2.1 c'.2.1 ∧ c.2.2.cell = c'.2.2.cell :=
  Agree.check.bind fun _ _ hla => Agree.check.bind fun _ _ hlb => Agree.check.bind fun _ _ _ =>
    (Agree.unwrap (R := fun _ _ => True) fun _ _ _ _ => trivial).bind fun ⟨q, vr⟩ ⟨q', vr'⟩ _ =>
      assignRow_agree h hla hlb q q' vr vr' known'

theorem assign_agree (h : dot.Installed cs) (a' b' : List I18) :
    Agree (dot.assign a b) (dot.assign a' b') fun out out' => out.2.cell = out'.2.cell :=
  Agree.ensure.bind fun _ _ hlen => Agree.ensure.bind fun _ _ _ =>
    (Agree.ofExcept (R := fun _ _ => True) fun _ _ _ _ => trivial).bind fun ⟨q, vr⟩ ⟨q', vr'⟩ _ =>
      (assignRow_agree h ⟨hlen.1.1, hlen.2.1⟩ ⟨hlen.1.2, hlen.2.2⟩ q q' vr vr' true).bind fun _ _ hsame => .pure hsame.2.2

end Row

end DotProductConfig

end Zkie.DotProduct
