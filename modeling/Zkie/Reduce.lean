import Zkie.Rescale

namespace Zkie.Reduce

open ScalarField FixedPoint Plonkish Synthesis Satisfaction HostRun Skeleton Placement RangeCheck Rescale

variable {ε : Type}

structure ReduceSumConfig where
  values : Column
  sum : Column
  sumShift : Column
  sFirst : ℕ
  sRunning : ℕ
  sShift : ℕ
  rangeSum : RangeCheckConfig
  k : ℕ
  deriving DecidableEq, Repr

/-- The running totals after a first total, each addition checked. -/
def sumsFrom : I18 → List I18 → Option (List I18)
  | _, [] => some []
  | total, v :: vs => do
      let next ← checkedAdd total v
      let rest ← sumsFrom next vs
      return next :: rest

/-- `partial_sums`: the first input is taken as it is, the others are added to it. -/
def partialSums : List I18 → Option (List I18)
  | [] => some []
  | v :: vs => (sumsFrom v vs).map (v :: ·)

/-- The host value of the sum. -/
def reduceSum (inputs : List I18) : Option I18 := do
  let sums ← partialSums inputs
  sums.getLast?

theorem sumsFrom_spec {t : I18} {vs ss : List I18} (h : sumsFrom t vs = some ss) :
    ss.length = vs.length ∧ ∀ i < vs.length,
      (ss.getD i default).raw = t.raw + ((vs.take (i + 1)).map I18.raw).sum := by
  induction vs generalizing t ss with
  | nil =>
      cases h
      simp
  | cons v vs ih =>
      simp only [sumsFrom, Option.bind_eq_bind, Option.bind_eq_some_iff, Option.pure_def,
        Option.some.injEq] at h
      obtain ⟨next, hnext, rest, hrest, rfl⟩ := h
      obtain ⟨hlen, hspec⟩ := ih hrest
      have hv := checkedAdd_eq_some.mp hnext
      refine ⟨by rw [List.length_cons, List.length_cons, hlen], fun i hi => ?_⟩
      cases i with
      | zero => simp [hv]
      | succ i =>
          rw [List.getD_cons_succ, hspec i (by simpa using hi), hv]
          simp only [List.take_succ_cons, List.map_cons, List.sum_cons]
          ring

/-- The checked loop computes the sums of the prefixes. -/
theorem partialSums_spec {vs ss : List I18} (h : partialSums vs = some ss) :
    ss.length = vs.length ∧ ∀ i < vs.length,
      (ss.getD i default).raw = ((vs.take (i + 1)).map I18.raw).sum := by
  cases vs with
  | nil =>
      cases h
      simp
  | cons v vs =>
      simp only [partialSums, Option.map_eq_some_iff] at h
      obtain ⟨rest, hrest, rfl⟩ := h
      obtain ⟨hlen, hspec⟩ := sumsFrom_spec hrest
      refine ⟨by rw [List.length_cons, List.length_cons, hlen], fun i hi => ?_⟩
      cases i with
      | zero => simp
      | succ i =>
          rw [List.getD_cons_succ, hspec i (by simpa using hi)]
          simp only [List.take_succ_cons, List.map_cons, List.sum_cons]

theorem prefix_succ (vs : List I18) {i : ℕ} (hi : i < vs.length) :
    ((vs.take (i + 1)).map I18.raw).sum = ((vs.take i).map I18.raw).sum + (vs.getD i default).raw := by
  rw [List.take_add_one, List.map_append, List.sum_append, List.getD_eq_getElem?_getD,
    List.getElem?_eq_getElem hi]
  simp

theorem partialSums_last {vs ss : List I18} {total : I18} (h : partialSums vs = some ss)
    (hlast : ss.getLast? = some total) :
    ss.getD (vs.length - 1) default = total ∧ total.raw = (vs.map I18.raw).sum := by
  obtain ⟨hlen, hspec⟩ := partialSums_spec h
  have hpos : 0 < vs.length := by
    rw [← hlen]
    cases ss with
    | nil => cases hlast
    | cons => simp
  have htotal : ss.getD (vs.length - 1) default = total := by
    rw [List.getLast?_eq_getElem?] at hlast
    rw [List.getD_eq_getElem?_getD, ← hlen, hlast, Option.getD_some]
  refine ⟨htotal, ?_⟩
  rw [← htotal, hspec _ (by omega), show vs.length - 1 + 1 = vs.length by omega, List.take_length]

/-- The checked sum of nonnegative values only depends on the total. -/
theorem sumsFrom_isSome {t : I18} {vs : List I18} (hv : ∀ v ∈ vs, 0 ≤ v.raw)
    (ht : -signedShift ≤ t.raw) (hsum : t.raw + (vs.map I18.raw).sum < signedShift) :
    (sumsFrom t vs).isSome := by
  induction vs generalizing t with
  | nil => rfl
  | cons v vs ih =>
      obtain ⟨hhead, htail⟩ := List.forall_mem_cons.mp hv
      have hnonneg : 0 ≤ (vs.map I18.raw).sum := List.sum_nonneg (by simpa using htail)
      rw [List.map_cons, List.sum_cons] at hsum
      obtain ⟨next, hnext⟩ : ∃ next, checkedAdd t v = some next :=
        Option.isSome_iff_exists.mp (ofInt?_isSome.mpr ⟨by omega, by omega⟩)
      have hraw := checkedAdd_eq_some.mp hnext
      obtain ⟨rest, hrest⟩ := Option.isSome_iff_exists.mp
        (ih htail (by omega) (by omega : next.raw + _ < _))
      simp [sumsFrom, hnext, hrest]

theorem reduceSum_of_nonneg {vs : List I18} {total : I18} (hpos : 0 < vs.length) (hv : ∀ v ∈ vs, 0 ≤ v.raw)
    (htotal : total.raw = (vs.map I18.raw).sum) : reduceSum vs = some total := by
  cases vs with
  | nil => simp at hpos
  | cons v vs =>
      have hu := total.upper
      rw [htotal, List.map_cons, List.sum_cons] at hu
      obtain ⟨rest, hrest⟩ := Option.isSome_iff_exists.mp
        (sumsFrom_isSome (fun v hv' => hv v (List.mem_cons_of_mem _ hv')) v.lower hu)
      have hsums : partialSums (v :: vs) = some (v :: rest) := by rw [partialSums, hrest, Option.map_some]
      obtain ⟨last, hlast⟩ := Option.isSome_iff_exists.mp
        (by simp : ((v :: rest).getLast?).isSome)
      have hraw := (partialSums_last hsums hlast).2
      have heq : last = total := I18.ext (hraw.trans htotal.symm)
      simp [reduceSum, hsums, ← heq, hlast]

namespace ReduceSumConfig

def firstGate (values sum : Column) : List (Expression Fr) := [.query sum 0 - .query values 0]

def runningGate (values sum : Column) : List (Expression Fr) :=
  [.query sum (-1) + .query values 0 - .query sum 0]

def shiftGate (sum sumShift : Column) : List (Expression Fr) :=
  [.query sumShift 0 - .query sum 0 - .constant (i128ToFr signedShift)]

def configure (values sum sumShift bits : Column) (k : UInt64) : Configure Fr ReduceSumConfig := do
  assertThat (1 ≤ k.toNat) "ReduceSumChip requires at least one input"
  enableEquality values
  enableEquality sum
  enableEquality sumShift
  let sFirst ← selector
  createGate "reduce sum base case" sFirst (firstGate values sum)
  let sRunning ← selector
  createGate "reduce sum running total" sRunning (runningGate values sum)
  let sShift ← selector
  createGate "reduce sum shift for range check" sShift (shiftGate sum sumShift)
  let rangeSum ← RangeCheckConfig.configure sumShift bits 64
  return { values, sum, sumShift, sFirst, sRunning, sShift, rangeSum, k := k.toNat }

structure SumCells where
  sum : AssignedCell Fr
  sumShift : AssignedCell Fr
  values : List (AssignedCell Fr)

def assignStep (config : ReduceSumConfig) (region i : ℕ) (v s : I18) (known : Bool) :
    Synth Fr ε (AssignedCell Fr) := do
  let valueCell ← Synth.assignAdvice region config.values i (witness known (i64ToFr v))
  Synth.enable (if i = 0 then config.sFirst else config.sRunning) region i
  let _ ← Synth.assignAdvice region config.sum i (witness known (i64ToFr s))
  return valueCell

/-- The running sum, with the cell of the last total. -/
def sumRegion (config : ReduceSumConfig) (inputs sums : List I18) (total : I18) (known : Bool) :
    Synth Fr ε SumCells :=
  Synth.assignRegion "reduce sum" fun region => do
    let valueCells ← Synth.forEach (fun i => config.assignStep region i (inputs.getD i default)
      (sums.getD i default) known) (List.range inputs.length)
    let last := inputs.length - 1
    Synth.enable config.sShift region last
    let sumShift ← Synth.assignAdvice region config.sumShift last (witness known (i128ToFr (shiftedRaw total)))
    return ⟨⟨⟨region, config.sum, last⟩, witness known (i64ToFr (sums.getD last default))⟩, sumShift,
      valueCells⟩

def assign (config : ReduceSumConfig) (inputs : List I18) (known : Bool) :
    Synth Fr ε (I18 × AssignedCell Fr × List (AssignedCell Fr)) := do
  Synth.check (inputs.length = config.k) "ReduceSumChip configured for another number of inputs"
  let sums ← Synth.unwrap "I18 reduce sum overflow" (partialSums inputs)
  let total ← Synth.unwrap "k >= 1 guarantees a last element" sums.getLast?
  let cells ← config.sumRegion inputs sums total known
  let rangeCell ← config.rangeSum.assign (witness known (i128ToFr (shiftedRaw total)))
    (witness known (shiftedRaw total))
  Synth.linkCells "reduce sum range check link" [(cells.sumShift, rangeCell)]
  return (total, cells.sum, cells.values)

structure Installed (config : ReduceSumConfig) (cs : ConstraintSystem Fr) : Prop where
  first : ⟨"reduce sum base case", config.sFirst, firstGate config.values config.sum⟩ ∈ cs.gates
  running : ⟨"reduce sum running total", config.sRunning, runningGate config.values config.sum⟩ ∈ cs.gates
  shift : ⟨"reduce sum shift for range check", config.sShift, shiftGate config.sum config.sumShift⟩ ∈ cs.gates
  range : config.rangeSum.Installed cs
  value : config.rangeSum.value = config.sumShift
  width : config.rangeSum.nBits = 64
  equality : config.values ∈ cs.equality ∧ config.sum ∈ cs.equality ∧ config.sumShift ∈ cs.equality
  nodup : [config.values, config.sum, config.sumShift].Nodup
  pos : 0 < config.k
  bounded : config.k < 2 ^ 64

variable {config : ReduceSumConfig} {cs cs' : ConstraintSystem Fr} {T : List ℕ → List Fr → Prop}
  {A : Assignment Fr}

theorem Installed.mono (h : config.Installed cs) (hle : cs.Extends cs') : config.Installed cs' where
  first := hle.gates h.first
  running := hle.gates h.running
  shift := hle.gates h.shift
  range := h.range.mono hle
  value := h.value
  width := h.width
  equality := ⟨hle.equality h.equality.1, hle.equality h.equality.2.1, hle.equality h.equality.2.2⟩
  nodup := h.nodup
  pos := h.pos
  bounded := h.bounded

theorem configure_adds (values sum sumShift bits : Column) (k : UInt64) (L : List (List ℕ × List Fr)) :
    Adds L (configure values sum sumShift bits k) fun _ => L := by
  refine Adds.assertThat.bind fun _ => ?_
  rintro cs config cs' h rfl
  cases h
  rfl

theorem configure_installed {values sum sumShift bits : Column} {k : UInt64}
    (hnd : [values, sum, sumShift].Nodup) (hbits : bits ≠ sumShift) :
    Configures (configure values sum sumShift bits k) cs fun config cs' =>
      config.Installed cs' ∧ config.k = k.toNat ∧ config.sum = sum ∧ config.values = values := by
  refine Configures.assertThat.bind fun _ cs₀ _ hpos => ?_
  refine (Configures.enableEquality values).bind fun _ cs₁ _ hv => ?_
  refine (Configures.enableEquality sum).bind fun _ cs₂ h₂ hs => ?_
  refine (Configures.enableEquality sumShift).bind fun _ cs₃ h₃ hss => ?_
  refine Configures.gate _ _ fun cs₄ h₄ hfirst => ?_
  refine Configures.gate _ _ fun cs₅ h₅ hrunning => ?_
  refine Configures.gate _ _ fun cs₆ h₆ hshift => ?_
  refine (RangeCheckConfig.configure_installed hbits (by norm_num) (by decide)).bind fun range cs₇ h₇ hrange => ?_
  have t₅ := h₆.trans h₇
  have t₄ := h₅.trans t₅
  have t₃ := h₄.trans t₄
  exact Configures.pure ⟨⟨t₄.gates hfirst, t₅.gates hrunning, h₇.gates hshift, hrange.1, hrange.2.1, hrange.2.2,
    ⟨(h₂.trans (h₃.trans t₃)).equality hv, (h₃.trans t₃).equality hs, t₃.equality hss⟩, hnd, hpos,
    k.toNat_lt⟩, rfl, rfl, rfl⟩

section Region

variable (config) (inputs sums : List I18) (total : I18) (known : Bool)

def valueAt (region i : ℕ) : AssignedCell Fr :=
  ⟨⟨region, config.values, i⟩, witness known (i64ToFr (inputs.getD i default))⟩

def sumCells (region : ℕ) : SumCells where
  sum := ⟨⟨region, config.sum, (inputs.length - 1 : ℕ)⟩,
    witness known (i64ToFr (sums.getD (inputs.length - 1) default))⟩
  sumShift := ⟨⟨region, config.sumShift, (inputs.length - 1 : ℕ)⟩, witness known (i128ToFr (shiftedRaw total))⟩
  values := (List.range inputs.length).map (valueAt config inputs known region)

def stepEvents (region i : ℕ) : List (Event Fr) :=
  [.advice ⟨region, config.values, i⟩ (witness known (i64ToFr (inputs.getD i default))),
    .enable (if i = 0 then config.sFirst else config.sRunning) region i,
    .advice ⟨region, config.sum, i⟩ (witness known (i64ToFr (sums.getD i default)))]

def sumEvents (region : ℕ) : List (Event Fr) :=
  .region "reduce sum" region ::
    ((List.range inputs.length).flatMap (stepEvents config inputs sums known region) ++
      [.enable config.sShift region (inputs.length - 1 : ℕ),
        .advice ⟨region, config.sumShift, (inputs.length - 1 : ℕ)⟩
          (witness known (i128ToFr (shiftedRaw total)))])

theorem sumRegion_lays : Lays (config.sumRegion (ε := ε) inputs sums total known)
    (sumCells config inputs sums total known) (sumEvents config inputs sums total known) := by
  refine Emits.lays _ fun r => ?_
  exact Emits.bind (Emits.forEach (g := valueAt config inputs known r)
    (e := stepEvents config inputs sums known r) fun i _ _ => rfl) fun _ => rfl

variable {config inputs sums total known}

theorem mem_sumEvents_step {region i : ℕ} (hi : i < inputs.length) {e : Event Fr}
    (he : e ∈ stepEvents config inputs sums known region i) :
    e ∈ sumEvents config inputs sums total known region :=
  List.mem_cons_of_mem _ (List.mem_append_left _ (List.mem_flatMap.mpr ⟨i, by simpa using hi, he⟩))

theorem cellsOf_sumEvents (region : ℕ) : cellsOf (sumEvents config inputs sums total known region) =
    (List.range inputs.length).flatMap (fun i : ℕ =>
      [config.values, config.sum].map fun c => (⟨region, c, i⟩ : Cell)) ++
      [⟨region, config.sumShift, (inputs.length - 1 : ℕ)⟩] := by
  simp only [cellsOf, sumEvents, List.filterMap_cons, List.filterMap_append, List.filterMap_flatMap,
    written, List.filterMap_nil, stepEvents, List.map_cons, List.map_nil]

theorem sumRegion_placed (h : config.Installed cs) :
    Placed (config.sumRegion (ε := ε) inputs sums total known) := by
  have hnd := h.nodup
  simp only [List.nodup_cons, List.mem_cons, List.not_mem_nil, or_false, not_or, not_false_eq_true,
    List.nodup_nil, and_true] at hnd
  refine .of_lays (sumRegion_lays config inputs sums total known) (fun r c hc => ?_) (fun r => ?_) fun r e he => ?_
  · rw [cellsOf_sumEvents, List.mem_append, List.mem_flatMap, List.mem_singleton] at hc
    rcases hc with ⟨i, -, hc⟩ | rfl
    · obtain ⟨column, -, rfl⟩ := List.mem_map.mp hc
      rfl
    · rfl
  · rw [cellsOf_sumEvents]
    refine List.Nodup.append (List.nodup_flatMap.mpr ⟨fun i _ => ?_, ?_⟩) (List.nodup_singleton _) ?_
    · refine List.Nodup.map (fun c c' hc => (Cell.mk.inj hc).2.1) ?_
      simp [hnd.1.1]
    · refine List.nodup_range.imp fun hij c hc hc' => hij ?_
      obtain ⟨_, -, rfl⟩ := List.mem_map.mp hc
      obtain ⟨_, -, heq⟩ := List.mem_map.mp hc'
      have := (Cell.mk.inj heq).2.2
      omega
    · intro c hc hc'
      obtain ⟨i, -, hc⟩ := List.mem_flatMap.mp hc
      obtain ⟨c₁, h₁, rfl⟩ := List.mem_map.mp hc
      have hcol := (Cell.mk.inj (List.mem_singleton.mp hc')).2.1
      simp only [List.mem_cons, List.not_mem_nil, or_false] at h₁
      rcases h₁ with rfl | rfl <;> simp_all
  · simp only [sumEvents, List.mem_cons, List.mem_append, List.mem_flatMap, stepEvents, List.not_mem_nil,
      or_false] at he
    obtain rfl | ⟨i, -, rfl | rfl | rfl⟩ | rfl | rfl := he <;> trivial

end Region

section Gates

theorem holds_first (hwf : cs.WellFormed) (h : config.Installed cs) (r : ℕ) (o : ℤ) :
    Holds cs T A (.enable config.sFirst r o) ↔
      A.cell ⟨r, config.sum, o⟩ - A.cell ⟨r, config.values, o⟩ = 0 := by
  rw [holds_gate hwf h.first]
  simp [firstGate, Assignment.row]

theorem holds_running (hwf : cs.WellFormed) (h : config.Installed cs) (r : ℕ) (o : ℤ) :
    Holds cs T A (.enable config.sRunning r o) ↔
      A.cell ⟨r, config.sum, o - 1⟩ + A.cell ⟨r, config.values, o⟩ - A.cell ⟨r, config.sum, o⟩ = 0 := by
  rw [holds_gate hwf h.running]
  simp [runningGate, Assignment.row, sub_eq_add_neg]

theorem holds_shift (hwf : cs.WellFormed) (h : config.Installed cs) (r : ℕ) (o : ℤ) :
    Holds cs T A (.enable config.sShift r o) ↔
      A.cell ⟨r, config.sumShift, o⟩ - A.cell ⟨r, config.sum, o⟩ - i128ToFr signedShift = 0 := by
  rw [holds_gate hwf h.shift]
  simp [shiftGate, Assignment.row]

variable {inputs : List I18} {known : Bool}

/-- The running sum gates add up the value cells, whatever they hold. -/
theorem running_sum (hwf : cs.WellFormed) (h : config.Installed cs) {sums : List I18} {r : ℕ} {n : ℕ}
    (hstep : ∀ i < n, ∀ e ∈ stepEvents config inputs sums known r i, Holds cs T A e) (i : ℕ) (hi : i < n) :
    A.cell ⟨r, config.sum, i⟩ = ((List.range (i + 1)).map fun j : ℕ => A.cell ⟨r, config.values, j⟩).sum := by
  induction i with
  | zero =>
      have hfirst := (holds_first hwf h r 0).mp (hstep 0 hi _ (by simp [stepEvents]))
      simpa [List.range_succ] using sub_eq_zero.mp hfirst
  | succ i ih =>
      have hrunning := (holds_running hwf h r (i + 1 : ℕ)).mp (hstep (i + 1) hi _ (by simp [stepEvents]))
      rw [show ((i + 1 : ℕ) : ℤ) - 1 = (i : ℤ) by omega, ih (by omega)] at hrunning
      rw [List.range_succ, List.map_append, List.sum_append, List.map_singleton, List.sum_singleton]
      linear_combination -hrunning

theorem assign_sound (hwf : cs.WellFormed) (h : config.Installed cs) :
    Sound cs T A (config.assign (ε := ε) inputs known) fun c =>
      A.cell c.2.1.cell = (c.2.2.map fun v => A.cell v.cell).sum ∧
        (∃ z : I18, A.cell c.2.1.cell = (z.raw : Fr)) ∧ c.2.2.length = config.k := by
  have hpos := h.pos
  refine Triple.check.bind fun _ hlen => ?_
  refine Triple.bind (.unwrap (Q := fun _ => True) fun _ _ => trivial) fun sums _ => ?_
  refine Triple.bind (.unwrap (Q := fun _ => True) fun _ _ => trivial) fun total _ => ?_
  refine Triple.bind (Q := fun cells =>
    A.cell cells.sum.cell = (cells.values.map fun v => A.cell v.cell).sum ∧
    A.cell cells.sumShift.cell - A.cell cells.sum.cell - i128ToFr signedShift = 0 ∧
    cells.values.length = config.k) ?_ fun cells ⟨hsum, hshift, hk⟩ => ?_
  · refine .of_lays (sumRegion_lays config inputs sums total known) fun r hr => ⟨fun _ _ => trivial, ?_, ?_, ?_⟩
    · have hrun := running_sum hwf h (n := inputs.length)
        (fun i hi e he => hr e (mem_sumEvents_step hi he)) (inputs.length - 1) (by omega)
      rw [show inputs.length - 1 + 1 = inputs.length by omega] at hrun
      simp only [sumCells, List.map_map]
      exact hrun
    · exact (holds_shift hwf h r _).mp (hr _ (by simp [sumEvents]))
    · simp [sumCells, hlen]
  refine (RangeCheckConfig.assign_sound hwf h.range _ _).bind fun range hrange => ?_
  refine Sound.linkCells.bind fun _ hlinks => .pure ⟨hsum, ?_, hk⟩
  rw [h.width] at hrange
  exact exists_operand hrange (hlinks _ (List.mem_singleton_self _)) hshift

theorem assign_complete (hwf : cs.WellFormed) (h : config.Installed cs) :
    Complete cs T A (config.assign (ε := ε) inputs true) fun c =>
      c.1.raw = (inputs.map I18.raw).sum ∧ A.Has c.2.1 config.sum (c.1.raw : Fr) ∧
        List.Forall₂ (fun c (v : I18) => A.Has c config.values (v.raw : Fr)) c.2.2 inputs := by
  have hpos := h.pos
  refine Triple.check.bind fun _ hlen => ?_
  refine Triple.bind (.unwrap fun _ => id) fun sums hsums => ?_
  refine Triple.bind (.unwrap fun _ => id) fun total htotal => ?_
  obtain ⟨-, hprefix⟩ := partialSums_spec hsums
  obtain ⟨hlast, hraw⟩ := partialSums_last hsums htotal
  refine Triple.bind (Q := fun cells => A.Has cells.sum config.sum (total.raw : Fr) ∧
    A.Has cells.sumShift config.sumShift (shiftedRaw total : Fr) ∧
    List.Forall₂ (fun c (v : I18) => A.Has c config.values (v.raw : Fr)) cells.values inputs) ?_
    fun cells ⟨hsum, hshift, hvalues⟩ => ?_
  · refine .of_lays (sumRegion_lays config inputs sums total true) fun r hr => ?_
    have hrow : ∀ i < inputs.length, A.cell ⟨r, config.values, i⟩ = ((inputs.getD i default).raw : Fr) ∧
        A.cell ⟨r, config.sum, i⟩ = ((sums.getD i default).raw : Fr) := fun i hi => by
      have hstep : ∀ e ∈ stepEvents config inputs sums true r i, Witnessed A e := fun e he =>
        hr e (mem_sumEvents_step hi he)
      simpa only [stepEvents, List.forall_mem_cons, List.not_mem_nil, false_implies, implies_true, and_true,
        Witnessed, witness, if_true, i64ToFr_cast, true_and] using hstep
    have hlastSum := (hrow (inputs.length - 1) (by omega)).2
    rw [hlast] at hlastSum
    have hshift : A.cell ⟨r, config.sumShift, (inputs.length - 1 : ℕ)⟩ = (shiftedRaw total : Fr) := by
      have := hr (.advice ⟨r, config.sumShift, (inputs.length - 1 : ℕ)⟩
        (witness true (i128ToFr (shiftedRaw total)))) (by simp [sumEvents])
      simpa only [Witnessed, witness, if_true, i128ToFr_cast] using this
    refine ⟨fun e he => ?_, ⟨rfl, hlastSum⟩, ⟨rfl, hshift⟩, ?_⟩
    · simp only [sumEvents, List.mem_cons, List.mem_append, List.mem_flatMap, List.mem_range, stepEvents,
        List.not_mem_nil, or_false] at he
      obtain rfl | ⟨i, hi, rfl | rfl | rfl⟩ | rfl | rfl := he
      · trivial
      · trivial
      · obtain ⟨hv, hs⟩ := hrow i hi
        cases i with
        | zero =>
            rw [if_pos rfl, holds_first hwf h, hv, hs, hprefix 0 hi]
            cases inputs with
            | nil => simp at hi
            | cons => simp
        | succ i =>
            have hprev := (hrow i (by omega)).2
            rw [if_neg (by omega), holds_running hwf h, show ((i + 1 : ℕ) : ℤ) - 1 = (i : ℤ) by omega, hv, hs,
              hprev, hprefix _ hi, hprefix i (by omega), prefix_succ inputs hi]
            push_cast
            ring
      · trivial
      · rw [holds_shift hwf h, hshift, hlastSum]
        exact shift_zero total
      · trivial
    · refine List.forall₂_iff_get.mpr ⟨by simp [sumCells], fun i hi hi' => ?_⟩
      have hi'' : i < inputs.length := hi'
      have hv := (hrow i hi'').1
      rw [List.getD_eq_getElem?_getD, List.getElem?_eq_getElem hi''] at hv
      simp only [sumCells, List.get_eq_getElem, List.getElem_map, List.getElem_range]
      exact ⟨rfl, hv⟩
  obtain ⟨v, hv, hv64⟩ := shiftedRaw_range total
  refine (RangeCheckConfig.assign_complete hwf h.range (by omega) (by rw [h.width]; omega)).bind
    fun range hrange => ?_
  rw [h.value] at hrange
  refine (Complete.linkCells ?_).bind fun _ _ => .pure ⟨hraw, hsum, hvalues⟩
  simp only [List.forall_mem_cons, List.not_mem_nil, false_implies, implies_true, and_true]
  exact hshift.link hrange h.equality.2.2 h.equality.2.2

theorem assign_placed (h : config.Installed cs) : Placed (config.assign (ε := ε) inputs known) :=
  Placed.check.bind fun _ => Placed.unwrap.bind fun _ => Placed.unwrap.bind fun _ =>
    (sumRegion_placed h).bind fun _ => (RangeCheckConfig.assign_placed h.range _ _).bind fun _ =>
      Placed.linkCells.bind fun _ => .pure

theorem assign_decides (h : config.Installed cs) :
    Decides (config.assign (ε := ε) inputs known)
      (inputs.length = config.k ∧ (reduceSum inputs).isSome) fun c => reduceSum inputs = some c.1 := by
  refine Decides.iff (P := fun c => reduceSum inputs = some c.1)
    (c := inputs.length = config.k ∧ ∃ sums, partialSums inputs = some sums ∧
      ∃ total, sums.getLast? = some total ∧ True ∧ True ∧ True ∧ True) ?_ ?_ fun _ _ => id
  · refine Decides.check.bind fun _ _ => Decides.unwrap_bind fun sums hsums =>
      Decides.unwrap_bind fun total htotal =>
        (Decides.region (sumRegion_lays config inputs sums total known)).bind fun _ _ =>
          (RangeCheckConfig.assign_decides h.range _ _).bind fun _ _ =>
            Decides.linkCells.bind fun _ _ => .pure ?_
    rw [reduceSum, hsums]
    exact htotal
  · rw [reduceSum, Option.isSome_iff_exists]
    simp only [Option.bind_eq_bind, Option.bind_eq_some_iff, and_true]
    refine and_congr_right fun _ => ?_
    exact ⟨fun ⟨s, hs, t, ht⟩ => ⟨t, s, hs, ht⟩, fun ⟨t, s, hs, ht⟩ => ⟨s, hs, t, ht⟩⟩

theorem assign_agree (h : config.Installed cs) (inputs' : List I18) (known' : Bool) :
    Agree (config.assign (ε := ε) inputs known) (config.assign (ε := ε) inputs' known') fun c c' =>
      c.2.1.cell = c'.2.1.cell ∧ List.Forall₂ (fun x y => x.cell = y.cell) c.2.2 c'.2.2 := by
  refine Agree.check.bind fun _ _ hlen => ?_
  refine (Agree.unwrap (R := fun _ _ => True) fun _ _ _ _ => trivial).bind fun sums sums' _ => ?_
  refine (Agree.unwrap (R := fun _ _ => True) fun _ _ _ _ => trivial).bind fun total total' _ => ?_
  have hlens : inputs.length = inputs'.length := hlen.1.trans hlen.2.symm
  refine (Agree.of_lays (sumRegion_lays config inputs sums total known)
    (sumRegion_lays config inputs' sums' total' known') (R := fun c c' => c.sum.cell = c'.sum.cell ∧
      c.sumShift.cell = c'.sumShift.cell ∧ List.Forall₂ (fun x y => x.cell = y.cell) c.values c'.values)
    (fun r => ?_) fun r => ?_).bind fun cells cells' ⟨hsum, hshift, hvalues⟩ => ?_
  · simp only [sumEvents, hlens, List.map_cons, List.map_append, List.map_flatMap, stepEvents, skeleton]
  · simp only [sumCells, hlens, true_and, List.forall₂_map_left_iff, List.forall₂_map_right_iff]
    exact List.forall₂_same.mpr fun _ _ => rfl
  refine (RangeCheckConfig.assign_agree h.range _ _ _ _).bind fun range range' hrange => ?_
  exact (Agree.linkCells (.cons ⟨hshift, hrange⟩ .nil)).bind fun _ _ _ => .pure ⟨hsum, hvalues⟩

end Gates

end ReduceSumConfig

structure ReduceMeanConfig where
  sum : ReduceSumConfig
  q : Column
  r : Column
  slack : Column
  sRescale : ℕ
  sSlack : ℕ
  rangeQ : RangeCheckConfig
  rangeR : RangeCheckConfig
  rangeRSlack : RangeCheckConfig
  reciprocal : I18
  deriving DecidableEq, Repr

/-- The host value of the mean: the sum times the fixed-point reciprocal of the length. -/
def reduceMean (reciprocal : I18) (inputs : List I18) : Option I18 := do
  let sum ← reduceSum inputs
  let (mean, _) ← (requantizeMul sum reciprocal).toOption
  return mean

namespace ReduceMeanConfig

def rescaleGate (sum q r : Column) (reciprocal : I18) : List (Expression Fr) :=
  [rescaleConstraint (.query sum 0 * .constant (i64ToFr reciprocal)) q r]

/-- The reciprocal is `I18::from_f64(1.0 / k)`, given as a constant. -/
def configure (values sum sumShift q r slack bits : Column) (k : UInt64) (reciprocal : Option I18) :
    Configure Fr ReduceMeanConfig := do
  let sumConfig ← ReduceSumConfig.configure values sum sumShift bits k
  enableEquality q
  enableEquality r
  enableEquality slack
  let reciprocal ← require "1/k must be representable as an I18 fixed-point value" reciprocal
  let sRescale ← selector
  createGate "mean rescale (shifted q)" sRescale (rescaleGate sum q r reciprocal)
  let sSlack ← selector
  createGate "mean slack equals bound minus remainder" sSlack [slackConstraint r slack]
  let rangeQ ← RangeCheckConfig.configure q bits 64
  let rangeR ← RangeCheckConfig.configure r bits remainderBits
  let rangeRSlack ← RangeCheckConfig.configure slack bits remainderBits
  return { sum := sumConfig, q, r, slack, sRescale, sSlack, rangeQ, rangeR, rangeRSlack, reciprocal }

structure MeanCells where
  sum : AssignedCell Fr
  q : AssignedCell Fr
  r : AssignedCell Fr
  slack : AssignedCell Fr

def rescaleRegion (config : ReduceMeanConfig) (sum mean : I18) (r : ℤ) (known : Bool) :
    Synth Fr ε MeanCells :=
  Synth.assignRegion "mean rescale" fun region => do
    Synth.enable config.sRescale region 0
    Synth.enable config.sSlack region 0
    let sumCell ← Synth.assignAdvice region config.sum.sum 0 (witness known (i64ToFr sum))
    let qCell ← Synth.assignAdvice region config.q 0 (witness known (i128ToFr (shiftedRaw mean)))
    let rCell ← Synth.assignAdvice region config.r 0 (witness known (i128ToFr r))
    let slackCell ← Synth.assignAdvice region config.slack 0 (witness known (i128ToFr (scale18 - 1 - r)))
    return ⟨sumCell, qCell, rCell, slackCell⟩

def assign (config : ReduceMeanConfig) (inputs : List I18) (known : Bool) :
    Synth Fr ε (I18 × AssignedCell Fr × List (AssignedCell Fr)) := do
  let (sum, sumCell, valueCells) ← config.sum.assign inputs known
  let (mean, r) ← Synth.unwrap "I18 mean rescale overflow" (requantizeMul sum config.reciprocal).toOption
  let cells ← config.rescaleRegion sum mean r known
  let (qRange, rRange, slackRange) ←
    assignQuotientRanges config.rangeQ config.rangeR config.rangeRSlack mean r known
  Synth.linkCells "mean range check links"
    [(cells.sum, sumCell), (cells.q, qRange), (cells.r, rRange), (cells.slack, slackRange)]
  return (mean, cells.q, valueCells)

structure Installed (config : ReduceMeanConfig) (cs : ConstraintSystem Fr) : Prop where
  sum : config.sum.Installed cs
  rescale : ⟨"mean rescale (shifted q)", config.sRescale,
    rescaleGate config.sum.sum config.q config.r config.reciprocal⟩ ∈ cs.gates
  slackGate : ⟨"mean slack equals bound minus remainder", config.sSlack,
    [slackConstraint config.r config.slack]⟩ ∈ cs.gates
  quotient : QuotientInstalled config.rangeQ config.rangeR config.rangeRSlack config.q config.r config.slack cs
  equality : config.q ∈ cs.equality ∧ config.r ∈ cs.equality ∧ config.slack ∈ cs.equality
  nodup : [config.sum.sum, config.q, config.r, config.slack].Nodup

variable {config : ReduceMeanConfig} {cs cs' : ConstraintSystem Fr} {T : List ℕ → List Fr → Prop}
  {A : Assignment Fr} {inputs : List I18} {known : Bool}

theorem Installed.mono (h : config.Installed cs) (hle : cs.Extends cs') : config.Installed cs' where
  sum := h.sum.mono hle
  rescale := hle.gates h.rescale
  slackGate := hle.gates h.slackGate
  quotient := h.quotient.mono hle
  equality := ⟨hle.equality h.equality.1, hle.equality h.equality.2.1, hle.equality h.equality.2.2⟩
  nodup := h.nodup

theorem configure_adds (values sum sumShift q r slack bits : Column) (k : UInt64) (reciprocal : Option I18)
    (L : List (List ℕ × List Fr)) :
    Adds L (configure values sum sumShift q r slack bits k reciprocal) fun _ => L := by
  refine (ReduceSumConfig.configure_adds values sum sumShift bits k L).bind fun _ => ?_
  rintro cs config cs' h rfl
  cases reciprocal with
  | none => cases h
  | some v => cases h; rfl

theorem configure_installed {values sum sumShift q r slack bits : Column} {k : UInt64}
    {reciprocal : Option I18} (hnd : [bits, values, sum, sumShift, q, r, slack].Nodup) :
    Configures (configure values sum sumShift q r slack bits k reciprocal) cs fun config cs' =>
      config.Installed cs' ∧ config.sum.k = k.toNat ∧ config.q = q ∧ reciprocal = some config.reciprocal ∧
        config.sum.values = values := by
  simp only [List.nodup_cons, List.mem_cons, List.not_mem_nil, or_false, not_or, not_false_eq_true,
    List.nodup_nil, and_true] at hnd
  refine (ReduceSumConfig.configure_installed (by simp; tauto) (by tauto)).bind
    fun sumConfig cs₁ _ ⟨hsum, hk, hsumCol, hvalCol⟩ => ?_
  refine (Configures.enableEquality q).bind fun _ cs₂ h₂ hq => ?_
  refine (Configures.enableEquality r).bind fun _ cs₃ h₃ hr => ?_
  refine (Configures.enableEquality slack).bind fun _ cs₄ h₄ hs => ?_
  refine Configures.require.bind fun recip cs₅ h₅ hrecip => ?_
  refine Configures.gate _ _ fun cs₆ h₆ hrescale => ?_
  refine Configures.gate _ _ fun cs₇ h₇ hslack => ?_
  refine (RangeCheckConfig.configure_installed (by tauto) (by norm_num) (by decide)).bind fun rq cs₈ h₈ hrq => ?_
  refine (RangeCheckConfig.configure_installed (by tauto) (by norm_num [remainderBits]) (by decide)).bind
    fun rr cs₉ h₉ hrr => ?_
  refine (RangeCheckConfig.configure_installed (by tauto) (by norm_num [remainderBits]) (by decide)).bind
    fun rs cs₁₀ h₁₀ hrs => ?_
  have t₈ := h₉.trans h₁₀
  have t₇ := h₈.trans t₈
  have t₄ := (h₅.trans h₆).trans (h₇.trans t₇)
  have t₁ := (h₂.trans h₃).trans (h₄.trans t₄)
  subst hsumCol
  refine Configures.pure ⟨⟨hsum.mono t₁, (h₇.trans t₇).gates hrescale, t₇.gates hslack, ?_, ?_, ?_⟩, hk, rfl,
    hrecip, hvalCol⟩
  · exact ⟨⟨hrq.2.1, hrr.2.1, hrs.2.1⟩, ⟨hrq.2.2, hrr.2.2, hrs.2.2⟩, hrq.1.mono t₈, hrr.1.mono h₁₀, hrs.1⟩
  · exact ⟨(h₃.trans (h₄.trans t₄)).equality hq, (h₄.trans t₄).equality hr, t₄.equality hs⟩
  · simp
    tauto

theorem rescaleRegion_lays (sum mean : I18) (r : ℤ) :
    Lays (config.rescaleRegion (ε := ε) sum mean r known)
      (fun n => ⟨⟨⟨n, config.sum.sum, 0⟩, witness known (i64ToFr sum)⟩,
        ⟨⟨n, config.q, 0⟩, witness known (i128ToFr (shiftedRaw mean))⟩,
        ⟨⟨n, config.r, 0⟩, witness known (i128ToFr r)⟩,
        ⟨⟨n, config.slack, 0⟩, witness known (i128ToFr (scale18 - 1 - r))⟩⟩)
      fun n => [.region "mean rescale" n, .enable config.sRescale n 0, .enable config.sSlack n 0,
        .advice ⟨n, config.sum.sum, 0⟩ (witness known (i64ToFr sum)),
        .advice ⟨n, config.q, 0⟩ (witness known (i128ToFr (shiftedRaw mean))),
        .advice ⟨n, config.r, 0⟩ (witness known (i128ToFr r)),
        .advice ⟨n, config.slack, 0⟩ (witness known (i128ToFr (scale18 - 1 - r)))] :=
  Emits.lays _ fun _ _ => rfl

theorem holds_rescale (hwf : cs.WellFormed) (h : config.Installed cs) (r : ℕ) :
    Holds cs T A (.enable config.sRescale r 0) ↔
      A.cell ⟨r, config.sum.sum, 0⟩ * i64ToFr config.reciprocal - (A.cell ⟨r, config.q, 0⟩ * i128ToFr scale18 -
        i128ToFr (signedShift * scale18)) - A.cell ⟨r, config.r, 0⟩ = 0 := by
  rw [holds_gate hwf h.rescale]
  simp [rescaleGate, rescaleConstraint, Assignment.row]

theorem holds_slackGate (hwf : cs.WellFormed) (h : config.Installed cs) (r : ℕ) :
    Holds cs T A (.enable config.sSlack r 0) ↔
      A.cell ⟨r, config.slack, 0⟩ + A.cell ⟨r, config.r, 0⟩ - i128ToFr (scale18 - 1) = 0 := by
  rw [holds_gate hwf h.slackGate]
  simp [slackConstraint, Assignment.row]

theorem assign_sound (hwf : cs.WellFormed) (h : config.Installed cs) :
    Sound cs T A (config.assign (ε := ε) inputs known) fun c =>
      ∃ sum mean : I18, (c.2.2.map fun v => A.cell v.cell).sum = (sum.raw : Fr) ∧
        A.cell c.2.1.cell = (shiftedRaw mean : Fr) ∧
        mean.raw = sum.raw * config.reciprocal.raw / scale18 ∧ c.2.2.length = config.sum.k := by
  refine (ReduceSumConfig.assign_sound hwf h.sum).bind fun ⟨sum, sumCell, values⟩ ⟨hsum, ⟨z, hz⟩, hk⟩ => ?_
  refine Triple.bind (.unwrap (Q := fun _ => True) fun _ _ => trivial) fun ⟨mean, r⟩ _ => ?_
  refine Triple.bind (Q := fun cells =>
    (A.cell cells.sum.cell * i64ToFr config.reciprocal - (A.cell cells.q.cell * i128ToFr scale18 -
      i128ToFr (signedShift * scale18)) - A.cell cells.r.cell = 0) ∧
    A.cell cells.slack.cell + A.cell cells.r.cell - i128ToFr (scale18 - 1) = 0) ?_
    fun cells ⟨hrescale, hslack⟩ => ?_
  · refine .of_lays (rescaleRegion_lays sum mean r) fun n hn => ⟨fun _ _ => trivial, ?_⟩
    exact ⟨(holds_rescale hwf h n).mp (hn _ (by simp)), (holds_slackGate hwf h n).mp (hn _ (by simp))⟩
  refine (assignQuotientRanges_sound hwf h.quotient mean r known).bind fun ⟨qr, rr, sr⟩ ⟨hq, hr, hs⟩ => ?_
  refine Sound.linkCells.bind fun _ hlinks => .pure ?_
  simp only [List.forall_mem_cons, List.not_mem_nil, false_implies, implies_true, and_true] at hlinks
  obtain ⟨hlsum, hlq, hlr, hls⟩ := hlinks
  obtain ⟨m, hm⟩ := hq
  obtain ⟨vr, hvr, hr⟩ := hr
  obtain ⟨vs, hvs, hs⟩ := hs
  refine ⟨z, m, hsum.symm.trans hz, hlq.trans hm, ?_, hk⟩
  rw [hlsum, hz, i64ToFr_cast, ← Int.cast_mul] at hrescale
  refine rescale_sound ?_ (hlq.trans hm) (hlr.trans hr) hvr (hls.trans hs) hvs hrescale hslack
  calc |z.raw * config.reciprocal.raw| = |z.raw| * |config.reciprocal.raw| := abs_mul _ _
    _ ≤ 2 ^ 63 * 2 ^ 63 := mul_le_mul (abs_raw_le _) (abs_raw_le _) (abs_nonneg _) (by norm_num)
    _ < 2 ^ 200 := by norm_num

theorem assign_complete (hwf : cs.WellFormed) (h : config.Installed cs) :
    Complete cs T A (config.assign (ε := ε) inputs true) fun c =>
      A.Has c.2.1 config.q (shiftedRaw c.1 : Fr) ∧
        List.Forall₂ (fun c (v : I18) => A.Has c config.sum.values (v.raw : Fr)) c.2.2 inputs := by
  refine (ReduceSumConfig.assign_complete hwf h.sum).bind ?_
  rintro ⟨sum, sumCell, values⟩ ⟨_, hsum, hvalues⟩
  refine Triple.bind (.unwrap fun _ hqr => requantizeMul_eq_ok.mp (toOption_eq_some.mp hqr)) ?_
  rintro ⟨mean, r⟩ ⟨hq, hr⟩
  obtain ⟨-, hr0, hrlt⟩ := rescale_spec (sum.raw * config.reciprocal.raw)
  rw [← hr] at hr0 hrlt
  refine Triple.bind (Q := fun cells => A.Has cells.sum config.sum.sum (sum.raw : Fr) ∧
    A.Has cells.q config.q (shiftedRaw mean : Fr) ∧ A.Has cells.r config.r (r : Fr) ∧
    A.Has cells.slack config.slack ((scale18 - 1 - r : ℤ) : Fr)) ?_ fun cells hcells => ?_
  · refine .of_lays (rescaleRegion_lays sum mean r) fun n hn => ?_
    simp only [List.forall_mem_cons, List.not_mem_nil, false_implies, implies_true, and_true,
      Witnessed, witness, if_true, i128ToFr_cast, i64ToFr_cast, true_and] at hn
    obtain ⟨hcsum, hcq, hcr, hcs⟩ := hn
    refine ⟨?_, ⟨rfl, hcsum⟩, ⟨rfl, hcq⟩, ⟨rfl, hcr⟩, rfl, hcs⟩
    simp only [List.forall_mem_cons, List.not_mem_nil, false_implies, implies_true, and_true,
      holds_rescale hwf h, holds_slackGate hwf h, hcsum, hcq, hcr, hcs, i64ToFr_cast, ← Int.cast_mul]
    have hrescale := rescale_zero hq
    rw [← hr] at hrescale
    exact ⟨trivial, hrescale, slack_zero r, trivial, trivial, trivial, trivial⟩
  obtain ⟨hcsum, hcq, hcr, hcs⟩ := hcells
  refine (assignQuotientRanges_complete hwf h.quotient mean hr0 hrlt).bind ?_
  rintro ⟨qr, rr, sr⟩ ⟨hqr, hrr, hsr⟩
  obtain ⟨heq, her, hes⟩ := h.equality
  have hesum := h.sum.equality.2.1
  refine (Complete.linkCells ?_).bind fun _ _ => .pure ⟨hcq, hvalues⟩
  simp only [List.forall_mem_cons, List.not_mem_nil, false_implies, implies_true, and_true]
  exact ⟨hcsum.link hsum hesum hesum, hcq.link hqr heq heq, hcr.link hrr her her, hcs.link hsr hes hes⟩

theorem assign_placed (h : config.Installed cs) : Placed (config.assign (ε := ε) inputs known) :=
  (ReduceSumConfig.assign_placed h.sum).bind fun ⟨sum, _, _⟩ => Placed.unwrap.bind fun ⟨mean, r⟩ =>
    (Placed.of_row _ (rescaleRegion_lays sum mean r) (fun _ => rfl) h.nodup fun _ => by simp [IsInner]).bind fun _ =>
      (assignQuotientRanges_placed h.quotient mean r known).bind fun _ => Placed.linkCells.bind fun _ => .pure

theorem assign_decides (h : config.Installed cs) :
    Decides (config.assign (ε := ε) inputs known)
      (inputs.length = config.sum.k ∧ (reduceMean config.reciprocal inputs).isSome)
      fun c => reduceMean config.reciprocal inputs = some c.1 := by
  refine Decides.iff (P := fun c => reduceMean config.reciprocal inputs = some c.1)
    (c := inputs.length = config.sum.k ∧ ∃ sum, reduceSum inputs = some sum ∧
      ∃ qr, (requantizeMul sum config.reciprocal).toOption = some qr ∧ True ∧ True ∧ True ∧ True) ?_ ?_
    fun _ _ => id
  · refine Decides.bind_some (g := fun a : I18 × AssignedCell Fr × List (AssignedCell Fr) => a.1)
      (ReduceSumConfig.assign_decides h.sum) fun ⟨sum, _, _⟩ hsum => ?_
    refine Decides.unwrap_bind fun ⟨mean, r⟩ hqr =>
      (Decides.region (rescaleRegion_lays sum mean r)).bind fun _ _ =>
        (assignQuotientRanges_decides h.quotient mean r known).bind fun _ _ =>
          Decides.linkCells.bind fun _ _ => .pure ?_
    simp only [reduceMean, hsum, Option.bind_eq_bind, Option.bind_some, hqr, Option.pure_def]
  · rw [reduceMean, Option.isSome_iff_exists]
    simp only [Option.bind_eq_bind, Option.bind_eq_some_iff, Option.pure_def, and_true]
    refine and_congr_right fun _ => ?_
    exact ⟨fun ⟨s, hs, qr, hqr⟩ => ⟨qr.1, s, hs, qr, hqr, rfl⟩, fun ⟨_, s, hs, qr, hqr, _⟩ => ⟨s, hs, qr, hqr⟩⟩

theorem assign_agree (h : config.Installed cs) (inputs' : List I18) (known' : Bool) :
    Agree (config.assign (ε := ε) inputs known) (config.assign (ε := ε) inputs' known') fun c c' =>
      c.2.1.cell = c'.2.1.cell ∧ List.Forall₂ (fun x y => x.cell = y.cell) c.2.2 c'.2.2 := by
  refine (ReduceSumConfig.assign_agree h.sum inputs' known').bind
    fun ⟨sum, sumCell, values⟩ ⟨sum', sumCell', values'⟩ ⟨hsum, hvalues⟩ => ?_
  refine (Agree.unwrap (R := fun _ _ => True) fun _ _ _ _ => trivial).bind fun ⟨m, r⟩ ⟨m', r'⟩ _ => ?_
  refine (Agree.of_lays (rescaleRegion_lays sum m r) (rescaleRegion_lays sum' m' r')
    (R := fun c c' => c.sum.cell = c'.sum.cell ∧ c.q.cell = c'.q.cell ∧ c.r.cell = c'.r.cell ∧
      c.slack.cell = c'.slack.cell) (fun n => rfl) fun n => ⟨rfl, rfl, rfl, rfl⟩).bind
    fun cells cells' ⟨hcsum, hcq, hcr, hcs⟩ => ?_
  refine (assignQuotientRanges_agree h.quotient m m' r r' known known').bind
    fun ⟨qr, rr, sr⟩ ⟨qr', rr', sr'⟩ ⟨hqr, hrr, hsr⟩ => ?_
  refine (Agree.linkCells ?_).bind fun _ _ _ => .pure ⟨hcq, hvalues⟩
  exact .cons ⟨hcsum, hsum⟩ (.cons ⟨hcq, hqr⟩ (.cons ⟨hcr, hrr⟩ (.cons ⟨hcs, hsr⟩ .nil)))

end ReduceMeanConfig

end Zkie.Reduce
