import Zkie.Outcome
import Zkie.Softmax

namespace Zkie.Softmax

open ScalarField FixedPoint Plonkish Synthesis Satisfaction HostRun Outcome RangeCheck Rescale Reduce Lookup Division

section Sums

variable {t : I18} {vs : List I18}

/-- Every sum of a prefix is a 64-bit number. -/
def PrefixesFit (vs : List I18) : Prop := ∀ i ≤ vs.length, -signedShift ≤ total (vs.take i) ∧ total (vs.take i) < signedShift

theorem sumsFrom_isSome_iff : (sumsFrom t vs).isSome ↔
    ∀ i ≤ vs.length, -signedShift ≤ t.raw + total (vs.take i) ∧ t.raw + total (vs.take i) < signedShift := by
  induction vs generalizing t with
  | nil =>
      simp only [sumsFrom, Option.isSome_some, List.length_nil, Nat.le_zero, forall_eq, List.take_nil, total, List.map_nil,
        List.sum_nil, add_zero, true_iff]
      exact ⟨t.lower, t.upper⟩
  | cons v vs ih =>
      have hfirst : ∀ i, t.raw + total ((v :: vs).take (i + 1)) = t.raw + v.raw + total (vs.take i) := by
        intro i
        rw [List.take_succ_cons, total_cons, add_assoc]
      cases hnext : checkedAdd t v with
      | none =>
          simp only [sumsFrom, hnext, Option.bind_eq_bind, Option.bind_none, Option.isSome_none, Bool.false_eq_true,
            false_iff, not_forall]
          refine ⟨1, by simp, fun hfits => ?_⟩
          rw [hfirst 0, List.take_zero, total, List.map_nil, List.sum_nil, add_zero] at hfits
          have hsome : (checkedAdd t v).isSome := ofInt?_isSome.mpr hfits
          rw [hnext] at hsome
          cases hsome
      | some next =>
          have hraw := checkedAdd_eq_some.mp hnext
          have hrest : (sumsFrom t (v :: vs)).isSome ↔ (sumsFrom next vs).isSome := by
            cases hrest : sumsFrom next vs <;> simp [sumsFrom, hnext, hrest]
          rw [hrest, ih]
          constructor
          · intro h i hi
            cases i with
            | zero =>
                rw [List.take_zero, total, List.map_nil, List.sum_nil, add_zero]
                exact ⟨t.lower, t.upper⟩
            | succ i =>
                rw [hfirst, ← hraw]
                exact h i (by simpa using hi)
          · intro h i hi
            rw [hraw, ← hfirst]
            exact h (i + 1) (by simpa using hi)

/-- The checked sums exist exactly if they fit. -/
theorem partialSums_isSome_iff : (partialSums vs).isSome ↔ PrefixesFit vs := by
  have hzero : -signedShift ≤ total [] ∧ total [] < signedShift := ⟨neg_signedShift_nonpos, signedShift_pos⟩
  cases vs with
  | nil =>
      simp only [partialSums, Option.isSome_some, true_iff]
      intro i _
      rw [List.take_nil]
      exact hzero
  | cons v vs =>
      rw [partialSums, Option.isSome_map, sumsFrom_isSome_iff]
      constructor
      · intro h i hi
        cases i with
        | zero => exact hzero
        | succ i =>
            rw [List.take_succ_cons, total_cons]
            exact h i (by simpa using hi)
      · intro h i hi
        rw [← total_cons, ← List.take_succ_cons]
        exact h (i + 1) (by simpa using hi)

end Sums

section Parts

variable {ε : Type}

/-- All digits of an `i128` can be shifted out. -/
def Shiftable (range : RangeCheckConfig) : Prop := 0 < range.nBits ∧ range.nBits ≤ i128Bits

theorem range_succeeds {range : RangeCheckConfig} (h : Shiftable range) (value : Option Fr) (raw : Option ℤ) :
    Decides (range.assign (ε := ε) value raw) True fun _ => True :=
  assignDigits_decides _ _ _ _ _ _ _ _ h.1 fun _ hi _ => hi.trans_le h.2

variable {sum : ReduceSumConfig} {div : DivConfig} {vs : List I18}

/-- The sum panics for another number of inputs, and if a partial sum overflows. -/
theorem sum_panics (hk : 0 < sum.k) (hbits : Shiftable sum.rangeSum) : Panics (sum.assign (ε := ε) vs true)
    (vs.length ≠ sum.k ∨ ¬PrefixesFit vs) := by
  have hrest : vs.length = sum.k → Panics (do
      let sums ← Synth.unwrap (ε := ε) "I18 reduce sum overflow" (partialSums vs)
      let total ← Synth.unwrap "k >= 1 guarantees a last element" sums.getLast?
      let cells ← sum.sumRegion vs sums total true
      let rangeCell ← sum.rangeSum.assign (witness true (i128ToFr (shiftedRaw total))) (witness true (shiftedRaw total))
      Synth.linkCells "reduce sum range check link" [(cells.sumShift, rangeCell)]
      return (total, cells.sum, cells.values)) (¬PrefixesFit vs) := by
    intro hlen
    refine (Panics.unwrap.bind (e := False) (Decides.unwrap (P := fun sums => partialSums vs = some sums) fun _ => id)
      fun sums hsums => ?_).iff ?_
    · refine (Panics.unwrap.bind_never fun total => ?_).iff ?_
      · refine (Panics.of_decides (Decides.region (ReduceSumConfig.sumRegion_lays sum vs sums total true))).bind_never fun _ => ?_
        refine (Panics.of_decides (range_succeeds hbits _ _)).bind_never fun _ => ?_
        exact (Panics.of_decides Decides.linkCells).bind_never fun _ => Panics.pure
      · have hsumsLen := (partialSums_spec hsums).1
        rw [iff_false, List.getLast?_eq_none_iff]
        rintro rfl
        rw [List.length_nil] at hsumsLen
        omega
    · rw [← partialSums_isSome_iff]
      simp
  refine (Panics.check.bind Decides.check fun _ hlen => hrest hlen).iff ?_
  tauto

theorem div_never (hq : Shiftable div.rangeQ) (hr : Shiftable div.rangeR) (hs : Shiftable div.rangeSlack)
    (hm : Shiftable div.rangeDm1) (n d : I18) : Panics (div.assign n d) False := by
  refine Panics.ofExcept.bind_never fun ⟨quotient, r⟩ => ?_
  refine (Panics.of_decides (Decides.region (DivConfig.coreRegion_lays div n d quotient r))).bind_never fun _ => ?_
  refine (Panics.of_decides (range_succeeds hq _ _)).bind_never fun _ => ?_
  refine (Panics.of_decides (range_succeeds hr _ _)).bind_never fun _ => ?_
  refine (Panics.of_decides (range_succeeds hs _ _)).bind_never fun _ => ?_
  refine (Panics.of_decides (range_succeeds hm _ _)).bind_never fun _ => ?_
  exact (Panics.of_decides Decides.linkCells).bind_never fun _ => Panics.pure

end Parts

namespace SoftmaxConfig

/-- What configuration fixes, on whatever columns. -/
structure Sized (config : SoftmaxConfig) : Prop where
  pos : 0 < config.sum.k
  size : config.sum.k = config.k.toNat
  rangeSum : Shiftable config.sum.rangeSum
  rangeQ : Shiftable config.div.rangeQ
  rangeR : Shiftable config.div.rangeR
  rangeSlack : Shiftable config.div.rangeSlack
  rangeDm1 : Shiftable config.div.rangeDm1

variable {config : SoftmaxConfig} {cs₀ cs : ConstraintSystem Fr} {columns : Columns} {k : UInt64} {domain : Domain}
  {inputs : List I18}

theorem configure_sized (h : configure columns k cs₀ = .ok (config, cs)) : config.Sized ∧ config.k = k := by
  obtain ⟨_, cs₁, hassert, h⟩ := Configures.bind_ok h
  obtain ⟨-, -, hk⟩ := @Configures.assertThat _ cs₀ _ _ _ _ _ hassert
  obtain ⟨lookup, cs₂, -, h⟩ := Configures.bind_ok h
  obtain ⟨sum, cs₃, hsum, h⟩ := Configures.bind_ok h
  obtain ⟨_, cs₄, hassert', hsum⟩ := Configures.bind_ok hsum
  cases hsum
  obtain ⟨div, cs₅, hdiv, h⟩ := Configures.bind_ok h
  cases hdiv
  cases h
  have hsize : 0 < 64 ∧ 64 ≤ i128Bits := by decide
  exact ⟨⟨hk, rfl, hsize, hsize, hsize, hsize, (by decide : 0 < 63 ∧ 63 ≤ i128Bits)⟩, rfl⟩

/-- The chip panics exactly if all inputs are in the table and a partial sum of their values overflows. -/
theorem assign_panics (h : config.Sized) : Panics (config.assign domain inputs)
    (inputs.length = config.k.toNat ∧ ∃ vs, inputs.mapM (value? domain) = some vs ∧ ¬PrefixesFit vs) := by
  have hnormalize : ∀ exps, Panics (config.normalize exps)
      ((exps.map Prod.fst).length ≠ config.sum.k ∨ ¬PrefixesFit (exps.map Prod.fst)) := by
    intro exps
    refine (sum_panics h.pos h.rangeSum).bind_never fun _ => ?_
    refine (Panics.of_decides Decides.linkCells).bind_never fun _ => ?_
    refine Panics.forEach_never fun e _ => ?_
    refine (Panics.mapError (div_never h.rangeQ h.rangeR h.rangeSlack h.rangeDm1 _ _)).bind_never fun _ => ?_
    exact (Panics.of_decides Decides.linkCells).bind_never fun _ => Panics.pure
  have hlookUps : Panics (config.lookUps domain inputs) False := by
    refine Panics.forEach_never fun x _ => Panics.mapError ?_
    refine Panics.ofExcept.bind_never fun _ => ?_
    exact (Panics.of_decides (Decides.region (LookupConfig.lookupRegion_lays _ _ _))).bind_never fun _ => Panics.pure
  have hvalues : Decides (config.lookUps domain inputs) (True ∧ (inputs.mapM (value? domain)).isSome)
      fun exps => inputs.mapM (value? domain) = some (exps.map Prod.fst) :=
    Decides.forEach_some fun x _ => Decides.mapError (LookupConfig.assign_decides x)
  have hcells : Panics (config.assignCells domain inputs) (inputs.length = config.k.toNat ∧
      ∃ vs, inputs.mapM (value? domain) = some vs ∧ (vs.length ≠ config.sum.k ∨ ¬PrefixesFit vs)) := by
    have hbody := hlookUps.bind_some (e := fun vs => vs.length ≠ config.sum.k ∨ ¬PrefixesFit vs)
      (f := fun exps => do let quotients ← config.normalize exps; return (exps, quotients)) hvalues
      fun exps _ => (hnormalize exps).bind_never fun _ => Panics.pure
    refine (Panics.ensure.bind Decides.ensure fun _ _ => hbody).iff ?_
    rw [false_or, false_or, true_and]
  refine (hcells.bind_never fun _ => Panics.pure).iff (and_congr_right fun hlen => exists_congr fun vs => ?_)
  apply and_congr_right
  intro hvs
  have hcount : vs.length = config.sum.k := by
    rw [← (Checked.mapM_eq_some.mp hvs).length_eq, hlen, h.size]
  simp [hcount]

/-- The chip never panics exactly if the sums of the looked up values fit, should there be as many inputs as configured
and all of them in the table. -/
theorem never_panics_iff (columns : Columns) (k : UInt64) (cs₀ cs : ConstraintSystem Fr) (config : SoftmaxConfig)
    (hconfigure : configure columns k cs₀ = .ok (config, cs)) (domain : Domain) (inputs : List I18) :
    (∀ n m, config.assign domain inputs n ≠ .error (.panic m)) ↔
      (inputs.length = k.toNat → ∀ vs, inputs.mapM (value? domain) = some vs → PrefixesFit vs) := by
  obtain ⟨hsized, rfl⟩ := configure_sized hconfigure
  have hpanics : Panics (config.assign domain inputs) _ := assign_panics hsized
  constructor
  · intro hnever hlen vs hvs
    by_contra hnot
    obtain ⟨m, hm⟩ := (hpanics 0).mpr ⟨hlen, vs, hvs, hnot⟩
    exact hnever 0 m hm
  · intro hfits n m hm
    obtain ⟨hlen, vs, hvs, hnot⟩ := (hpanics n).mp ⟨m, hm⟩
    exact hnot (hfits hlen vs hvs)

/-- Ten times the exponential of zero is ten. -/
theorem never_panics_ten : ∃ config cs m, configure ownColumns 10 { numAdvice := 12 } = .ok (config, cs) ∧
    config.assign zeroToOne (List.replicate 10 default) 0 = .error (.panic m) := by
  obtain ⟨config, cs, hconfigure⟩ : ∃ config cs, configure ownColumns 10 { numAdvice := 12 } = .ok (config, cs) := ⟨_, _, rfl⟩
  obtain ⟨hsized, hk⟩ := configure_sized hconfigure
  have hvs : (List.replicate 10 default).mapM (value? zeroToOne) = some (List.replicate 10 LookupConfig.fixedOne) := by
    decide
  have hoverflow : ¬PrefixesFit (List.replicate 10 LookupConfig.fixedOne) := by
    intro hfits
    have hall := (hfits 10 (by decide)).2
    exact absurd hall (by decide)
  obtain ⟨m, hm⟩ := (assign_panics hsized 0).mpr ⟨by rw [hk]; decide, _, hvs, hoverflow⟩
  exact ⟨config, cs, m, hconfigure, hm⟩

def twoZeros : List I18 := [default, default]

theorem never_panics_iff_two : ∃ config cs, configure ownColumns 2 { numAdvice := 12 } = .ok (config, cs) ∧
    ((∀ n m, config.assign zeroToOne twoZeros n ≠ .error (.panic m)) ↔
      (twoZeros.length = (2 : UInt64).toNat → ∀ vs, twoZeros.mapM (value? zeroToOne) = some vs → PrefixesFit vs)) := by
  obtain ⟨config, cs, hconfigure⟩ : ∃ config cs, configure ownColumns 2 { numAdvice := 12 } = .ok (config, cs) := ⟨_, _, rfl⟩
  exact ⟨config, cs, hconfigure, never_panics_iff ownColumns 2 { numAdvice := 12 } cs config hconfigure zeroToOne _⟩

end SoftmaxConfig

end Zkie.Softmax
