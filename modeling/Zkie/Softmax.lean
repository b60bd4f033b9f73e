import Zkie.Division
import Zkie.Forgery
import Zkie.LookupChip
import Zkie.Reduce

namespace Zkie.Softmax

open ScalarField FixedPoint Plonkish Synthesis Satisfaction HostRun Skeleton Placement Forgery RangeCheck Rescale Reduce
open Lookup Division

inductive SoftmaxError where
  | inputCountMismatch (expected got : ℕ)
  | lookup (e : LookupError)
  | div (e : DivError)
  deriving DecidableEq, Repr

structure SoftmaxConfig where
  lookup : LookupConfig
  sum : ReduceSumConfig
  div : DivConfig
  k : UInt64
  deriving DecidableEq, Repr

/-- The columns that a caller hands to the chip. -/
structure Columns where
  expInput : Column
  expOutput : Column
  sumValues : Column
  sum : Column
  sumShift : Column
  divNumerator : Column
  divDivisor : Column
  divQShift : Column
  divR : Column
  divSlack : Column
  divDm1 : Column
  bits : Column

/-- No column is handed over twice. -/
def Columns.Distinct (c : Columns) : Prop :=
  [c.bits, c.expInput, c.expOutput, c.sumValues, c.sum, c.sumShift, c.divNumerator, c.divDivisor, c.divQShift, c.divR,
    c.divSlack, c.divDm1].Nodup

namespace SoftmaxConfig

def configure (c : Columns) (k : UInt64) : Configure Fr SoftmaxConfig := do
  assertThat (1 ≤ k.toNat) "SoftmaxChip requires at least one input"
  let lookup ← LookupConfig.configure c.expInput c.expOutput
  let sum ← ReduceSumConfig.configure c.sumValues c.sum c.sumShift c.bits k
  let div ← DivConfig.configure c.divNumerator c.divDivisor c.divQShift c.divR c.divSlack c.divDm1 c.bits
  return { lookup, sum, div, k }

/-- The exponentials, each with the cell of the lookup's output. -/
def lookUps (config : SoftmaxConfig) (domain : Domain) (inputs : List I18) :
    Synth Fr SoftmaxError (List (I18 × AssignedCell Fr)) :=
  Synth.forEach (fun x => (config.lookup.assign domain x true).mapError .lookup) inputs

/-- One of the divisions, with the cell of its numerator. -/
def divideOne (config : SoftmaxConfig) (sum : I18) (sumCell : AssignedCell Fr) (e : I18 × AssignedCell Fr) :
    Synth Fr SoftmaxError (I18 × AssignedCell Fr) := do
  let (quotient, numeratorCell, divisorCell) ← (config.div.assign e.1 sum).mapError .div
  Synth.linkCells "softmax div links" [(numeratorCell, e.2), (divisorCell, sumCell)]
  return (quotient, numeratorCell)

/-- What comes after the lookups: the sum and the divisions by it. -/
def normalize (config : SoftmaxConfig) (exps : List (I18 × AssignedCell Fr)) :
    Synth Fr SoftmaxError (List (I18 × AssignedCell Fr)) := do
  let (sum, sumCell, valueCells) ← config.sum.assign (exps.map Prod.fst) true
  Synth.linkCells "softmax exp-to-sum links" ((exps.map Prod.snd).zip valueCells)
  Synth.forEach (config.divideOne sum sumCell) exps

/-- The exponentials and the quotients, with their cells. -/
def assignCells (config : SoftmaxConfig) (domain : Domain) (inputs : List I18) :
    Synth Fr SoftmaxError (List (I18 × AssignedCell Fr) × List (I18 × AssignedCell Fr)) := do
  Synth.ensure (inputs.length = config.k.toNat) (.inputCountMismatch config.k.toNat inputs.length)
  let exps ← config.lookUps domain inputs
  let quotients ← config.normalize exps
  return (exps, quotients)

def assign (config : SoftmaxConfig) (domain : Domain) (inputs : List I18) : Synth Fr SoftmaxError (List I18) := do
  let (_, quotients) ← config.assignCells domain inputs
  return quotients.map Prod.fst

/-- The input of a lookup stands in the row of its output. -/
def inputCell (config : SoftmaxConfig) (output : AssignedCell Fr) : Cell :=
  ⟨output.cell.region, config.lookup.input, output.cell.offset⟩

structure Installed (config : SoftmaxConfig) (cs : ConstraintSystem Fr) : Prop where
  lookup : config.lookup.Installed cs
  sum : config.sum.Installed cs
  div : config.div.Installed cs
  size : config.sum.k = config.k.toNat

end SoftmaxConfig

section Meaning

def total (vs : List I18) : ℤ := (vs.map I18.raw).sum

/-- The quotients of values by their sum. -/
def Quotients (vs qs : List I18) : Prop := List.Forall₂ (fun (q v : I18) => q.raw = v.raw * scale18 / total vs) qs vs

/-- Values and their shares in the sum, each rounded down. -/
structure IsSoftmax (vs qs : List I18) : Prop where
  sum_pos : 1 ≤ total vs
  sum_lt : total vs < 2 ^ 63
  quotients : Quotients vs qs
  range : ∀ q ∈ qs, 0 ≤ q.raw ∧ q.raw ≤ scale18
  total_gt : scale18 - vs.length < total qs
  total_le : total qs ≤ scale18

variable {vs qs : List I18}

theorem total_cons (v : I18) (vs : List I18) : total (v :: vs) = v.raw + total vs := by
  rw [total, List.map_cons, List.sum_cons, total]

theorem total_replicate (n : ℕ) (v : I18) : total (List.replicate n v) = n * v.raw := by
  rw [total, List.map_replicate, List.sum_replicate, nsmul_eq_mul]

theorem total_nonneg (h : ∀ v ∈ vs, 0 ≤ v.raw) : 0 ≤ total vs := by
  apply List.sum_nonneg
  intro r hr
  obtain ⟨v, hv, rfl⟩ := List.mem_map.mp hr
  exact h v hv

theorem raw_le_total (h : ∀ v ∈ vs, 0 ≤ v.raw) {v : I18} (hv : v ∈ vs) : v.raw ≤ total vs := by
  apply List.single_le_sum _ _ (List.mem_map_of_mem hv)
  intro r hr
  obtain ⟨w, hw, rfl⟩ := List.mem_map.mp hr
  exact h w hw

/-- What the rounding loses, for any divisor. -/
theorem total_floors {s : ℤ} (hs : 0 < s) (h : List.Forall₂ (fun (q v : I18) => q.raw = v.raw * scale18 / s) qs vs) :
    ∃ lost, total qs * s + lost = total vs * scale18 ∧ 0 ≤ lost ∧ lost ≤ vs.length * (s - 1) := by
  induction h with
  | nil => exact ⟨0, by simp [total]⟩
  | @cons q v qs vs hq _ ih =>
      obtain ⟨lost, hlost, h0, hle⟩ := ih
      have hdiv := Int.ediv_mul_add_emod (v.raw * scale18) s
      have hnonneg := Int.emod_nonneg (v.raw * scale18) hs.ne'
      have hlt := Int.emod_lt_of_pos (v.raw * scale18) hs
      refine ⟨v.raw * scale18 % s + lost, ?_, by omega, ?_⟩
      · rw [total_cons, total_cons, add_mul, add_mul, hq]
        linarith
      · rw [List.length_cons]
        push_cast
        rw [add_mul, one_mul]
        omega

/-- The shares of values that are not negative are not negative either, and they add up to one but for the rounding. -/
theorem isSoftmax_of_quotients (hnonneg : ∀ v ∈ vs, 0 ≤ v.raw) (hpos : 1 ≤ total vs) (hlt : total vs < 2 ^ 63)
    (hq : Quotients vs qs) : IsSoftmax vs qs := by
  have hs : 0 < total vs := by omega
  obtain ⟨lost, hlost, h0, hle⟩ := total_floors hs hq
  refine ⟨hpos, hlt, hq, ?_, ?_, ?_⟩
  · intro q hmem
    obtain ⟨v, hv, hqv⟩ := forall₂_exists_of_mem hq hmem
    rw [hqv]
    constructor
    · exact Int.ediv_nonneg (mul_nonneg (hnonneg v hv) (by norm_num [scale18])) hs.le
    · apply Int.ediv_le_of_le_mul hs
      rw [mul_comm scale18]
      exact mul_le_mul_of_nonneg_right (raw_le_total hnonneg hv) (by norm_num [scale18])
  · have hlen : 0 < vs.length := by
      apply List.length_pos_iff.mpr
      rintro rfl
      exact absurd hpos (by decide)
    have hstrict : (scale18 - vs.length) * total vs < total qs * total vs := by
      have hexpand : (vs.length : ℤ) * (total vs - 1) < vs.length * total vs :=
        mul_lt_mul_of_pos_left (by omega) (by omega)
      rw [sub_mul]
      linarith
    exact lt_of_mul_lt_mul_right hstrict hs.le
  · have hweak : total qs * total vs ≤ scale18 * total vs := by linarith
    exact le_of_mul_le_mul_right hweak hs

end Meaning

namespace SoftmaxConfig

variable {config : SoftmaxConfig} {cs : ConstraintSystem Fr} {T : List ℕ → List Fr → Prop} {A : Assignment Fr}
  {domain : Domain} {k : UInt64} {columns : Columns}

theorem configure_installed (hdistinct : columns.Distinct) :
    Configures (configure columns k) cs fun config cs' => config.Installed cs' ∧ config.k = k := by
  simp only [Columns.Distinct, List.nodup_cons, List.mem_cons, List.not_mem_nil, or_false, not_or, not_false_eq_true,
    List.nodup_nil, and_true] at hdistinct
  refine Configures.assertThat.bind fun _ cs₁ _ _ => ?_
  refine (LookupConfig.configure_installed (by tauto)).bind fun lookup cs₂ _ hlookup => ?_
  refine (ReduceSumConfig.configure_installed (by simp; tauto) (by tauto)).bind fun sum cs₃ h₃ hsum => ?_
  refine (DivConfig.configure_installed (by simp; tauto)).bind fun div cs₄ h₄ hdiv => ?_
  exact Configures.pure ⟨⟨hlookup.1.mono (h₃.trans h₄), hsum.1.mono h₄, hdiv, hsum.2.1⟩, rfl⟩

theorem configure_adds : Adds [] (configure columns k) fun config => [config.lookup.idle] :=
  Adds.assertThat.bind fun _ => (LookupConfig.configure_adds _ _ []).bind fun _ =>
    (ReduceSumConfig.configure_adds _ _ _ _ _ _).bind fun _ => (DivConfig.configure_adds _ _ _ _ _ _ _ _).bind fun _ =>
      Adds.pure rfl

section Soundness

theorem lookUp_sound (hwf : cs.WellFormed) (h : config.Installed cs) (hT : config.lookup.TableIs T domain) (x : I18) :
    Sound cs T A ((config.lookup.assign domain x true).mapError SoftmaxError.lookup) fun c =>
      ∃ p ∈ domain ++ [padRow], A.cell (config.inputCell c.2) = (p.1.raw : Fr) ∧ A.cell c.2.cell = (p.2.raw : Fr) := by
  apply Triple.mapError
  refine Triple.bind (.ofExcept (Q := fun _ => True) fun _ _ => trivial) fun output _ => ?_
  refine Triple.bind (Q := fun c : AssignedCell Fr × AssignedCell Fr => ∃ p ∈ domain ++ [padRow],
    A.cell (config.inputCell c.2) = (p.1.raw : Fr) ∧ A.cell c.2.cell = (p.2.raw : Fr)) ?_ fun _ hrow => .pure hrow
  apply Triple.of_lays (LookupConfig.lookupRegion_lays _ _ _)
  intro r hr
  exact ⟨fun _ _ => trivial, (LookupConfig.holds_lookupRow hwf h.lookup hT r).mp (hr _ (by simp))⟩

theorem lookUps_sound (hwf : cs.WellFormed) (h : config.Installed cs) (hT : config.lookup.TableIs T domain)
    (inputs : List I18) : Sound cs T A (config.lookUps domain inputs) fun exps => exps.length = inputs.length ∧
      ∃ rows, List.Forall₂ (fun e (p : I18 × I18) => p ∈ domain ++ [padRow] ∧
        A.cell (config.inputCell e.2) = (p.1.raw : Fr) ∧ A.cell e.2.cell = (p.2.raw : Fr)) exps rows := by
  apply (Triple.forEach fun x _ => lookUp_sound hwf h hT x).mono
  intro exps hexps
  refine ⟨hexps.length_eq.symm, exists_forall₂ fun e he => ?_⟩
  obtain ⟨x, -, hrow⟩ := forall₂_exists_of_mem hexps.flip he
  exact hrow

theorem divideOne_sound (hwf : cs.WellFormed) (h : config.Installed cs) (sum : I18) (sumCell : AssignedCell Fr)
    (e : I18 × AssignedCell Fr) : Sound cs T A (config.divideOne sum sumCell e) fun c =>
      ∀ s v : I18, A.cell sumCell.cell = (s.raw : Fr) → A.cell e.2.cell = (v.raw : Fr) → 1 ≤ s.raw ∧
        ∃ q : I18, A.cell (config.div.quotientCell c.2) = (shiftedRaw q : Fr) ∧ q.raw = v.raw * scale18 / s.raw := by
  refine Triple.bind (Triple.mapError (DivConfig.assign_sound hwf h.div)) fun ⟨quotient, numerator, divisor⟩ hdiv => ?_
  refine Sound.linkCells.bind fun _ hlinks => .pure fun s v hs hv => ?_
  simp only [List.forall_mem_cons, List.not_mem_nil, false_implies, implies_true, and_true] at hlinks
  obtain ⟨hnumerator, hdivisor⟩ := hlinks
  obtain ⟨d, q, hd1, hd63, hd, hq, hquotient⟩ := hdiv v (hnumerator.trans hv)
  have hsame : d = s.raw := by
    refine intCast_inj ?_ ?_ (hd.symm.trans (hdivisor.trans hs))
    · rw [abs_of_nonneg (by omega)]
      exact hd63.trans_lt (by norm_num)
    · exact (abs_raw_le s).trans_lt (by norm_num)
  subst hsame
  exact ⟨hd1, q, hq, hquotient⟩

/-- The sum of the images is the image of the sum. -/
theorem sum_cells {cells : List (AssignedCell Fr)} {vs : List I18}
    (h : List.Forall₂ (fun c (v : I18) => A.cell c.cell = (v.raw : Fr)) cells vs) :
    (cells.map fun c => A.cell c.cell).sum = (total vs : Fr) := by
  induction h with
  | nil => simp [total]
  | cons hc _ ih => rw [List.map_cons, List.sum_cons, total_cons, ih, hc, Int.cast_add]

theorem abs_total_le (vs : List I18) : |total vs| ≤ vs.length * 2 ^ 63 := by
  induction vs with
  | nil => simp [total]
  | cons v vs ih =>
      have hv := abs_raw_le v
      rw [total_cons, List.length_cons]
      push_cast
      calc |v.raw + total vs| ≤ |v.raw| + |total vs| := abs_add_le _ _
        _ ≤ (vs.length + 1) * 2 ^ 63 := by linarith

/-- The divisions determine the quotients of the values that the lookups' output cells hold. -/
theorem normalize_sound (hwf : cs.WellFormed) (h : config.Installed cs) (exps : List (I18 × AssignedCell Fr)) :
    Sound cs T A (config.normalize exps) fun quotients => ∀ vs : List I18, exps.length = config.k.toNat →
      List.Forall₂ (fun e (v : I18) => A.cell e.2.cell = (v.raw : Fr)) exps vs →
      1 ≤ total vs ∧ total vs < 2 ^ 63 ∧ ∃ qs, Quotients vs qs ∧
        List.Forall₂ (fun c (q : I18) => A.cell (config.div.quotientCell c.2) = (shiftedRaw q : Fr)) quotients qs := by
  refine (ReduceSumConfig.assign_sound hwf h.sum).bind fun ⟨sum, sumCell, valueCells⟩ ⟨hsum, ⟨s, hs⟩, hlen⟩ => ?_
  refine Sound.linkCells.bind fun _ hlinks => ?_
  refine (Triple.forEach fun e _ => divideOne_sound hwf h sum sumCell e).mono fun quotients hquotients vs hk hvs => ?_
  have hvalues : List.Forall₂ (fun c (v : I18) => A.cell c.cell = (v.raw : Fr)) valueCells vs := by
    have hexps : List.Forall₂ (fun c (v : I18) => A.cell c.cell = (v.raw : Fr)) (exps.map Prod.snd) vs :=
      List.forall₂_map_left_iff.mpr hvs
    refine forall₂_of_zip ?_ hexps fun p hp v hv => (hlinks p hp).symm.trans hv
    rw [List.length_map, hlen, hk, h.size]
  have htotal : total vs = s.raw := by
    have hcount : vs.length < 2 ^ 64 := by
      rw [← hvs.length_eq, hk]
      exact config.k.toNat_lt
    refine intCast_inj ?_ ?_ ?_
    · calc |total vs| ≤ vs.length * 2 ^ 63 := abs_total_le vs
        _ < 2 ^ 250 := by
          norm_num
          omega
    · exact (abs_raw_le s).trans_lt (by norm_num)
    · rw [← sum_cells hvalues, ← hsum, hs]
  have hpairs : List.Forall₂ (fun c (v : I18) => 1 ≤ s.raw ∧ ∃ q : I18,
      A.cell (config.div.quotientCell c.2) = (shiftedRaw q : Fr) ∧ q.raw = v.raw * scale18 / s.raw) quotients vs :=
    forall₂_trans (fun c e v hdiv hv => hdiv s v hs hv) hquotients.flip hvs
  obtain ⟨qs, hcells, hqs⟩ := forall₂_between (hpairs.imp fun _ _ hpair => hpair.2)
  have hpos : 1 ≤ s.raw := by
    have hcount : 0 < vs.length := by
      rw [← hvs.length_eq, hk, ← h.size]
      exact h.sum.pos
    obtain ⟨v, hv⟩ := List.exists_mem_of_length_pos hcount
    obtain ⟨-, -, hone, -⟩ := forall₂_exists_of_mem hpairs.flip hv
    exact hone
  have hupper := s.upper
  rw [signedShift] at hupper
  rw [htotal]
  exact ⟨hpos, hupper, qs, by rw [Quotients, htotal]; exact hqs, hcells⟩

/-- The lookups determine rows of the table, and the divisions the quotients of their values. -/
theorem assignCells_sound (hwf : cs.WellFormed) (h : config.Installed cs) (hT : config.lookup.TableIs T domain)
    (inputs : List I18) : Sound cs T A (config.assignCells domain inputs) fun c => c.1.length = config.k.toNat ∧
      ∃ rows qs, List.Forall₂ (fun e (p : I18 × I18) => p ∈ domain ++ [padRow] ∧
        A.cell (config.inputCell e.2) = (p.1.raw : Fr)) c.1 rows ∧
        1 ≤ total (rows.map Prod.snd) ∧ total (rows.map Prod.snd) < 2 ^ 63 ∧ Quotients (rows.map Prod.snd) qs ∧
        List.Forall₂ (fun c (q : I18) => A.cell (config.div.quotientCell c.2) = (shiftedRaw q : Fr)) c.2 qs := by
  refine Triple.ensure.bind fun _ hcount => ?_
  refine (lookUps_sound hwf h hT inputs).bind fun exps ⟨hlen, rows, hrows⟩ => ?_
  refine (normalize_sound hwf h exps).bind fun quotients hnormalize => .pure ?_
  have hvalues : List.Forall₂ (fun e (v : I18) => A.cell e.2.cell = (v.raw : Fr)) exps (rows.map Prod.snd) :=
    List.forall₂_map_right_iff.mpr (hrows.imp fun _ _ hrow => hrow.2.2)
  obtain ⟨hpos, hlt, qs, hqs, hcells⟩ := hnormalize _ (hlen.trans hcount) hvalues
  exact ⟨hlen.trans hcount, rows, qs, hrows.imp fun _ _ hrow => ⟨hrow.1, hrow.2.1⟩, hpos, hlt, hqs, hcells⟩

end Soundness

section Completeness

theorem divideOne_complete (hwf : cs.WellFormed) (h : config.Installed cs) {sum : I18} {sumCell : AssignedCell Fr}
    {e : I18 × AssignedCell Fr} (hsum : A.Has sumCell config.sum.sum (sum.raw : Fr))
    (he : A.Has e.2 config.lookup.output (e.1.raw : Fr)) : Complete cs T A (config.divideOne sum sumCell e) fun c =>
      A.cell (config.div.quotientCell c.2) = (shiftedRaw c.1 : Fr) ∧ c.1.raw = e.1.raw * scale18 / sum.raw := by
  refine Triple.bind (Triple.mapError (DivConfig.assign_complete hwf h.div)) fun c ⟨hn, hd, hcell, hq⟩ => ?_
  have hequality := h.div.equality
  simp only [List.forall_mem_cons, List.not_mem_nil, false_implies, implies_true, and_true] at hequality
  obtain ⟨hen, hed, -⟩ := hequality
  refine (Complete.linkCells ?_).bind fun _ _ => .pure ⟨hcell, hq⟩
  simp only [List.forall_mem_cons, List.not_mem_nil, false_implies, implies_true, and_true]
  exact ⟨hn.link he hen h.lookup.equality.2, hd.link hsum hed h.sum.equality.2.1⟩

theorem normalize_complete (hwf : cs.WellFormed) (h : config.Installed cs) {exps : List (I18 × AssignedCell Fr)}
    (hexps : ∀ e ∈ exps, A.Has e.2 config.lookup.output (e.1.raw : Fr)) :
    Complete cs T A (config.normalize exps) fun quotients => List.Forall₂ (fun (e c : I18 × AssignedCell Fr) =>
      A.cell (config.div.quotientCell c.2) = (shiftedRaw c.1 : Fr) ∧
        c.1.raw = e.1.raw * scale18 / total (exps.map Prod.fst)) exps quotients := by
  refine (ReduceSumConfig.assign_complete hwf h.sum).bind fun ⟨sum, sumCell, valueCells⟩ ⟨hraw, hsum, hvalues⟩ => ?_
  refine (Complete.linkCells fun p hp => ?_).bind fun _ _ => ?_
  · have hpairs : List.Forall₂ (fun (c c' : AssignedCell Fr) => ∃ v : I18, A.Has c config.lookup.output (v.raw : Fr) ∧
        A.Has c' config.sum.values (v.raw : Fr)) (exps.map Prod.snd) valueCells := by
      have hcopies : List.Forall₂ (fun (e : I18 × AssignedCell Fr) c' => e ∈ exps ∧ A.Has c' config.sum.values (e.1.raw : Fr))
          exps valueCells :=
        (List.forall₂_and_left _ _).mpr ⟨fun _ he => he, List.forall₂_map_left_iff.mp hvalues.flip⟩
      rw [List.forall₂_map_left_iff]
      exact hcopies.imp fun e _ hcopy => ⟨e.1, hexps e hcopy.1, hcopy.2⟩
    obtain ⟨v, hv, hv'⟩ := List.forall₂_iff_zip.mp hpairs |>.2 hp
    exact hv.link hv' h.lookup.equality.2 h.sum.equality.1
  · apply (Triple.forEach fun e he => divideOne_complete hwf h hsum (hexps e he)).mono
    intro quotients hquotients
    have htotal : sum.raw = total (exps.map Prod.fst) := hraw
    rw [← htotal]
    exact hquotients

end Completeness

/-- A share in a sum is a fixed-point number. -/
theorem divQuotientRemainder_of_le {v s : I18} (h0 : 0 ≤ v.raw) (hle : v.raw ≤ s.raw) (hs : 0 < s.raw) :
    ∃ qr, divQuotientRemainder v s = .ok qr := by
  have hquotient : 0 ≤ v.raw * scale18 / s.raw ∧ v.raw * scale18 / s.raw ≤ scale18 := by
    constructor
    · exact Int.ediv_nonneg (mul_nonneg h0 (by norm_num [scale18])) hs.le
    · apply Int.ediv_le_of_le_mul hs
      rw [mul_comm scale18]
      exact mul_le_mul_of_nonneg_right hle (by norm_num [scale18])
  have hscale : scale18 < signedShift := by norm_num [scale18, signedShift]
  have hshift := neg_signedShift_nonpos
  obtain ⟨q, hq⟩ := Option.isSome_iff_exists.mp
    (ofInt?_isSome.mpr ⟨hshift.trans hquotient.1, hquotient.2.trans_lt hscale⟩)
  exact ⟨(q, _), divQuotientRemainder_eq_ok.mpr ⟨hs, ofInt?_eq_some.mp hq, rfl⟩⟩

theorem normalize_decides (h : config.Installed cs) (exps : List (I18 × AssignedCell Fr)) :
    Decides (config.normalize exps) (exps.length = config.sum.k ∧ ∃ s, reduceSum (exps.map Prod.fst) = some s ∧
      ∀ e ∈ exps, ∃ qr, divQuotientRemainder e.1 s = .ok qr) fun _ => True := by
  have hdivide : ∀ s sumCell, Decides (Synth.forEach (config.divideOne s sumCell) exps)
      (∀ e ∈ exps, ∃ qr, divQuotientRemainder e.1 s = .ok qr) fun _ => True := by
    intro s sumCell
    refine (Decides.forEach (Q := fun _ _ => True) fun e _ => ?_).mono fun _ _ => trivial
    apply Decides.iff (c := (∃ qr, divQuotientRemainder e.1 s = .ok qr) ∧ True ∧ True) _ (by simp) fun _ _ => id
    exact Decides.bind (Decides.mapError (DivConfig.assign_decides h.div)) fun _ _ =>
      Decides.linkCells.bind fun _ _ => .pure trivial
  apply Decides.iff (c := exps.length = config.sum.k ∧ ∃ s, reduceSum (exps.map Prod.fst) = some s ∧ True ∧
    ∀ e ∈ exps, ∃ qr, divQuotientRemainder e.1 s = .ok qr) _ (by simp) fun _ _ => id
  have hsum : Decides (config.sum.assign (ε := SoftmaxError) (exps.map Prod.fst) true)
      ((exps.map Prod.fst).length = config.sum.k ∧ (reduceSum (exps.map Prod.fst)).isSome)
      fun c => reduceSum (exps.map Prod.fst) = some c.1 := ReduceSumConfig.assign_decides h.sum
  rw [List.length_map] at hsum
  refine Decides.bind_some (g := fun c => c.1) (d := fun s => True ∧ ∀ e ∈ exps, ∃ qr, divQuotientRemainder e.1 s = .ok qr)
    hsum ?_
  rintro ⟨s, sumCell, valueCells⟩ -
  exact Decides.linkCells.bind fun _ _ => hdivide s sumCell

section Layout

theorem divideOne_placed (h : config.Installed cs) (sum : I18) (sumCell : AssignedCell Fr) (e : I18 × AssignedCell Fr) :
    Placed (config.divideOne sum sumCell e) :=
  (Placed.mapError (DivConfig.assign_placed h.div)).bind fun _ => Placed.linkCells.bind fun _ => .pure

theorem normalize_placed (h : config.Installed cs) (exps : List (I18 × AssignedCell Fr)) :
    Placed (config.normalize exps) :=
  (ReduceSumConfig.assign_placed h.sum).bind fun _ => Placed.linkCells.bind fun _ =>
    Placed.forEach fun e _ => divideOne_placed h _ _ e

theorem assignCells_placed (h : config.Installed cs) (inputs : List I18) : Placed (config.assignCells domain inputs) :=
  Placed.ensure.bind fun _ => Placed.bind (Placed.forEach fun x _ => Placed.mapError (LookupConfig.assign_placed h.lookup x))
    fun exps => (normalize_placed h exps).bind fun _ => .pure

/-- The same cells, with any values. -/
def SamePlaces (exps exps' : List (I18 × AssignedCell Fr)) : Prop :=
  List.Forall₂ (fun e e' => e.2.cell = e'.2.cell) exps exps'

theorem divideOne_agree (h : config.Installed cs) (sum sum' : I18) {sumCell sumCell' : AssignedCell Fr}
    (hsum : sumCell.cell = sumCell'.cell) {e e' : I18 × AssignedCell Fr} (he : e.2.cell = e'.2.cell) :
    Agree (config.divideOne sum sumCell e) (config.divideOne sum' sumCell' e') fun c c' => c.2.cell = c'.2.cell := by
  refine (Agree.mapError (DivConfig.assign_agree h.div e'.1 sum')).bind fun c c' ⟨hn, hd⟩ => ?_
  refine Agree.bind (Agree.linkCells ?_) fun _ _ _ => .pure hn
  exact .cons ⟨hn, he⟩ (.cons ⟨hd, hsum⟩ .nil)

theorem normalize_agree (h : config.Installed cs) {exps exps' : List (I18 × AssignedCell Fr)}
    (hsame : SamePlaces exps exps') : Agree (config.normalize exps) (config.normalize exps') SamePlaces := by
  refine (ReduceSumConfig.assign_agree h.sum (exps'.map Prod.fst) true).bind fun c c' ⟨hsum, hvalues⟩ => ?_
  have hcells : SameCells (exps.map Prod.snd) (exps'.map Prod.snd) :=
    List.forall₂_map_left_iff.mpr (List.forall₂_map_right_iff.mpr hsame)
  refine (Agree.linkCells (SameCells.zip hcells hvalues)).bind fun _ _ _ => ?_
  exact Agree.forEach hsame fun e e' he => divideOne_agree h _ _ hsum he

end Layout

end SoftmaxConfig

open SoftmaxConfig

/-- The chip is configured on columns of its own; its table is loaded and one vector is normalized. -/
def LaidDown (k : UInt64) (domain : Domain) (config : SoftmaxConfig) (cs : ConstraintSystem Fr)
    (exps quotients : List (I18 × AssignedCell Fr)) (es : List (Event Fr)) : Prop :=
  ∃ cs₀ columns inputs n n', cs₀.WellFormed ∧ cs₀.lookups = [] ∧ columns.Distinct ∧
    configure columns k cs₀ = .ok (config, cs) ∧
    (do config.lookup.loadTable domain; config.assignCells domain inputs) n = .ok ((exps, quotients), es, n')

/-- In every satisfying assignment whose inputs are points of the table, the quotients are the softmax of the values
there. -/
def Determined (domain : Domain) (config : SoftmaxConfig) (cs : ConstraintSystem Fr)
    (exps quotients : List (I18 × AssignedCell Fr)) (es : List (Event Fr)) : Prop :=
  ∀ A, Satisfies cs es A → ∀ xs vs : List I18,
    List.Forall₂ (fun e (x : I18) => A.cell (config.inputCell e.2) = (x.raw : Fr)) exps xs →
    xs.mapM (value? domain) = some vs →
    ∃ qs, IsSoftmax vs qs ∧
      List.Forall₂ (fun c (q : I18) => A.cell (config.div.quotientCell c.2) = (shiftedRaw q : Fr)) quotients qs

variable {config : SoftmaxConfig} {cs : ConstraintSystem Fr} {T : List ℕ → List Fr → Prop} {A : Assignment Fr}
  {domain : Domain} {k : UInt64} {columns : Columns} {exps quotients : List (I18 × AssignedCell Fr)}
  {es : List (Event Fr)}

/-- What is laid down: the table, and what is done inside regions. -/
theorem LaidDown.split (h : LaidDown k domain config cs exps quotients es) :
    cs.WellFormed ∧ config.Installed cs ∧ config.k = k ∧ cs.lookups.map Plonkish.Lookup.idle = [config.lookup.idle] ∧
      config.lookup.TableIs (Loaded es) domain ∧ ∃ inputs n n' rest,
        es = .table [config.lookup.tableInput, config.lookup.tableOutput] (tableRows domain) :: rest ∧
        config.assignCells domain inputs n = .ok ((exps, quotients), rest, n') := by
  obtain ⟨cs₀, columns, inputs, n, n', hwf, hlookups, hdistinct, hconfigure, hrun⟩ := h
  obtain ⟨-, hwf', hinst, hk⟩ := configure_installed hdistinct config cs hconfigure
  have hidle := configure_adds cs₀ config cs hconfigure (by rw [hlookups]; rfl)
  obtain ⟨_, es₁, n₁, rest, hload, hassign, rfl⟩ := Synth.bind_eq_ok.mp hrun
  cases hload
  obtain ⟨-, -, -, hinner⟩ := assignCells_placed hinst inputs n _ rest n' hassign
  refine ⟨hwf' hwf, hinst, hk, hidle, fun row => ?_, inputs, n, n', rest, rfl, hassign⟩
  constructor
  · rintro ⟨rows, hmem, hrow⟩
    rcases List.mem_cons.mp hmem with heq | hmem
    · cases heq
      exact hrow
    · exact (hinner _ hmem).elim
  · intro hrow
    exact ⟨_, .head _, hrow⟩

section Soundness

theorem value?_of_distinct (hdistinct : (domain.map Prod.fst).Nodup) {p : I18 × I18} (hp : p ∈ domain) :
    value? domain p.1 = some p.2 := by
  obtain ⟨v, hv⟩ := LookupConfig.value?_isSome hp
  rw [hv]
  exact congrArg some (congrArg Prod.snd (List.inj_on_of_nodup_map hdistinct (LookupConfig.value?_mem hv) hp rfl))

/-- The table's own rows give the values of the table. -/
theorem mapM_value? (hdistinct : (domain.map Prod.fst).Nodup) {rows : List (I18 × I18)} {xs vs : List I18}
    (hrows : List.Forall₂ (fun (p : I18 × I18) (x : I18) => p ∈ domain ++ [padRow] ∧ p.1 = x) rows xs)
    (hvs : xs.mapM (value? domain) = some vs)
    (hpad : padRow ∈ rows → ∀ v, value? domain padRow.1 = some v → v = padRow.2) : rows.map Prod.snd = vs := by
  have hvalues := Checked.mapM_eq_some.mp hvs
  have hsame : List.Forall₂ (fun (p : I18 × I18) v => p ∈ rows → p.2 = v) rows vs := by
    refine forall₂_trans ?_ hrows hvalues
    rintro p x v ⟨hp, rfl⟩ hv hmem
    rcases List.mem_append.mp hp with hp | hp
    · rw [value?_of_distinct hdistinct hp] at hv
      exact Option.some.inj hv
    · obtain rfl := List.mem_singleton.mp hp
      exact (hpad hmem v hv).symm
  have hmem := (List.forall₂_and_left rows vs).mpr ⟨fun _ hp => hp, hsame⟩
  rw [← List.forall₂_eq_eq_eq, List.forall₂_map_left_iff]
  exact hmem.imp fun _ _ h => h.2 h.1

/-- The inputs and the values of a satisfying assignment come from rows of the table. -/
theorem LaidDown.sound (h : LaidDown k domain config cs exps quotients es) (hA : Satisfies cs es A) :
    exps.length = k.toNat ∧ ∃ rows qs, List.Forall₂ (fun e (p : I18 × I18) => p ∈ domain ++ [padRow] ∧
      A.cell (config.inputCell e.2) = (p.1.raw : Fr)) exps rows ∧
      1 ≤ total (rows.map Prod.snd) ∧ total (rows.map Prod.snd) < 2 ^ 63 ∧ Quotients (rows.map Prod.snd) qs ∧
      List.Forall₂ (fun c (q : I18) => A.cell (config.div.quotientCell c.2) = (shiftedRaw q : Fr)) quotients qs := by
  obtain ⟨hwf, hinst, rfl, -, hT, inputs, n, n', rest, rfl, hassign⟩ := h.split
  exact (assignCells_sound hwf hinst hT inputs n _ rest n' hassign fun e he => hA.events e (.tail _ he)).2

/-- A table without a value for the reserved input, or a single input, leaves the prover no choice. -/
theorem determined_of (hdistinct : (domain.map Prod.fst).Nodup) (hnonneg : ∀ p ∈ domain, 0 ≤ p.2.raw)
    (hlaid : LaidDown k domain config cs exps quotients es)
    (h : k = 1 ∨ ∀ v, value? domain padRow.1 = some v → v.raw = 0) : Determined domain config cs exps quotients es := by
  intro A hA xs vs hxs hvs
  obtain ⟨hlen, rows, qs, hrows, hpos, hlt, hqs, hcells⟩ := hlaid.sound hA
  have hinputs : List.Forall₂ (fun (p : I18 × I18) (x : I18) => p ∈ domain ++ [padRow] ∧ p.1 = x) rows xs := by
    refine forall₂_trans ?_ hrows.flip hxs
    rintro p e x ⟨hp, hcell⟩ hx
    exact ⟨hp, raw_inj (hcell.symm.trans hx)⟩
  have hpad : padRow ∈ rows → ∀ v, value? domain padRow.1 = some v → v = padRow.2 := by
    intro hmem v hv
    rcases h with rfl | hzero
    · obtain ⟨p, rfl⟩ := List.length_eq_one_iff.mp (hrows.length_eq.symm.trans hlen)
      rw [← List.mem_singleton.mp hmem] at hpos
      exact absurd hpos (by decide)
    · exact I18.ext (hzero v hv)
  have hvalues := mapM_value? hdistinct hinputs hvs hpad
  rw [hvalues] at hpos hlt hqs
  refine ⟨qs, isSoftmax_of_quotients (fun v hv => ?_) hpos hlt hqs, hcells⟩
  obtain ⟨x, -, hx⟩ := forall₂_exists_of_mem (Checked.mapM_eq_some.mp hvs).flip hv
  exact hnonneg _ (LookupConfig.value?_mem hx)

end Soundness

section Forgery

/-- A prover that looks up any rows it likes, each in a table of its own. -/
def forgedCells (config : SoftmaxConfig) (rows : List (I18 × I18)) :
    Synth Fr SoftmaxError (List (I18 × AssignedCell Fr) × List (I18 × AssignedCell Fr)) := do
  Synth.ensure (rows.length = config.k.toNat) (.inputCountMismatch config.k.toNat rows.length)
  let exps ← Synth.forEach (fun p => (config.lookup.assign [p] p.1 true).mapError .lookup) rows
  let quotients ← config.normalize exps
  return (exps, quotients)

variable {rows : List (I18 × I18)}

theorem forgedCells_placed (h : config.Installed cs) : Placed (forgedCells config rows) :=
  Placed.ensure.bind fun _ => Placed.bind (Placed.forEach fun _ _ => Placed.mapError (LookupConfig.assign_placed h.lookup _))
    fun exps => (normalize_placed h exps).bind fun _ => .pure

theorem forgedCells_agree (h : config.Installed cs) {inputs : List I18} :
    Agree (config.assignCells domain inputs) (forgedCells config rows) fun c c' =>
      SamePlaces c.1 c'.1 ∧ SamePlaces c.2 c'.2 := by
  refine Agree.ensure.bind fun _ _ hlen => ?_
  refine Agree.bind (R := SamePlaces) ?_ fun exps exps' hexps => ?_
  · exact Agree.forEach (R := fun _ _ => True) (forall₂_of_length (hlen.1.trans hlen.2.symm)) fun x p _ =>
      Agree.mapError (LookupConfig.assign_agree [p] x p.1 true)
  · exact (normalize_agree h hexps).bind fun _ _ hquotients => .pure ⟨hexps, hquotients⟩

theorem forgedRow_complete (hwf : cs.WellFormed) (h : config.Installed cs) (hT : config.lookup.TableIs T domain)
    {p : I18 × I18} (hp : p ∈ domain ++ [padRow]) : Complete cs T A (config.lookup.assign [p] p.1 true) fun e =>
      e.1 = p.2 ∧ A.cell (config.inputCell e.2) = (p.1.raw : Fr) ∧ A.Has e.2 config.lookup.output (p.2.raw : Fr) := by
  have hvalue : value? [p] p.1 = some p.2 := by simp [value?]
  unfold LookupConfig.assign
  rw [hvalue]
  refine Triple.bind (Q := fun v => v = p.2) (.pure rfl) fun v hv => ?_
  subst hv
  refine Triple.bind (Q := fun c : AssignedCell Fr × AssignedCell Fr =>
    A.cell (config.inputCell c.2) = (p.1.raw : Fr) ∧ A.Has c.2 config.lookup.output (p.2.raw : Fr)) ?_
    fun c hc => .pure ⟨rfl, hc⟩
  intro n c es n' hrun hes
  obtain ⟨hholds, hin, hout⟩ := LookupConfig.lookupRegion_complete hwf h.lookup hT "lookup assign" hp n c es n' hrun hes
  rw [LookupConfig.lookupRegion_lays "lookup assign" p.1 p.2 n] at hrun
  cases hrun
  exact ⟨hholds, hin.value, hout⟩

theorem forgedCells_complete (hwf : cs.WellFormed) (h : config.Installed cs) (hT : config.lookup.TableIs T domain)
    (hrows : ∀ p ∈ rows, p ∈ domain ++ [padRow]) : Complete cs T A (forgedCells config rows) fun c =>
      List.Forall₂ (fun e (p : I18 × I18) => A.cell (config.inputCell e.2) = (p.1.raw : Fr)) c.1 rows ∧
        List.Forall₂ (fun c (p : I18 × I18) => ∃ q : I18, A.cell (config.div.quotientCell c.2) = (shiftedRaw q : Fr) ∧
          q.raw = p.2.raw * scale18 / total (rows.map Prod.snd)) c.2 rows := by
  refine Triple.ensure.bind fun _ _ => ?_
  refine Triple.bind (Triple.forEach fun p hp => Triple.mapError (forgedRow_complete hwf h hT (hrows p hp)))
    fun exps hexps => ?_
  have hvalues : exps.map Prod.fst = rows.map Prod.snd := by
    rw [← List.forall₂_eq_eq_eq, List.forall₂_map_left_iff, List.forall₂_map_right_iff]
    exact hexps.flip.imp fun _ _ he => he.1
  have houtputs : ∀ e ∈ exps, A.Has e.2 config.lookup.output (e.1.raw : Fr) := by
    intro e he
    obtain ⟨p, -, hvalue, -, hcell⟩ := forall₂_exists_of_mem hexps.flip he
    exact hvalue ▸ hcell
  refine (normalize_complete hwf h houtputs).bind fun quotients hquotients => .pure ⟨?_, ?_⟩
  · exact hexps.flip.imp fun _ _ he => he.2.1
  · refine forall₂_trans ?_ hquotients.flip hexps.flip
    rintro c e p ⟨hcell, hq⟩ ⟨hvalue, -, -⟩
    exact ⟨c.1, hcell, by rw [hq, hvalue, hvalues]⟩

/-- Lookups of values with a positive sum are followed by a run that succeeds. -/
theorem normalized_decides (h : config.Installed cs) {look : Synth Fr SoftmaxError (List (I18 × AssignedCell Fr))} {c : Prop}
    {vs : List I18} (hlook : Decides look c fun exps => vs = exps.map Prod.fst) (hlen : vs.length = config.k.toNat)
    (hnonneg : ∀ v ∈ vs, 0 ≤ v.raw) (hpos : 0 < total vs) (hlt : total vs < 2 ^ 63) :
    Decides (do let exps ← look; let quotients ← config.normalize exps; return (exps, quotients)) (c ∧ True ∧ True)
      fun _ => True := by
  let s : I18 := ⟨total vs, by rw [signedShift]; omega, hlt⟩
  have hsum : reduceSum vs = some s := by
    refine reduceSum_of_nonneg ?_ hnonneg rfl
    rw [hlen, ← h.size]
    exact h.sum.pos
  refine hlook.bind fun exps hexps => ?_
  refine Decides.bind ((normalize_decides h exps).iff (d := True) ?_ fun _ _ _ => trivial) fun _ _ => .pure trivial
  simp only [iff_true]
  have hexpsLen : exps.length = config.sum.k := by
    rw [← List.length_map (f := Prod.fst), ← hexps, hlen, h.size]
  refine ⟨hexpsLen, s, hexps ▸ hsum, fun e he => ?_⟩
  have hmem : e.1 ∈ vs := hexps ▸ List.mem_map_of_mem he
  exact divQuotientRemainder_of_le (hnonneg _ hmem) (raw_le_total hnonneg hmem) hpos

theorem forgedCells_ok (h : config.Installed cs) (hlen : rows.length = config.k.toNat)
    (hnonneg : ∀ v ∈ rows.map Prod.snd, 0 ≤ v.raw) (hpos : 0 < total (rows.map Prod.snd))
    (hlt : total (rows.map Prod.snd) < 2 ^ 63) (n : ℕ) : ∃ r, forgedCells config rows n = .ok r := by
  have hvalue : ∀ p : I18 × I18, value? [p] p.1 = some p.2 := by simp [value?]
  have hlookUps : Decides (Synth.forEach (fun p => (config.lookup.assign [p] p.1 true).mapError SoftmaxError.lookup) rows)
      (∀ p ∈ rows, True ∧ (value? [p] p.1).isSome) fun exps => rows.map Prod.snd = exps.map Prod.fst := by
    refine (Decides.forEach fun p _ => Decides.mapError (LookupConfig.assign_decides p.1)).mono fun exps hexps => ?_
    rw [← List.forall₂_eq_eq_eq, List.forall₂_map_left_iff, List.forall₂_map_right_iff]
    exact hexps.imp fun p e he => Option.some.inj ((hvalue p).symm.trans he)
  have hrun : Decides (forgedCells config rows) (rows.length = config.k.toNat ∧
      (∀ p ∈ rows, True ∧ (value? [p] p.1).isSome) ∧ True ∧ True) fun _ => True :=
    Decides.ensure.bind fun _ _ => normalized_decides h hlookUps (by rw [List.length_map, hlen]) hnonneg hpos hlt
  exact (hrun n).2 ⟨hlen, fun p _ => ⟨trivial, by rw [hvalue]; rfl⟩, trivial, trivial⟩

/-- A table with a value for the reserved input lets the prover choose zero instead. -/
theorem not_determined (hnonneg : ∀ p ∈ domain, 0 ≤ p.2.raw) (hlaid : LaidDown k domain config cs exps quotients es)
    (hk : k ≠ 1) {v : I18} (hv : value? domain padRow.1 = some v) (hne : v.raw ≠ 0) :
    ¬Determined domain config cs exps quotients es := by
  intro hdetermined
  obtain ⟨hwf, hinst, rfl, hidle, hT, inputs, n, n', rest, rfl, hassign⟩ := hlaid.split
  have hmem := LookupConfig.value?_mem hv
  have hpos : 0 < v.raw := lt_of_le_of_ne (hnonneg _ hmem) (Ne.symm hne)
  have hsize : 2 ≤ config.k.toNat := by
    have hone : config.k.toNat ≠ 1 := fun heq => hk (UInt64.toNat_inj.mp heq)
    have hkpos := hinst.sum.pos
    rw [hinst.size] at hkpos
    omega
  obtain ⟨m, hm⟩ : ∃ m, config.k.toNat = m + 2 := ⟨config.k.toNat - 2, by omega⟩
  -- one lookup of the value of the reserved input, all others of the reserved row
  let rows : List (I18 × I18) := (padRow.1, v) :: List.replicate (m + 1) padRow
  have hrowsLen : rows.length = config.k.toNat := by simp [rows, hm]
  have htotal : total (rows.map Prod.snd) = v.raw := by
    simp [rows, total, padRow]
  have hvalues : ∀ w ∈ rows.map Prod.snd, 0 ≤ w.raw := by
    simp [rows, padRow, hpos.le]
  have hrows : ∀ p ∈ rows, p ∈ domain ++ [padRow] := by
    intro p hp
    rcases List.mem_cons.mp hp with rfl | hp
    · exact List.mem_append_left _ hmem
    · rw [(List.mem_replicate.mp hp).2]
      simp
  have hvupper := v.upper
  have hagree : Agree (config.assignCells domain inputs) (forgedCells config rows) fun c c' =>
      SamePlaces c.1 c'.1 ∧ SamePlaces c.2 c'.2 := forgedCells_agree hinst
  obtain ⟨A, c, hholds, ⟨hexps, hquotients⟩, hins, hqs⟩ := exists_forged hagree (forgedCells_placed hinst)
    (fun A => forgedCells_complete (A := A) hwf hinst hT hrows) hassign
    (forgedCells_ok hinst hrowsLen hvalues (htotal ▸ hpos) (htotal ▸ hvupper) n)
  have hA : Satisfies cs (.table [config.lookup.tableInput, config.lookup.tableOutput] (tableRows domain) :: rest) A := by
    refine ⟨fun e he => ?_, fun l hl => ?_⟩
    · rcases List.mem_cons.mp he with rfl | he
      · trivial
      · exact hholds e he
    · have hidle' : l.idle ∈ [config.lookup.idle] := hidle ▸ List.mem_map_of_mem hl
      have hloaded := (hT (tableRow padRow)).mpr (List.mem_map_of_mem (by simp))
      change Loaded _ l.idle.1 l.idle.2
      rw [List.mem_singleton.mp hidle']
      exact hloaded
  have hinputs : List.Forall₂ (fun e (x : I18) => A.cell (config.inputCell e.2) = (x.raw : Fr)) exps
      (List.replicate (m + 2) padRow.1) := by
    have hxs : rows.map Prod.fst = List.replicate (m + 2) padRow.1 := by
      simp [rows, List.replicate_succ]
    rw [← hxs, List.forall₂_map_right_iff]
    refine forall₂_trans ?_ hexps hins
    intro e e' p hcell hin
    rwa [inputCell, hcell]
  have hlooked : (List.replicate (m + 2) padRow.1).mapM (value? domain) = some (List.replicate (m + 2) v) := by
    rw [Checked.mapM_eq_some, List.forall₂_iff_get]
    exact ⟨by simp, fun i hi hi' => by simpa using hv⟩
  obtain ⟨qs, hsoftmax, hcells⟩ := hdetermined A hA _ _ hinputs hlooked
  -- the first quotient is one, and not the share of one value of many
  have hforged : List.Forall₂ (fun c (p : I18 × I18) => ∃ q : I18, A.cell (config.div.quotientCell c.2) = (shiftedRaw q : Fr) ∧
      q.raw = p.2.raw * scale18 / total (rows.map Prod.snd)) quotients rows := by
    refine forall₂_trans ?_ hquotients hqs
    rintro c c' p hcell ⟨q, hq, hraw⟩
    exact ⟨q, by rw [DivConfig.quotientCell, hcell]; exact hq, hraw⟩
  obtain ⟨q₀, hq₀, q, hcell, hraw⟩ := forall₂_exists_of_mem hforged.flip (List.mem_cons_self : (padRow.1, v) ∈ rows)
  obtain ⟨q', hq', hcell'⟩ := forall₂_exists_of_mem hcells hq₀
  obtain rfl : q = q' := shiftedRaw_inj (hcell.symm.trans hcell')
  obtain ⟨w, hw, hshare⟩ := forall₂_exists_of_mem hsoftmax.quotients hq'
  rw [(List.mem_replicate.mp hw).2, total_replicate] at hshare
  rw [htotal, mul_comm, Int.mul_ediv_cancel _ hpos.ne'] at hraw
  have hless : v.raw * scale18 / ((m + 2 : ℕ) * v.raw) < scale18 := by
    apply Int.ediv_lt_of_lt_mul (mul_pos (by omega) hpos)
    have hscaled : 0 < v.raw * scale18 := mul_pos hpos (by norm_num [scale18])
    have hmany : scale18 * ((m + 2 : ℕ) * v.raw) = (m + 2 : ℕ) * (v.raw * scale18) := by ring
    rw [hmany]
    exact lt_mul_of_one_lt_left hscaled (by push_cast; omega)
  omega

end Forgery

theorem assignCells_ok (h : config.Installed cs) {xs vs : List I18} (hvs : xs.mapM (value? domain) = some vs)
    (hlen : xs.length = config.k.toNat) (hnonneg : ∀ v ∈ vs, 0 ≤ v.raw) (hpos : 0 < total vs) (hlt : total vs < 2 ^ 63)
    (n : ℕ) : ∃ r, config.assignCells domain xs n = .ok r := by
  have hvalues := Checked.mapM_eq_some.mp hvs
  have hlookUps : Decides (config.lookUps domain xs) (∀ x ∈ xs, True ∧ (value? domain x).isSome)
      fun exps => vs = exps.map Prod.fst := by
    refine (Decides.forEach fun x _ => Decides.mapError (LookupConfig.assign_decides x)).mono fun exps hexps => ?_
    rw [← List.forall₂_eq_eq_eq, List.forall₂_map_right_iff]
    exact forall₂_trans (fun v x e hv he => Option.some.inj (hv.symm.trans he)) hvalues.flip hexps
  have hrun : Decides (config.assignCells domain xs) (xs.length = config.k.toNat ∧
      (∀ x ∈ xs, True ∧ (value? domain x).isSome) ∧ True ∧ True) fun _ => True :=
    Decides.ensure.bind fun _ _ => normalized_decides h hlookUps (hvalues.length_eq ▸ hlen) hnonneg hpos hlt
  refine (hrun n).2 ⟨hlen, fun x hx => ⟨trivial, ?_⟩, trivial, trivial⟩
  obtain ⟨v, -, hv⟩ := forall₂_exists_of_mem hvalues hx
  rw [hv]
  rfl

/-- The outputs are the softmax of the table's values exactly if the table has no other value than zero for the reserved
input, or there is one input only. -/
theorem determined_iff (hdistinct : (domain.map Prod.fst).Nodup) (hnonneg : ∀ p ∈ domain, 0 ≤ p.2.raw)
    (hlaid : LaidDown k domain config cs exps quotients es) : Determined domain config cs exps quotients es ↔
      k = 1 ∨ ∀ v, value? domain padRow.1 = some v → v.raw = 0 := by
  constructor
  · intro hdetermined
    by_contra hnot
    push Not at hnot
    obtain ⟨hk, v, hv, hne⟩ := hnot
    exact not_determined hnonneg hlaid hk hv hne hdetermined
  · exact determined_of hdistinct hnonneg hlaid

/-- The columns of a caller that hands over twelve of its own. -/
def ownColumns : Columns where
  expInput := .advice 0
  expOutput := .advice 1
  sumValues := .advice 2
  sum := .advice 3
  sumShift := .advice 4
  divNumerator := .advice 5
  divDivisor := .advice 6
  divQShift := .advice 7
  divR := .advice 8
  divSlack := .advice 9
  divDm1 := .advice 10
  bits := .advice 11

theorem exists_laidDown {x v : I18} (hv : value? domain x = some v) (hpos : 0 < v.raw) (hlt : 2 * v.raw < 2 ^ 63) :
    ∃ config cs exps quotients es, LaidDown 2 domain config cs exps quotients es := by
  obtain ⟨config, cs, hconfigure⟩ : ∃ config cs, configure ownColumns 2 { numAdvice := 12 } = .ok (config, cs) := ⟨_, _, rfl⟩
  have hwf : ({ numAdvice := 12 } : ConstraintSystem Fr).WellFormed :=
    ⟨fun s hs => absurd hs List.not_mem_nil, List.nodup_nil⟩
  have hdistinct : ownColumns.Distinct := by
    unfold Columns.Distinct
    decide
  obtain ⟨-, -, hinst, hk⟩ := configure_installed hdistinct config cs hconfigure
  have hvs : [x, x].mapM (value? domain) = some [v, v] := by simp [hv]
  have htotal : total [v, v] = 2 * v.raw := by
    rw [two_mul]
    simp [total]
  obtain ⟨⟨⟨exps, quotients⟩, rest, n'⟩, hrun⟩ := assignCells_ok hinst hvs (by rw [hk]; rfl) (by simp [hpos.le])
    (by omega) (by omega) 0
  exact ⟨config, cs, exps, quotients, _, _, ownColumns, [x, x], 0, n', hwf, rfl, hdistinct, hconfigure,
    Synth.bind_eq_ok.mpr ⟨(), _, 0, rest, rfl, hrun, rfl⟩⟩

/-- The exponential of zero. -/
def zeroToOne : Domain := [(default, LookupConfig.fixedOne)]

/-- The exponential of `-9.223372036854775808`. -/
def expOfLeast : I18 := ⟨98705287961584, by decide, by decide⟩

/-- The table of a single point, the least fixed-point number, which is the reserved input. -/
def leastPoint : Domain := [(padRow.1, expOfLeast)]

theorem not_determined_leastPoint : ∃ config cs exps quotients es,
    LaidDown 2 leastPoint config cs exps quotients es ∧ ¬Determined leastPoint config cs exps quotients es := by
  have hv : value? leastPoint padRow.1 = some expOfLeast := rfl
  obtain ⟨config, cs, exps, quotients, es, hlaid⟩ := exists_laidDown hv (by decide) (by decide)
  exact ⟨config, cs, exps, quotients, es, hlaid, not_determined (by decide) hlaid (by decide) hv (by decide)⟩

theorem determined_iff_zeroToOne : ∃ config cs exps quotients es, LaidDown 2 zeroToOne config cs exps quotients es ∧
    (Determined zeroToOne config cs exps quotients es ↔
      (2 : UInt64) = 1 ∨ ∀ v, value? zeroToOne padRow.1 = some v → v.raw = 0) := by
  have hv : value? zeroToOne default = some LookupConfig.fixedOne := rfl
  obtain ⟨config, cs, exps, quotients, es, hlaid⟩ := exists_laidDown hv (by decide) (by decide)
  exact ⟨config, cs, exps, quotients, es, hlaid, determined_iff (by decide) (by decide) hlaid⟩

end Zkie.Softmax
