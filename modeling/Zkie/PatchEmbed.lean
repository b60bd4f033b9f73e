import Zkie.DotProduct
import Zkie.Forgery

namespace Zkie.PatchEmbed

open ScalarField FixedPoint Plonkish Synthesis Satisfaction HostRun Skeleton Placement Forgery RangeCheck Rescale DotProduct

inductive PatchEmbedError where
  | patchLengthMismatch (expected got : ℕ)
  | weightCountMismatch (expected got : ℕ)
  | weightLengthMismatch (dim expected got : ℕ)
  | dotProduct (dim : ℕ) (source : DotProductError)
  deriving DecidableEq, Repr

structure PatchEmbedConfig where
  dot : DotProductConfig
  patchLen : UInt64
  embedDim : UInt64
  deriving DecidableEq, Repr

/-- One weight column an output dimension. -/
abbrev Weights : Type := List (List I18)

namespace PatchEmbedConfig

def configure (a b accumulator q r slack bits : Column) (patchLen embedDim : UInt64) : Configure Fr PatchEmbedConfig := do
  assertThat (0 < embedDim) "embed_dim must be positive"
  let dot ← DotProductConfig.configure a b accumulator q r slack bits patchLen
  return { dot, patchLen, embedDim }

def loadRangeTable (config : PatchEmbedConfig) : Synth Fr PatchEmbedError Unit := config.dot.loadRangeTables

def validateWeights (config : PatchEmbedConfig) (weights : Weights) : Except PatchEmbedError Unit :=
  match weights.zipIdx.find? fun entry => entry.1.length ≠ config.patchLen.toNat with
  | some (weightCol, dim) => .error (.weightLengthMismatch dim config.patchLen.toNat weightCol.length)
  | none => .ok ()

/-- The dot product of one output dimension. -/
def assignDim (config : PatchEmbedConfig) (patch : List I18) (entry : List I18 × ℕ) :
    Synth Fr PatchEmbedError (I18 × AssignedCell Fr) :=
  (config.dot.assign patch entry.1).mapError (.dotProduct entry.2)

def assign (config : PatchEmbedConfig) (patch : List I18) (weights : Weights) :
    Synth Fr PatchEmbedError (List (I18 × AssignedCell Fr)) := do
  Synth.ensure (patch.length = config.patchLen.toNat) (.patchLengthMismatch config.patchLen.toNat patch.length)
  Synth.ensure (weights.length = config.embedDim.toNat) (.weightCountMismatch config.embedDim.toNat weights.length)
  Synth.ofExcept (config.validateWeights weights)
  Synth.forEach (config.assignDim patch) weights.zipIdx

end PatchEmbedConfig

open PatchEmbedConfig

/-- The chip is configured on columns of its own, which its caller has allocated; its range tables are loaded and one
patch is projected. -/
def LaidDown (patchLen embedDim : UInt64) (weights : Weights) (cs : ConstraintSystem Fr)
    (outputs : List (I18 × AssignedCell Fr)) (es : List (Event Fr)) : Prop :=
  ∃ cs₀ a b accumulator q r slack bits patch n n' config, cs₀.WellFormed ∧
    [bits, a, b, accumulator, q, r, slack].Nodup ∧ (∀ c ∈ [bits, a, b, accumulator, q, r, slack], cs₀.Allocated c) ∧
    configure a b accumulator q r slack bits patchLen embedDim cs₀ = .ok (config, cs) ∧
    (do config.loadRangeTable; config.assign patch weights) n = .ok (outputs, es, n')

/-- A weight matrix of the configured size. -/
structure Shaped (patchLen embedDim : UInt64) (weights : Weights) : Prop where
  columns : weights.length = embedDim.toNat
  rows : ∀ w ∈ weights, w.length = patchLen.toNat
  patchPos : 0 < patchLen
  embedPos : 0 < embedDim

/-- The quotients are the floors of the projections of one patch. -/
def IsProjection (weights : Weights) (patch : List I18) (quotients : List I18) : Prop :=
  List.Forall₂ (fun (z : I18) w => z.raw = dotSum patch w / scale18) quotients weights

/-- The quotient cells hold these numbers, in the shifted form. -/
def Holding (A : Assignment Fr) (outputs : List (I18 × AssignedCell Fr)) (quotients : List I18) : Prop :=
  List.Forall₂ (fun out z => A.cell out.2.cell = (shiftedRaw z : Fr)) outputs quotients

/-- The quotients of every satisfying assignment are the projection of one patch. -/
def Projects (patchLen embedDim : UInt64) (weights : Weights) : Prop :=
  ∀ cs outputs es A, LaidDown patchLen embedDim weights cs outputs es → Satisfies cs es A →
    ∃ patch quotients, patch.length = patchLen.toNat ∧ IsProjection weights patch quotients ∧ Holding A outputs quotients

/-- Every vector is the projection of some patch. -/
def Onto (patchLen embedDim : UInt64) (weights : Weights) : Prop :=
  ∀ quotients : List I18, quotients.length = embedDim.toNat →
    ∃ patch, patch.length = patchLen.toNat ∧ IsProjection weights patch quotients

variable {patchLen embedDim : UInt64} {weights : Weights} {cs : ConstraintSystem Fr} {T : List ℕ → List Fr → Prop}
  {A : Assignment Fr} {config : PatchEmbedConfig}

section Layout

theorem configure_installed {a b accumulator q r slack bits : Column}
    (hnd : [bits, a, b, accumulator, q, r, slack].Nodup)
    (halloc : ∀ c ∈ [bits, a, b, accumulator, q, r, slack], cs.Allocated c) :
    Configures (configure a b accumulator q r slack bits patchLen embedDim) cs fun config cs' =>
      config.dot.Installed cs' ∧ config.dot.k = patchLen.toNat ∧ config.patchLen = patchLen ∧ config.embedDim = embedDim := by
  refine Configures.assertThat.bind fun _ cs₁ hle _ => ?_
  refine (DotProductConfig.configure_installed hnd fun c hc => (halloc c hc).mono hle).bind fun dot cs₂ _ hdot => ?_
  exact Configures.pure ⟨hdot.1, hdot.2, rfl, rfl⟩

theorem configure_adds (a b accumulator q r slack bits : Column) :
    Adds [] (configure a b accumulator q r slack bits patchLen embedDim) fun config =>
      [config.dot.rangeA.idle, config.dot.rangeB.idle] :=
  Adds.assertThat.bind fun _ => (DotProductConfig.configure_adds _ _ _ _ _ _ _ patchLen []).bind fun _ => Adds.pure rfl

theorem assign_placed (h : config.dot.Installed cs) {patch : List I18} : Placed (config.assign patch weights) :=
  Placed.ensure.bind fun _ => Placed.ensure.bind fun _ => Placed.ofExcept.bind fun _ =>
    Placed.forEach fun _ _ => Placed.mapError (DotProductConfig.assign_placed h)

/-- The tables that the chip loads. -/
def tableEvents (config : PatchEmbedConfig) : List (Event Fr) :=
  [.table [config.dot.rangeA.table] LookupRangeCheckConfig.byteTable,
    .table [config.dot.rangeB.table] LookupRangeCheckConfig.byteTable]

theorem loadRangeTable_emits : Emits config.loadRangeTable () (tableEvents config) := fun _ => rfl

variable {rest : List (Event Fr)}

theorem onlyBytes (hrest : ∀ e ∈ rest, IsInner e) :
    LookupRangeCheckConfig.OnlyBytes (Loaded (tableEvents config ++ rest)) := by
  rintro t row ⟨rows, hmem, hrow⟩
  rcases List.mem_append.mp hmem with hmem | hmem
  · simp only [tableEvents, List.mem_cons, Event.table.injEq, List.not_mem_nil, or_false] at hmem
    rcases hmem with ⟨-, rfl⟩ | ⟨-, rfl⟩ <;> exact hrow
  · exact (hrest _ hmem).elim

theorem bytesLoaded : config.dot.rangeA.BytesLoaded (Loaded (tableEvents config ++ rest)) ∧
    config.dot.rangeB.BytesLoaded (Loaded (tableEvents config ++ rest)) :=
  ⟨fun _ hrow => ⟨_, List.mem_append_left _ (.head _), hrow⟩,
    fun _ hrow => ⟨_, List.mem_append_left _ (.tail _ (.head _)), hrow⟩⟩

/-- A run loads the tables, and then works inside regions. -/
theorem run_split (h : config.dot.Installed cs) {patch : List I18} {n n' : ℕ} {outputs : List (I18 × AssignedCell Fr)}
    {es : List (Event Fr)} (hrun : (do config.loadRangeTable; config.assign patch weights) n = .ok (outputs, es, n')) :
    ∃ rest, config.assign patch weights n = .ok (outputs, rest, n') ∧ es = tableEvents config ++ rest ∧
      ∀ e ∈ rest, IsInner e := by
  obtain ⟨_, es₁, n₁, rest, hload, hassign, rfl⟩ := Synth.bind_eq_ok.mp hrun
  rw [loadRangeTable_emits n] at hload
  cases hload
  obtain ⟨-, -, -, hinner⟩ := assign_placed h n outputs rest n' hassign
  exact ⟨rest, hassign, rfl, hinner⟩

end Layout

section Soundness

/-- The regions do not share their operands, so nothing but a 64-bit integer is known of each quotient. -/
theorem assign_sound (hwf : cs.WellFormed) (h : config.dot.Installed cs) (hT : LookupRangeCheckConfig.OnlyBytes T)
    {patch : List I18} : Sound cs T A (config.assign patch weights) fun outputs =>
      weights.length = config.embedDim.toNat ∧ ∃ quotients, quotients.length = weights.length ∧
        Holding A outputs quotients := by
  refine Triple.ensure.bind fun _ _ => Triple.ensure.bind fun _ hcount => ?_
  refine Triple.bind (.ofExcept (Q := fun _ => True) fun _ _ => trivial) fun _ _ => ?_
  apply (Triple.forEach (Q := fun _ out => ∃ x y : I18, True ∧ A.cell out.2.cell = (shiftedRaw y : Fr) ∧ x = y) ?_).mono
  · intro outputs houtputs
    obtain ⟨xs, quotients, hxs, hholding, heq⟩ := forall₂_choose houtputs
    refine ⟨hcount, quotients, ?_, hholding⟩
    rw [← heq.length_eq, ← hxs.length_eq, List.length_zipIdx]
  · intro entry _
    apply Triple.mapError
    apply (DotProductConfig.assign_sound hwf h hT).mono
    rintro out ⟨z, hz⟩
    exact ⟨z, z, trivial, hz, rfl⟩

end Soundness

section Forgery

/-- A vector with one number in front of zeros. -/
def headVec (k : ℕ) (x : I18) : List I18 := x :: List.replicate (k - 1) default

/-- The number one. -/
def one : I18 := ⟨scale18, by norm_num [scale18, signedShift], by norm_num [scale18, signedShift]⟩

theorem headVec_length {k : ℕ} (hk : 0 < k) (x : I18) : (headVec k x).length = k := by
  rw [headVec, List.length_cons, List.length_replicate]
  omega

theorem partialSum_headVec {k : ℕ} (x y : I18) (i : ℕ) :
    partialSum (headVec k x) (headVec k y) (i + 1) = x.raw * y.raw := by
  have hzeros : (List.zipWith (fun x y : I18 => x.raw * y.raw) (List.replicate (k - 1) default)
      (List.replicate (k - 1) default)) = List.replicate (k - 1) 0 := by
    rw [List.zipWith_replicate', show (default : I18).raw * (default : I18).raw = 0 from rfl]
  rw [partialSum, products, headVec, headVec, List.zipWith_cons_cons, hzeros, List.take_succ_cons, List.sum_cons,
    List.take_replicate, List.sum_replicate, smul_zero, add_zero]

theorem partialSum_default {k : ℕ} (b : List I18) (i : ℕ) : partialSum (List.replicate k default) b i = 0 := by
  apply List.sum_eq_zero
  intro v hv
  obtain ⟨j, hj, rfl⟩ := List.mem_iff_getElem.mp (List.mem_of_mem_take hv)
  simp only [products, List.getElem_zipWith, List.getElem_replicate]
  exact zero_mul _

/-- Vectors whose partial sums are all the same. -/
theorem rowFits_of_sums {dot : DotProductConfig} {a b : List I18} {s : ℤ} {q : I18} (hk : 0 < dot.k)
    (hla : a.length = dot.k) (hlb : b.length = dot.k) (hsums : ∀ i, partialSum a b (i + 1) = s)
    (hs : i128Min < s ∧ s < 2 ^ 127) (hq : q.raw = s / scale18) : DotProductConfig.RowFits dot a b true := by
  have hsum : dotSum a b = s := by
    rw [← DotProductConfig.partialSum_length hla hlb, ← Nat.succ_pred_eq_of_pos hk]
    exact hsums _
  refine ⟨hla, hlb, ?_, ?_, ?_⟩
  · intro i _
    rw [hsums]
    exact ⟨hs.1.le, hs.2⟩
  · rw [Option.isSome_iff_exists]
    exact ⟨(q, s % scale18), toOption_eq_some.mpr (requantizeRaw_eq_ok.mpr (by rw [hsum]; exact ⟨hq, rfl⟩))⟩
  · rintro ⟨-, i, -, hmin⟩
    rw [hsums] at hmin
    exact absurd hmin hs.1.ne'

theorem scaled_bounds (z : I18) : i128Min < z.raw * scale18 ∧ z.raw * scale18 < 2 ^ 127 := by
  have hlower := z.lower
  have hupper := z.upper
  simp only [signedShift, scale18, i128Min] at *
  omega

theorem rowFits_default {dot : DotProductConfig} (hk : 0 < dot.k) {w : List I18} (hw : w.length = dot.k) :
    DotProductConfig.RowFits dot (List.replicate dot.k default) w true :=
  rowFits_of_sums (q := default) hk (List.length_replicate ..) hw (fun _ => partialSum_default w _)
    (by norm_num [i128Min]) (by decide)

theorem rowFits_headVec {dot : DotProductConfig} (hk : 0 < dot.k) (z : I18) :
    DotProductConfig.RowFits dot (headVec dot.k z) (headVec dot.k one) true := by
  apply rowFits_of_sums (q := z) hk (headVec_length hk z) (headVec_length hk one) (partialSum_headVec z one)
    (scaled_bounds z)
  rw [one, Int.mul_ediv_cancel _ (by norm_num [scale18])]

/-- The loop of a prover that holds a quotient of its own for every dimension. -/
def forgedLoop (config : PatchEmbedConfig) (quotients : List I18) : Synth Fr PatchEmbedError (List (I18 × AssignedCell Fr)) :=
  Synth.forEach (fun z => config.assignDim (headVec config.dot.k z) (headVec config.dot.k one, 0)) quotients

variable {quotients : List I18}

theorem forgedLoop_ok (h : config.dot.Installed cs) (n : ℕ) : ∃ r, forgedLoop config quotients n = .ok r := by
  refine (Decides.forEach_always (fun z _ => ?_) n).2 trivial
  exact (Decides.mapError (DotProductConfig.assign_decides h)).iff (by simp [rowFits_headVec h.pos z]) fun _ _ => id

theorem forgedLoop_placed (h : config.dot.Installed cs) : Placed (forgedLoop config quotients) :=
  Placed.forEach fun _ _ => Placed.mapError (DotProductConfig.assign_placed h)

theorem forgedLoop_complete (hwf : cs.WellFormed) (h : config.dot.Installed cs) (hA : config.dot.rangeA.BytesLoaded T)
    (hB : config.dot.rangeB.BytesLoaded T) :
    Complete cs T A (forgedLoop config quotients) fun outputs => Holding A outputs quotients := by
  unfold forgedLoop Holding
  apply (Triple.forEach (Q := fun z (out : I18 × AssignedCell Fr) => A.cell out.2.cell = (shiftedRaw z : Fr)) ?_).mono
    fun _ houtputs => houtputs.flip
  intro z _
  apply Triple.mapError
  apply (DotProductConfig.assign_complete hwf h hA hB).mono
  rintro out ⟨q, hq, hout⟩
  have hsum : dotSum (headVec config.dot.k z) (headVec config.dot.k one) = z.raw * scale18 := by
    rw [← DotProductConfig.partialSum_length (headVec_length h.pos z) (headVec_length h.pos one),
      ← Nat.succ_pred_eq_of_pos h.pos]
    exact partialSum_headVec z one _
  rw [hsum, Int.mul_ediv_cancel _ (by norm_num [scale18])] at hq
  rw [hout, I18.ext hq]

theorem forgedLoop_agree (h : config.dot.Installed cs) (hlength : quotients.length = weights.length) (patch : List I18) :
    Agree (Synth.forEach (config.assignDim patch) weights.zipIdx) (forgedLoop config quotients)
      (List.Forall₂ fun out out' => out.2.cell = out'.2.cell) := by
  apply Agree.forEach (R := fun _ _ => True) (forall₂_of_length (by rw [List.length_zipIdx, hlength]))
  intro entry z _
  exact Agree.mapError (DotProductConfig.assign_agree h _ _)

theorem Shaped.validate (h : Shaped patchLen embedDim weights) (hlen : config.patchLen = patchLen) :
    config.validateWeights weights = .ok () := by
  have hfind : (weights.zipIdx.find? fun entry => entry.1.length ≠ config.patchLen.toNat) = none := by
    apply List.find?_eq_none.mpr
    rintro ⟨w, dim⟩ hmem
    have hw : w ∈ weights := (List.mem_zipIdx' hmem).2 ▸ List.getElem_mem _
    simp [hlen, h.rows w hw]
  rw [validateWeights, hfind]

/-- The columns that a caller allocates. -/
def freshColumns : ConstraintSystem Fr := { numAdvice := 7 }

theorem exists_configured (hshape : Shaped patchLen embedDim weights) : ∃ config cs,
    configure (.advice 0) (.advice 1) (.advice 2) (.advice 3) (.advice 4) (.advice 5) (.advice 6) patchLen embedDim
      freshColumns = .ok (config, cs) := by
  have hpos : 0 < patchLen.toNat := UInt64.lt_iff_toNat_lt.mp hshape.patchPos
  rw [configure, assertThat, if_pos hshape.embedPos, DotProductConfig.configure, assertThat, if_pos hpos]
  exact ⟨_, _, rfl⟩

theorem Holding.congr {outputs outputs' : List (I18 × AssignedCell Fr)} (h : Holding A outputs' quotients)
    (hsame : List.Forall₂ (fun out out' => out.2.cell = out'.2.cell) outputs outputs') : Holding A outputs quotients := by
  unfold Holding at h ⊢
  induction hsame generalizing quotients with
  | nil => exact h
  | cons hcell _ ih =>
      cases h with
      | cons hout houts => exact .cons (hcell ▸ hout) (ih houts)

/-- Whatever quotients a prover wants, some assignment with these quotients satisfies the circuit. -/
theorem exists_satisfying (hshape : Shaped patchLen embedDim weights) (hlength : quotients.length = embedDim.toNat) :
    ∃ cs outputs es A, LaidDown patchLen embedDim weights cs outputs es ∧ Satisfies cs es A ∧
      Holding A outputs quotients := by
  obtain ⟨config, cs, hconfigure⟩ := exists_configured hshape
  have hwf₀ : freshColumns.WellFormed := ⟨fun s hs => absurd hs List.not_mem_nil, List.nodup_nil⟩
  have hnd : [Column.advice 6, .advice 0, .advice 1, .advice 2, .advice 3, .advice 4, .advice 5].Nodup := by decide
  have halloc : ∀ c ∈ [Column.advice 6, .advice 0, .advice 1, .advice 2, .advice 3, .advice 4, .advice 5],
      freshColumns.Allocated c := by
    simp [ConstraintSystem.Allocated, freshColumns]
  obtain ⟨-, hwf, h, hk, hlen, hdim⟩ := configure_installed hnd halloc config cs hconfigure
  -- the run of an honest prover on a patch of zeros
  let patch : List I18 := List.replicate config.dot.k default
  obtain ⟨⟨outputs, rest, n⟩, hloop⟩ : ∃ r, Synth.forEach (config.assignDim patch) weights.zipIdx 0 = .ok r := by
    refine (Decides.forEach_always (fun entry hentry => ?_) 0).2 trivial
    have hw : entry.1.length = config.dot.k := by
      rw [hk]
      exact hshape.rows _ ((List.mem_zipIdx' hentry).2 ▸ List.getElem_mem _)
    exact (Decides.mapError (DotProductConfig.assign_decides h)).iff (by simp [patch, rowFits_default h.pos hw])
      fun _ _ => id
  have hpatch : patch.length = config.patchLen.toNat := by rw [hlen, ← hk, List.length_replicate]
  have hcount : weights.length = config.embedDim.toNat := hdim ▸ hshape.columns
  have hassign : config.assign patch weights 0 = .ok (outputs, rest, n) := by
    rw [PatchEmbedConfig.assign, hshape.validate hlen, Synth.ensure, if_pos hpatch, Synth.ensure, if_pos hcount]
    exact Synth.bind_eq_ok.mpr ⟨(), [], 0, rest, rfl, Synth.bind_eq_ok.mpr ⟨(), [], 0, rest, rfl,
      Synth.bind_eq_ok.mpr ⟨(), [], 0, rest, rfl, hloop, rfl⟩, rfl⟩, rfl⟩
  have hrun : (do config.loadRangeTable; config.assign patch weights) 0 = .ok (outputs, tableEvents config ++ rest, n) :=
    Synth.bind_eq_ok.mpr ⟨(), _, 0, rest, loadRangeTable_emits 0, hassign, rfl⟩
  obtain ⟨hA, hB⟩ := @bytesLoaded config rest
  obtain ⟨A, outputs', hholds, hsame, hholding⟩ := exists_forged
    (forgedLoop_agree h (hlength.trans hshape.columns.symm) patch) (forgedLoop_placed h)
    (fun A => forgedLoop_complete (A := A) (hwf hwf₀) h hA hB) hloop (forgedLoop_ok h 0)
  refine ⟨cs, outputs, _, A, ⟨_, _, _, _, _, _, _, _, patch, 0, n, config, hwf₀, hnd, halloc, hconfigure, hrun⟩,
    ⟨?_, ?_⟩, hholding.congr hsame⟩
  · intro e he
    rcases List.mem_append.mp he with he | he
    · simp only [tableEvents, List.mem_cons, List.not_mem_nil, or_false] at he
      rcases he with rfl | rfl <;> trivial
    · exact hholds e he
  · intro l hl
    have hidle : cs.lookups.map Plonkish.Lookup.idle = [config.dot.rangeA.idle, config.dot.rangeB.idle] :=
      configure_adds _ _ _ _ _ _ _ freshColumns config cs hconfigure rfl
    have hmem : l.idle ∈ [config.dot.rangeA.idle, config.dot.rangeB.idle] := hidle ▸ List.mem_map_of_mem hl
    have hzero : [(0 : Fr)] ∈ LookupRangeCheckConfig.byteTable :=
      List.mem_map.mpr ⟨0, List.mem_range.mpr (by norm_num [limbValues, limbBits]), by simp⟩
    change Loaded _ l.idle.1 l.idle.2
    simp only [List.mem_cons, List.not_mem_nil, or_false] at hmem
    rcases hmem with hmem | hmem <;> rw [hmem]
    · exact hA _ hzero
    · exact hB _ hzero

end Forgery

theorem holding_unique {outputs : List (I18 × AssignedCell Fr)} {v w : List I18} (hv : Holding A outputs v)
    (hw : Holding A outputs w) : v = w := by
  unfold Holding at hv hw
  induction hv generalizing w with
  | nil =>
      cases hw
      rfl
  | cons hout _ ih =>
      cases hw with
      | cons hout' houts' => rw [shiftedRaw_inj (hout.symm.trans hout'), ih houts']

/-- The quotients of every satisfying assignment are the projection of one patch, exactly if every vector is the
projection of some patch. -/
theorem projects_iff_onto (hshape : Shaped patchLen embedDim weights) :
    Projects patchLen embedDim weights ↔ Onto patchLen embedDim weights := by
  constructor
  · intro hprojects quotients hlength
    obtain ⟨cs, outputs, es, A, hlaid, hA, hholding⟩ := exists_satisfying hshape hlength
    obtain ⟨patch, quotients', hpatch, hprojection, hholding'⟩ := hprojects cs outputs es A hlaid hA
    exact ⟨patch, hpatch, holding_unique hholding' hholding ▸ hprojection⟩
  · rintro honto cs outputs es A ⟨cs₀, a, b, accumulator, q, r, slack, bits, patch, n, n', config, hwf₀, hnd, halloc,
      hconfigure, hrun⟩ hA
    obtain ⟨-, hwf, h, -, -, -⟩ := configure_installed hnd halloc config cs hconfigure
    obtain ⟨rest, hassign, rfl, hinner⟩ := run_split h hrun
    obtain ⟨-, -, quotients, hlength, hholding⟩ := assign_sound (hwf hwf₀) h (onlyBytes hinner) n outputs rest n' hassign
      fun e he => hA.events e (List.mem_append_right _ he)
    obtain ⟨patch', hpatch, hprojection⟩ := honto quotients (hlength.trans hshape.columns)
    exact ⟨patch', quotients, hpatch, hprojection, hholding⟩

theorem dotSum_one (z : I18) : z.raw = dotSum [z] [one] / scale18 := by
  rw [dotSum, products, List.zipWith_cons_cons, List.zipWith_nil_left, List.sum_singleton, one,
    Int.mul_ediv_cancel _ (by norm_num [scale18])]

/-- A single weight of one. -/
theorem projects_iff_onto_one : Projects 1 1 [[one]] := by
  have hshape : Shaped 1 1 [[one]] := ⟨rfl, by simp, by decide, by decide⟩
  apply (projects_iff_onto hshape).mpr
  intro quotients hlength
  obtain ⟨z, rfl⟩ := List.length_eq_one_iff.mp hlength
  exact ⟨[z], rfl, .cons (dotSum_one z) .nil⟩

/-- The patch cells of two dimensions are not linked: with two weights of one, the quotients may still differ. -/
theorem projects_repeated : ∃ cs outputs es A, LaidDown 1 2 [[one], [one]] cs outputs es ∧ Satisfies cs es A ∧
    Holding A outputs [one, default] ∧ ¬∃ patch quotients, patch.length = 1 ∧
      IsProjection [[one], [one]] patch quotients ∧ Holding A outputs quotients := by
  have hshape : Shaped 1 2 [[one], [one]] := ⟨rfl, by simp, by decide, by decide⟩
  obtain ⟨cs, outputs, es, A, hlaid, hA, hholding⟩ := @exists_satisfying _ _ _ [one, default] hshape rfl
  refine ⟨cs, outputs, es, A, hlaid, hA, hholding, ?_⟩
  rintro ⟨patch, quotients, -, hprojection, hholding'⟩
  rw [holding_unique hholding' hholding] at hprojection
  cases hprojection with
  | cons hfirst hrest =>
      cases hrest with
      | cons hsecond _ => exact absurd (hfirst.trans hsecond.symm) (by decide)

end Zkie.PatchEmbed
