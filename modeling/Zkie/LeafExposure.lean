import Zkie.CircuitLayout
import Zkie.PoseidonCircuit

namespace Zkie.ProgramCircuit

open ScalarField FixedPoint Plonkish Synthesis Satisfaction Placement RmsNorm Isa Assembler PoseidonBoundary

section Shows

variable {ε α β : Type} {H : Event Fr → Prop} {A : Assignment Fr} {column : Column} {offset : ℕ} {p : Synth Fr ε α}
  {f : α → Synth Fr ε β} {Q : α → List Fr → Prop} {R : β → List Fr → Prop}

/-- The program exposes consecutive rows from `offset` on, and its result is related to what they hold. -/
def Shows (H : Event Fr → Prop) (A : Assignment Fr) (column : Column) (offset : ℕ) (p : Synth Fr ε α)
    (Q : α → List Fr → Prop) : Prop :=
  ∀ n a es n', p n = .ok (a, es, n') → (∀ e ∈ es, H e) → ∃ count,
    es.filterMap exposed = (List.range' offset count).map (column, ·) ∧
      Q a ((List.range' offset count).map (A.instances column))

theorem Shows.mono {Q' : α → List Fr → Prop} (h : Shows H A column offset p Q) (himp : ∀ a vs, Q a vs → Q' a vs) :
    Shows H A column offset p Q' := by
  intro n a es n' hrun hes
  obtain ⟨count, hrows, hq⟩ := h n a es n' hrun hes
  exact ⟨count, hrows, himp _ _ hq⟩

theorem Shows.of_silent {Q : α → Prop} (h : Triple H Silent p Q) : Shows H A column offset p fun a vs => vs = [] ∧ Q a := by
  intro n a es n' hrun hes
  obtain ⟨hsilent, hq⟩ := h n a es n' hrun hes
  exact ⟨0, List.filterMap_eq_nil_iff.mpr hsilent, rfl, hq⟩

theorem Shows.bind (hp : Shows H A column offset p Q)
    (hf : ∀ a vs, Q a vs → Shows H A column (offset + vs.length) (f a) fun b ws => R b (vs ++ ws)) :
    Shows H A column offset (p >>= f) R := by
  intro n b es n'' hrun hes
  obtain ⟨a, es₁, n', es₂, ha, hb, rfl⟩ := Synth.bind_eq_ok.mp hrun
  obtain ⟨count, hrows, hq⟩ := hp n a es₁ n' ha fun e he => hes e (List.mem_append_left _ he)
  obtain ⟨count', hrows', hr⟩ := hf a _ hq n' b es₂ n'' hb fun e he => hes e (List.mem_append_right _ he)
  rw [List.length_map, List.length_range'] at hrows' hr
  refine ⟨count + count', ?_, ?_⟩
  · rw [List.filterMap_append, hrows, hrows', ← List.map_append, List.range'_append_1]
  · rwa [← List.map_append, List.range'_append_1] at hr

/-- A part that exposes nothing. -/
theorem Shows.after {Q : α → Prop} (hp : Triple H Silent p Q) (hf : ∀ a, Q a → Shows H A column offset (f a) R) :
    Shows H A column offset (p >>= f) R := by
  apply (Shows.of_silent hp).bind
  rintro a vs ⟨rfl, hq⟩
  exact hf a hq

theorem Shows.pure {a : α} (h : Q a []) : Shows H A column offset (Pure.pure a : Synth Fr ε α) Q :=
  (Shows.of_silent (Triple.pure (Q := (· = a)) rfl)).mono fun _ _ ⟨hvs, ha⟩ => by rwa [hvs, ha]

/-- The program writes `values` and returns the next row. -/
def Spells (H : Event Fr → Prop) (A : Assignment Fr) (column : Column) (offset : ℕ) (p : Synth Fr ε ℕ) (values : List Fr)
    (P : Prop) : Prop :=
  Shows H A column offset p fun next vs => next = offset + vs.length ∧ vs = values ∧ P

theorem Spells.bind {p : Synth Fr ε ℕ} {f : ℕ → Synth Fr ε ℕ} {xs ys : List Fr} {P P' : Prop}
    (hp : Spells H A column offset p xs P) (hf : ∀ next, Spells H A column next (f next) ys P') :
    Spells H A column offset (p >>= f) (xs ++ ys) (P ∧ P') := by
  apply Shows.bind hp
  rintro _ _ ⟨rfl, rfl, hp'⟩
  apply (hf _).mono
  rintro _ _ ⟨rfl, rfl, hf'⟩
  exact ⟨by rw [List.length_append, add_assoc], rfl, hp', hf'⟩

theorem Spells.iff {p : Synth Fr ε ℕ} {xs ys : List Fr} {P P' : Prop} (h : Spells H A column offset p xs P) (heq : xs = ys)
    (himp : P → P') : Spells H A column offset p ys P' := by
  apply h.mono
  rintro _ _ ⟨rfl, rfl, hp⟩
  exact ⟨rfl, heq, himp hp⟩

theorem Spells.foldEach {f : ℕ → α → Synth Fr ε ℕ} {g : α → List Fr} {P : α → Prop} {xs : List α}
    (h : ∀ offset, ∀ x ∈ xs, Spells H A column offset (f offset x) (g x) (P x)) (offset : ℕ) :
    Spells H A column offset (Synth.foldEach f offset xs) (xs.flatMap g) (∀ x ∈ xs, P x) := by
  induction xs generalizing offset with
  | nil => exact Shows.pure ⟨rfl, rfl, by simp⟩
  | cons x xs ih =>
      have hrest := ih fun offset y hy => h offset y (List.mem_cons_of_mem _ hy)
      exact ((h offset x (by simp)).bind fun next => hrest next).iff rfl List.forall_mem_cons.mpr

end Shows

section Exposures

variable {prims : Primitives} {poseidon : PoseidonBoundaryConfig} {compress : Fr → Fr → Fr} {cs : ConstraintSystem Fr}
  {T : List ℕ → List Fr → Prop} {A : Assignment Fr} {reading : Reading} {column : Column} {assigned : Registers} {offset : ℕ}

/-- What an assignment gives to the cells of a register. -/
def cellValues (A : Assignment Fr) (reg : RegisterCells) : List Fr := reg.cells.map fun c => A.cell c.cell

/-- An honest prover knows what the cells hold. -/
def Known (reading : Reading) (A : Assignment Fr) (reg : RegisterCells) : Prop :=
  List.Forall₂ (reading.Reads A) reg.cells (cellValues A reg)

/-- What the statement says of a tensor: the limbs of its descriptor and its commitment. -/
def boundaryValues (prims : Primitives) (compress : Fr → Fr → Fr) (d : BoundaryDescriptor) (values : List Fr) : List Fr :=
  d.publicBindingFields prims.blake3 ++ [commitFields prims.blake3 compress d values]

def tensorValues (A : Assignment Fr) (tensor : Option RegisterCells) : List Fr := tensor.elim [] (cellValues A)

theorem meets_expose {cell : Cell} {row : ℕ} (h : reading.Meets cs T A (.expose cell column row)) :
    A.instances column row = A.cell cell := by
  cases reading with
  | satisfying => exact h.2.2.symm
  | honest => exact h

theorem expose_spells (offset : ℕ) {cell : AssignedCell Fr} {v : Fr} (h : reading.Reads A cell v) :
    Spells (reading.Meets cs T A) A column offset (expose column offset cell) [v] True := by
  intro n next es n' hrun hes
  cases hrun
  refine ⟨1, rfl, rfl, ?_, trivial⟩
  have hrow := meets_expose (hes (.expose cell.cell column offset) (by simp))
  exact congrArg (fun v => [v]) (hrow.trans h.holds)

theorem exposeConstant_spells (offset : ℕ) (value : Fr) :
    Spells (reading.Meets cs T A) A column offset (exposeConstant poseidon column offset value) [value] True :=
  Shows.after (PoseidonBoundaryConfig.assignConstant_reads value) fun _ hcell => expose_spells offset hcell

theorem exposeConstants_spells (offset : ℕ) (values : List Fr) :
    Spells (reading.Meets cs T A) A column offset (Synth.foldEach (exposeConstant poseidon column) offset values) values True :=
  (Spells.foldEach (fun offset value _ => exposeConstant_spells offset value) offset).iff (List.flatMap_singleton' values)
    fun _ => trivial

theorem getTensor_silent (tensor : Option RegisterCells) :
    Triple (reading.Meets cs T A) Silent (getTensor tensor) fun reg => tensor = some reg := by
  apply Triple.ofExcept
  intro reg hreg
  exact AssemblerConfig.elim_eq_ok hreg

variable (hposeidon : poseidon.Installed prims.poseidon cs) (hcompress : Compresses prims.poseidon compress)
include hposeidon hcompress

/-- The commitment to a register. -/
theorem exposeCommitment_spells (offset : ℕ) (d : BoundaryDescriptor) {reg : RegisterCells} (h : Known reading A reg) :
    Spells (reading.Meets cs T A) A column offset (do
      let commitment ← poseidon.commitAssigned prims.poseidon prims.blake3 ErrorFront.synthesis d reg.cells
      expose column offset commitment) [commitFields prims.blake3 compress d (cellValues A reg)] True :=
  Shows.after (PoseidonBoundaryConfig.commitAssigned_reads hposeidon hcompress prims.blake3 _ d h)
    fun _ hcell => expose_spells offset hcell

theorem exposeInput_spells (hknown : ∀ reg ∈ assigned.inputs, Known reading A reg) (offset : ℕ) (entry : BoundaryDescriptor × ℕ) :
    Spells (reading.Meets cs T A) A column offset (exposeInput prims poseidon column assigned offset entry)
      (boundaryValues prims compress entry.1 (tensorValues A assigned.inputs[entry.2]?)) True := by
  refine ((exposeConstants_spells offset _).bind fun next => ?_).iff rfl (P := True ∧ True) fun _ => trivial
  apply Shows.after (getTensor_silent _)
  intro reg hreg
  rw [hreg]
  exact exposeCommitment_spells hposeidon hcompress next entry.1 (hknown reg (List.mem_of_getElem? hreg))

theorem exposeOutput_spells (hknown : ∀ reg ∈ assigned.virtuals, Known reading A reg) (offset : ℕ)
    (entry : ℕ × BoundaryDescriptor) :
    Spells (reading.Meets cs T A) A column offset (exposeOutput prims poseidon column assigned offset entry)
      (boundaryValues prims compress entry.2 (tensorValues A assigned.virtuals[entry.1]?)) True := by
  refine ((exposeConstants_spells offset _).bind fun next => ?_).iff rfl (P := True ∧ True) fun _ => trivial
  apply Shows.after (getTensor_silent _)
  intro reg hreg
  rw [hreg]
  apply Shows.after Triple.ensure
  intro _ _
  exact exposeCommitment_spells hposeidon hcompress next entry.2 (hknown reg (List.mem_of_getElem? hreg))

omit hposeidon hcompress

/-- The cells of a weight hold the fixed values, which the statement lists. -/
theorem exposeWeights_spells {reg : RegisterCells} {fixed : List I18} (hlength : reg.cells.length = fixed.length)
    (hknown : reading = .honest → List.Forall₂ (reading.Reads A) reg.cells (fixed.map i64ToFr)) (offset : ℕ) :
    Spells (reading.Meets cs T A) A column offset (exposeWeights poseidon column offset (reg, fixed)) (fixed.map i64ToFr)
      (cellValues A reg = fixed.map i64ToFr) := by
  have hentry : ∀ offset, ∀ p ∈ reg.cells.zip fixed, Spells (reading.Meets cs T A) A column offset
      (exposeWeight poseidon column offset p) [i64ToFr p.2] (A.cell p.1.cell = i64ToFr p.2) := by
    intro offset p hp
    apply Shows.after (PoseidonBoundaryConfig.constrainEqualToConstant_reads fun hhonest => ?_)
    · intro _ hreads
      exact (expose_spells offset hreads).iff rfl fun _ => hreads.holds
    · have hall := List.forall₂_map_right_iff.mp (hknown hhonest)
      exact (List.forall₂_iff_zip.mp hall).2 hp
  apply (Spells.foldEach hentry offset).iff
  · have hmap : (reg.cells.zip fixed).flatMap (fun p => [i64ToFr p.2]) = (reg.cells.zip fixed).map (i64ToFr ∘ Prod.snd) :=
      List.flatMap_pure_eq_map (i64ToFr ∘ Prod.snd) _
    rw [hmap, ← List.map_map, List.map_snd_zip hlength.ge]
  · intro hcells
    have hall : List.Forall₂ (fun (c : AssignedCell Fr) v => A.cell c.cell = i64ToFr v) reg.cells fixed :=
      List.forall₂_iff_zip.mpr ⟨hlength, fun hp => hcells _ hp⟩
    rw [cellValues, ← List.forall₂_eq_eq_eq, List.forall₂_map_left_iff, List.forall₂_map_right_iff]
    exact hall

theorem exposePrefix_shows (values : List Fr) (offset : ℕ) :
    Shows (reading.Meets cs T A) A column offset (Synth.foldEach (fun offset value => do
      let cell ← poseidon.assignPublicValue value
      expose column offset cell) offset values) fun next vs =>
        next = offset + vs.length ∧ vs.length = values.length ∧ (reading = .honest → vs = values) := by
  induction values generalizing offset with
  | nil => exact Shows.pure ⟨rfl, rfl, fun _ => rfl⟩
  | cons value values ih =>
      have hone : Shows (reading.Meets cs T A) A column offset (do
          let cell ← poseidon.assignPublicValue value
          expose column offset cell) fun next vs => next = offset + vs.length ∧ ∃ w, vs = [w] ∧ (reading = .honest → w = value) := by
        apply Shows.after (PoseidonBoundaryConfig.assignPublicValue_reads value)
        rintro cell ⟨w, hreads, hw⟩
        apply (expose_spells offset hreads).mono
        rintro _ _ ⟨rfl, rfl, -⟩
        exact ⟨rfl, w, rfl, hw⟩
      apply hone.bind
      rintro _ _ ⟨rfl, w, rfl, hw⟩
      apply (ih _).mono
      rintro _ vs ⟨rfl, hlength, hhonest⟩
      refine ⟨?_, by simp [hlength], fun h => by rw [hw h, hhonest h]; rfl⟩
      rw [List.length_append, add_assoc]

end Exposures

namespace AssemblerCircuit

section Leaf

variable {prims : Primitives} {poseidon : PoseidonBoundaryConfig} {compress : Fr → Fr → Fr} {cs : ConstraintSystem Fr}
  {T : List ℕ → List Fr → Prop} {A : Assignment Fr} {reading : Reading} {column : Column} {assigned : Registers}
  {circuit : AssemblerCircuit}

/-- The public values behind the prefix, for some values of the inputs and of the instructions' results. -/
def leafValues (prims : Primitives) (compress : Fr → Fr → Fr) (inputs : List BoundaryDescriptor)
    (outputs : List (ℕ × BoundaryDescriptor)) (weights : List (List I18)) (inputValues virtualValues : ℕ → List Fr) : List Fr :=
  inputs.zipIdx.flatMap (fun entry => boundaryValues prims compress entry.1 (inputValues entry.2)) ++
    [(outputs.length : Fr)] ++ outputs.flatMap (fun entry => boundaryValues prims compress entry.2 (virtualValues entry.1)) ++
    [((weights.map List.length).sum : Fr)] ++ weights.flatten.map i64ToFr

/-- The registers of a run: what is known of their cells, which for a weight are as many as its values. -/
structure RegistersKnown (reading : Reading) (A : Assignment Fr) (program : AssemblerProgram) (assigned : Registers) : Prop where
  inputs : ∀ reg ∈ assigned.inputs, Known reading A reg
  virtuals : ∀ reg ∈ assigned.virtuals, Known reading A reg
  weights : List.Forall₂ (fun reg weight => reg.cells.length = weight.length ∧
    (reading = .honest → List.Forall₂ (reading.Reads A) reg.cells (weight.map i64ToFr))) assigned.weights program.weightValues

theorem exposeLeaf_shows (hposeidon : poseidon.Installed prims.poseidon cs) (hcompress : Compresses prims.poseidon compress)
    (hfixed : circuit.params.fixedPublicWeights = circuit.program.weightValues)
    (hknown : RegistersKnown reading A circuit.program assigned) :
    Shows (reading.Meets cs T A) A column 0 (circuit.exposeLeaf prims poseidon column assigned) fun _ vs =>
      ∃ leading, leading.length = circuit.leafPrefix.length ∧ (reading = .honest → leading = circuit.leafPrefix) ∧
        vs = leading ++ leafValues prims compress circuit.params.boundaryInputs circuit.params.boundaryOutputs
          circuit.program.weightValues (fun i => tensorValues A assigned.inputs[i]?)
          (fun i => tensorValues A assigned.virtuals[i]?) ∧
        List.Forall₂ (fun reg weight => cellValues A reg = weight.map i64ToFr) assigned.weights circuit.program.weightValues := by
  apply (exposePrefix_shows _ _).bind
  rintro _ leading ⟨rfl, hlength, hhonest⟩
  apply Shows.bind (Spells.foldEach (fun offset entry _ => exposeInput_spells hposeidon hcompress hknown.inputs offset entry) _)
  rintro _ _ ⟨rfl, rfl, -⟩
  apply Shows.bind (exposeConstant_spells _ _)
  rintro _ _ ⟨rfl, rfl, -⟩
  apply Shows.bind (Spells.foldEach (fun offset entry _ => exposeOutput_spells hposeidon hcompress hknown.virtuals offset entry) _)
  rintro _ _ ⟨rfl, rfl, -⟩
  apply Shows.bind (exposeConstant_spells _ _)
  rintro _ _ ⟨rfl, rfl, -⟩
  rw [hfixed]
  have hzip := List.forall₂_iff_zip.mp hknown.weights
  apply Shows.bind (Spells.foldEach (P := fun entry => cellValues A entry.1 = entry.2.map i64ToFr)
    (fun offset entry hentry => exposeWeights_spells (hzip.2 hentry).1 (hzip.2 hentry).2 offset) _)
  rintro _ _ ⟨rfl, rfl, hweights⟩
  refine Shows.pure ⟨leading, hlength, hhonest, ?_, List.forall₂_iff_zip.mpr ⟨hzip.1, fun h => hweights _ h⟩⟩
  have hflat : (assigned.weights.zip circuit.program.weightValues).flatMap (fun entry => entry.2.map i64ToFr) =
      circuit.program.weightValues.flatten.map i64ToFr := by
    rw [List.map_flatten, ← List.flatMap_def]
    conv_rhs => rw [← List.map_snd_zip hzip.1.ge, List.flatMap_map]
  rw [hflat, leafValues]
  simp only [List.append_assoc, List.append_nil]

end Leaf

section Run

variable {prims : Primitives} {cs : ConstraintSystem Fr} {T : List ℕ → List Fr → Prop} {A : Assignment Fr} {reading : Reading}
  {circuit : AssemblerCircuit} {config : AssemblerCircuitConfig} {order : HashOrder} {n n' : ℕ} {es : List (Event Fr)}

theorem advised_reads {c : AssignedCell Fr} {v : I18} (h : Advised (reading.Meets cs T A) true c v) (hhonest : reading = .honest) :
    reading.Reads A c (i64ToFr v) := by
  subst hhonest
  obtain ⟨hvalue, hmeets⟩ := h
  rw [hvalue] at hmeets
  exact ⟨hmeets, fun _ => hvalue⟩

/-- An honest prover fills the cells of a register with its values. -/
theorem cellValues_honest {known : Bool} (hreading : reading = .honest → known = true) {reg : RegisterCells}
    (h : AdvisedCells (reading.Meets cs T A) known reg) (hhonest : reading = .honest) :
    List.Forall₂ (reading.Reads A) reg.cells (reg.values.map i64ToFr) := by
  rw [List.forall₂_map_right_iff]
  obtain rfl := hreading hhonest
  exact h.imp fun c v hc => advised_reads hc hhonest

theorem known_of_advised {known : Bool} (hreading : reading = .honest → known = true) {reg : RegisterCells}
    (h : AdvisedCells (reading.Meets cs T A) known reg) : Known reading A reg := by
  rw [Known, cellValues, List.forall₂_map_right_iff, List.forall₂_same]
  intro c hc
  refine ⟨rfl, fun hhonest => ?_⟩
  obtain ⟨v, -, hreads⟩ := forall₂_exists_of_mem (cellValues_honest hreading h hhonest) hc
  rw [hreads.known hhonest, hreads.holds]

theorem assign_known (hreading : reading = .honest → circuit.hasKnownWitnesses = true) :
    Triple (reading.Meets cs T A) (fun _ => True)
      (config.assembler.assign prims.floats order circuit.program circuit.hasKnownWitnesses)
      fun assigned => RegistersKnown reading A circuit.program assigned := by
  apply (assign_advised order circuit.program).mono
  rintro assigned ⟨hinputs, hweights, hvirtuals⟩
  refine ⟨fun reg hreg => ?_, fun reg hreg => known_of_advised hreading (hvirtuals reg hreg), ?_⟩
  · obtain ⟨_, -, -, hadvised⟩ := forall₂_exists_of_mem hinputs.flip hreg
    exact known_of_advised hreading hadvised
  · apply hweights.flip.imp
    rintro reg weight ⟨rfl, hadvised⟩
    exact ⟨hadvised.sized, cellValues_honest hreading hadvised⟩

/-- The parts of a synthesis; only the last one exposes anything. -/
theorem synthesize_ok (hinstalled : ∃ cs', config.assembler.Installed cs')
    (hrun : circuit.synthesize prims order config n = .ok ((), es, n')) :
    ∃ column assigned es₁ es₂ es₃ m, config.assembler.publicInstance = some column ∧ es = es₁ ++ (es₂ ++ es₃) ∧
      (∀ e ∈ es₁ ++ es₂, Silent e) ∧
      config.assembler.assign prims.floats order circuit.program circuit.hasKnownWitnesses n = .ok (assigned, es₂, m) ∧
      (if HasBoundaries circuit.params then circuit.exposeLeaf prims config.poseidon column assigned
        else circuit.exposeValues column assigned) m = .ok ((), es₃, n') := by
  obtain ⟨column, es₀, n₀, rest, hcolumn, hrest, rfl⟩ := Synth.bind_eq_ok.mp hrun
  obtain ⟨_, es₁, n₁, rest, htables, hassigning, rfl⟩ := Synth.bind_eq_ok.mp hrest
  obtain ⟨assigned, es₂, m, es₃, hassign, hexpose, rfl⟩ := Synth.bind_eq_ok.mp hassigning
  cases hpublic : config.assembler.publicInstance with
  | none =>
      rw [hpublic] at hcolumn
      cases hcolumn
  | some column' =>
      rw [hpublic] at hcolumn
      cases hcolumn
      have hexist := ((loadRmsNormTables_decides config.assembler prims.floats order _).1 _ _ _ htables).1
      rw [loadRmsNormTables_emits hexist order _] at htables
      cases htables
      have hassigned := Synth.mapError_eq_ok.mp hassign
      obtain ⟨cs', hinstalled⟩ := hinstalled
      refine ⟨column, assigned, _, es₂, es₃, m, rfl, rfl, List.forall_mem_append.mpr ⟨fun e he => ?_, ?_⟩, hassigned, hexpose⟩
      · have htable := isTable_entryTables e he
        cases e <;> first | rfl | cases htable
      · exact List.filterMap_eq_nil_iff.mp (AssemblerConfig.assign_cells hinstalled hassigned).2

end Run

end AssemblerCircuit

end Zkie.ProgramCircuit
