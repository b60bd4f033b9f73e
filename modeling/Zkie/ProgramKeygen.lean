import Zkie.AssemblerNorm
import Zkie.ProgramCircuit

namespace Zkie.ProgramCircuit

open ScalarField FixedPoint Plonkish Synthesis Satisfaction HostRun RmsNorm Isa Assembler PoseidonBoundary

section Witnesses

variable {ε : Type} {config : AssemblerConfig} {floats : Floats} {known : Bool} {G : Event Fr → Prop}

/-- The cell was witnessed with a value, if witnesses are known at all. -/
def Advised (G : Event Fr → Prop) (known : Bool) (c : AssignedCell Fr) (v : I18) : Prop :=
  c.value = witness known (i64ToFr v) ∧ G (.advice c.cell c.value)

def AdvisedCells (G : Event Fr → Prop) (known : Bool) (reg : RegisterCells) : Prop :=
  List.Forall₂ (Advised G known) reg.cells reg.values

theorem advised_outputs {outs : List (I18 × AssignedCell Fr)} (h : ∀ out ∈ outs, Advised G known out.2 out.1) :
    AdvisedCells G known ⟨outs.map Prod.fst, outs.map Prod.snd⟩ := by
  rw [AdvisedCells, List.forall₂_map_left_iff, List.forall₂_map_right_iff, List.forall₂_same]
  exact h

/-- The canonical cell of an output is witnessed with the output. -/
theorem assignOutput_advised (link : String) (v : I18) (output : AssignedCell Fr) :
    Triple G (fun _ => True) (config.assignOutput (ε := ε) link v output known) fun out =>
      out.1 = v ∧ Advised G known out.2 out.1 := by
  apply Triple.bind (Q := fun c => Advised G known c.1 v)
    (.of_lays (AssemblerConfig.assignBridge_lays v) fun r hes => ⟨fun _ _ => trivial, rfl, hes _ (by simp)⟩)
  intro c hc
  apply Triple.any.bind
  intro _ _
  exact .pure ⟨rfl, hc⟩

theorem assignDotElement_advised (dot : DotProduct.DotProductConfig) (i j : ℕ) (a b : RegisterCells) :
    Triple G (fun _ => True) (config.assignDotElement dot i j a b known) fun out => Advised G known out.2 out.1 := by
  iterate 4
    apply Triple.any.bind
    intro _ _
  exact (assignOutput_advised _ _ _).mono fun _ h => h.2

theorem assignElement_advised (op : EltwiseOp) (idx : ℕ) (a b : I18) (aCell bCell : AssignedCell Fr) :
    Triple G (fun _ => True) (config.assignElement op idx a b aCell bCell known) fun out => Advised G known out.2 out.1 := by
  cases op with
  | add =>
      iterate 5
        apply Triple.any.bind
        intro _ _
      exact (assignOutput_advised _ _ _).mono fun _ h => h.2
  | mul =>
      iterate 3
        apply Triple.any.bind
        intro _ _
      exact (assignOutput_advised _ _ _).mono fun _ h => h.2
  | relu => exact Triple.fail

theorem rmsNorm_sized (rms : RmsNormConfig) (domain : Lookup.Domain) (inputs weight : List I18) :
    Triple G (fun _ => True) (rms.assign domain inputs weight known) fun result =>
      result.outputs.length = result.outputCells.length := by
  unfold RmsNormConfig.assign
  apply Triple.any.bind
  intro _ _
  apply Triple.any.bind
  intro _ _
  apply Triple.any.bind
  intro anchors _
  apply Triple.any.bind
  intro mean _
  apply Triple.any.bind
  intro rsqrt _
  apply Triple.any.bind
  intro outputs _
  exact .pure (by simp)

theorem assignRmsNorm_advised (regs : Registers) (inputs : List RegisterRef) (dim epsilonMilli : UInt64) :
    Triple G (fun _ => True) (config.assignRmsNorm floats regs inputs dim epsilonMilli known) (AdvisedCells G known) := by
  unfold AssemblerConfig.assignRmsNorm
  iterate 6
    apply Triple.any.bind
    intro _ _
  apply (Triple.mapError (rmsNorm_sized _ _ _ _)).bind
  intro result hresult
  apply Triple.any.bind
  intro _ _
  apply Triple.bind (Triple.forEach fun p _ => assignOutput_advised _ p.2.1 p.2.2)
  intro outs houts
  apply Triple.pure
  rw [AdvisedCells, ← AssemblerConfig.enumerate_values hresult, List.forall₂_map_left_iff, List.forall₂_map_right_iff]
  apply houts.flip.imp
  rintro out p ⟨heq, hadvised⟩
  rwa [heq] at hadvised

theorem assignInstruction_advised (regs : Registers) (instr : AssemblerInstruction) :
    Triple G (fun _ => True) (config.assignInstruction floats regs instr known) (AdvisedCells G known) := by
  obtain ⟨instruction, inputs⟩ := instr
  cases instruction with
  | dotGeneral m n k batchDims transA transB =>
      change Triple _ _ (config.assignDotGeneral regs inputs m n k batchDims transA transB known) _
      unfold AssemblerConfig.assignDotGeneral
      iterate 9
        apply Triple.any.bind
        intro _ _
      apply (Triple.forEach fun p _ => assignDotElement_advised _ p.1 p.2 _ _).bind
      intro outs houts
      apply Triple.pure
      apply advised_outputs
      intro out hout
      obtain ⟨_, -, hadvised⟩ := forall₂_exists_of_mem houts.flip hout
      exact hadvised
  | eltwise op =>
      have helt : ∀ op, Triple G (fun _ => True) (config.assignEltwise regs inputs op known) (AdvisedCells G known) := by
        intro op
        unfold AssemblerConfig.assignEltwise
        iterate 8
          apply Triple.any.bind
          intro _ _
        apply (Triple.forEach fun idx _ => assignElement_advised op idx _ _ _ _).bind
        intro outs houts
        apply Triple.pure
        apply advised_outputs
        intro out hout
        obtain ⟨_, -, hadvised⟩ := forall₂_exists_of_mem houts.flip hout
        exact hadvised
      cases op with
      | add => exact helt .add
      | mul => exact helt .mul
      | relu => exact Triple.fail
  | rmsNorm dim epsilonMilli => exact assignRmsNorm_advised regs inputs dim epsilonMilli
  | softmax | gelu | layerNorm | reduce | embedLookup | patchEmbed => exact Triple.fail

theorem assignTensors_advised (tensors : List (List I18)) :
    Triple G (fun _ => True) (config.assignTensors (ε := ε) tensors known) fun regs =>
      List.Forall₂ (fun tensor reg => reg.values = tensor ∧ AdvisedCells G known reg) tensors regs := by
  apply Triple.forEach
  intro tensor _
  apply Triple.bind (Q := fun cells => List.Forall₂ (Advised G known) cells tensor)
    (.of_lays (AssemblerConfig.assignBoundary_lays tensor) fun r hes => ⟨fun _ _ => trivial, ?_⟩)
  · intro cells hcells
    exact .pure ⟨rfl, hcells⟩
  · rw [List.forall₂_map_left_iff, List.forall₂_iff_get]
    refine ⟨List.length_range, fun row hrow htensor => ?_⟩
    have hvalue : tensor.getD row default = tensor[row] := List.getD_eq_getElem _ _ htensor
    simp only [List.get_eq_getElem, List.getElem_range, Advised, hvalue, true_and]
    apply hes
    rw [← hvalue]
    exact List.mem_cons_of_mem _ (List.mem_flatMap.mpr ⟨row, List.mem_range.mpr htensor, by simp⟩)

/-- Every cell of a register was witnessed with the value that the register keeps. -/
theorem assign_advised (order : HashOrder) (program : AssemblerProgram) :
    Triple G (fun _ => True) (config.assign floats order program known) fun regs =>
      List.Forall₂ (fun tensor reg => reg.values = tensor ∧ AdvisedCells G known reg) program.inputValues regs.inputs ∧
        List.Forall₂ (fun tensor reg => reg.values = tensor ∧ AdvisedCells G known reg) program.weightValues regs.weights ∧
        ∀ reg ∈ regs.virtuals, AdvisedCells G known reg := by
  unfold AssemblerConfig.assign
  apply Triple.any.bind
  intro _ _
  apply (assignTensors_advised program.inputValues).bind
  intro inputs hinputs
  apply (assignTensors_advised program.weightValues).bind
  intro weights hweights
  apply Triple.bind (Triple.foldEach (I := fun _ virtuals => ∀ reg ∈ virtuals, AdvisedCells G known reg) ?_ ?_)
  · intro virtuals hvirtuals
    exact .pure ⟨hinputs, hweights, hvirtuals⟩
  · intro done instr rest _ virtuals hvirtuals
    apply (assignInstruction_advised _ instr).bind
    intro out hout
    apply Triple.pure
    intro reg hreg
    rcases List.mem_append.mp hreg with hreg | hreg
    · exact hvirtuals reg hreg
    · rw [List.mem_singleton.mp hreg]
      exact hout
  · intro reg hreg
    cases hreg

/-- One cell for each value. -/
def SizedCells (reg : RegisterCells) : Prop := reg.cells.length = reg.values.length

theorem AdvisedCells.sized {reg : RegisterCells} (h : AdvisedCells G known reg) : SizedCells reg := List.Forall₂.length_eq h

theorem assign_sized (order : HashOrder) (program : AssemblerProgram) :
    Triple G (fun _ => True) (config.assign floats order program known) fun regs =>
      (∀ reg ∈ regs.inputs, SizedCells reg) ∧ ∀ reg ∈ regs.virtuals, SizedCells reg := by
  apply (assign_advised order program).mono
  rintro regs ⟨hinputs, -, hvirtuals⟩
  constructor
  · intro reg hreg
    obtain ⟨_, -, -, hadvised⟩ := forall₂_exists_of_mem hinputs.flip hreg
    exact hadvised.sized
  · intro reg hreg
    exact (hvirtuals reg hreg).sized

end Witnesses

section Success

variable {prims : Primitives} {poseidon : PoseidonBoundaryConfig} {column : Column} {assigned : Registers}

theorem expose_succeeds (offset : ℕ) (cell : AssignedCell Fr) : Succeeds (expose column offset cell) :=
  (Succeeds.emit _).bind fun _ => Succeeds.pure _

theorem exposeTensor_succeeds (offset : ℕ) (tensor : RegisterCells) : Succeeds (exposeTensor column offset tensor) :=
  Succeeds.foldEach expose_succeeds _ _

theorem exposeConstant_succeeds (offset : ℕ) (value : Fr) : Succeeds (exposeConstant poseidon column offset value) :=
  (PoseidonBoundaryConfig.assignConstant_succeeds value).bind fun _ => expose_succeeds _ _

theorem exposeWeights_succeeds (offset : ℕ) (entry : RegisterCells × List I18) :
    Succeeds (exposeWeights poseidon column offset entry) := by
  apply Succeeds.foldEach
  intro offset weight
  exact (PoseidonBoundaryConfig.constrainEqualToConstant_succeeds _ _).bind fun _ => expose_succeeds _ _

theorem getTensor_decides (tensor : Option RegisterCells) :
    Decides (getTensor tensor) tensor.isSome fun reg => tensor = some reg := by
  cases tensor with
  | none => exact (Decides.fail).iff (by simp) fun _ _ => id
  | some reg =>
      have hpure : Decides (Pure.pure reg : Synth Fr ErrorFront RegisterCells) True fun r => some reg = some r :=
        Decides.pure rfl
      exact hpure.iff (by simp) fun _ _ => id

/-- The number of cells of a register. -/
def cellCount (tensor : Option RegisterCells) : Option ℕ := tensor.map fun reg => reg.cells.length

/-- A tensor of the size that a valid descriptor says. -/
def Described (descriptor : BoundaryDescriptor) (count : Option ℕ) : Prop :=
  descriptor.validate.isOk ∧ count = some descriptor.elementCount.toNat

/-- Whatever comes after the tensor has been fetched depends on its size only. -/
theorem tensor_decides {tensor : Option RegisterCells} {descriptor : BoundaryDescriptor}
    {f : RegisterCells → Synth Fr ErrorFront ℕ}
    (hf : ∀ reg, Decides (f reg) (descriptor.validate.isOk ∧ reg.cells.length = descriptor.elementCount.toNat) fun _ => True) :
    Decides (getTensor tensor >>= f) (Described descriptor (cellCount tensor)) fun _ => True := by
  cases tensor with
  | none =>
      have hbind : Decides (getTensor none >>= f) ((none : Option RegisterCells).isSome ∧ True) fun _ => True := by
        apply (getTensor_decides none).bind
        intro reg hreg
        cases hreg
      exact hbind.iff (by simp [Described, cellCount]) fun _ _ => id
  | some reg =>
      have hbind : Decides (getTensor (some reg) >>= f) ((some reg).isSome ∧ descriptor.validate.isOk ∧
          reg.cells.length = descriptor.elementCount.toNat) fun _ => True := by
        apply (getTensor_decides (some reg)).bind
        intro reg' hreg
        cases hreg
        exact hf reg
      exact hbind.iff (by simp [Described, cellCount]) fun _ _ => id

theorem exposeInput_decides (offset : ℕ) (entry : BoundaryDescriptor × ℕ) :
    Decides (exposeInput prims poseidon column assigned offset entry)
      (Described entry.1 (cellCount assigned.inputs[entry.2]?)) fun _ => True := by
  apply (Succeeds.foldEach exposeConstant_succeeds _ _).before
  intro offset
  apply tensor_decides
  intro tensor
  exact ((PoseidonBoundaryConfig.commitAssigned_decides _ _ _ _).bind fun commitment _ => expose_succeeds _ _).iff
    (by simp) fun _ _ => id

theorem exposeOutput_decides (offset : ℕ) (entry : ℕ × BoundaryDescriptor) :
    Decides (exposeOutput prims poseidon column assigned offset entry)
      (Described entry.2 (cellCount assigned.virtuals[entry.1]?)) fun _ => True := by
  apply (Succeeds.foldEach exposeConstant_succeeds _ _).before
  intro offset
  apply tensor_decides
  intro tensor
  apply Decides.iff (Decides.ensure.bind fun _ _ => (PoseidonBoundaryConfig.commitAssigned_decides _ _ _ _).bind
    fun commitment _ => expose_succeeds _ _) _ fun _ _ => id
  simp only [and_true]
  constructor
  · exact And.right
  · intro h
    exact ⟨h.2, h⟩

/-- The public layout accepts tensors of these sizes. -/
def Fits (params : AssemblerCircuitParams) (inputs virtuals : ℕ → Option ℕ) : Prop :=
  if AssemblerCircuit.HasBoundaries params then
    (∀ entry ∈ params.boundaryInputs.zipIdx, Described entry.1 (inputs entry.2)) ∧
      ∀ entry ∈ params.boundaryOutputs, Described entry.2 (virtuals entry.1)
  else ∀ index ∈ params.publicOutputIndices, (virtuals index).isSome

namespace AssemblerCircuit

variable {circuit : AssemblerCircuit}

theorem exposeLeaf_decides : Decides (circuit.exposeLeaf prims poseidon column assigned)
    ((∀ entry ∈ circuit.params.boundaryInputs.zipIdx, Described entry.1 (cellCount assigned.inputs[entry.2]?)) ∧
      ∀ entry ∈ circuit.params.boundaryOutputs, Described entry.2 (cellCount assigned.virtuals[entry.1]?)) fun _ => True := by
  have hleaf : Succeeds (Synth.foldEach (fun offset value => do
      let cell ← poseidon.assignPublicValue value
      expose column offset cell) 0 circuit.leafPrefix) := by
    apply Succeeds.foldEach
    intro offset value
    exact (PoseidonBoundaryConfig.assignPublicValue_succeeds value).bind fun _ => expose_succeeds _ _
  apply hleaf.before
  intro offset
  apply (Decides.foldEach (fun s entry _ => exposeInput_decides s entry) offset).bind
  intro offset _
  apply (exposeConstant_succeeds _ _).before
  intro offset
  refine ((Decides.foldEach (fun s entry _ => exposeOutput_decides s entry) offset).bind fun offset _ => ?_).iff
    (and_iff_left trivial) fun _ _ => id
  apply (exposeConstant_succeeds _ _).bind
  intro offset
  exact (Succeeds.foldEach exposeWeights_succeeds _ _).bind fun _ => Succeeds.pure _

theorem exposeValues_decides : Decides (circuit.exposeValues column assigned)
    (∀ index ∈ circuit.params.publicOutputIndices, (cellCount assigned.virtuals[index]?).isSome) fun _ => True := by
  have hoffset : ∀ offset, Decides (Synth.foldEach (fun offset index => do
      let tensor ← getTensor assigned.virtuals[index]?
      exposeTensor column offset tensor) offset circuit.params.publicOutputIndices)
      (∀ index ∈ circuit.params.publicOutputIndices, (cellCount assigned.virtuals[index]?).isSome) fun _ => True := by
    intro offset
    apply Decides.foldEach
    intro offset index _
    exact ((getTensor_decides _).bind fun tensor _ => exposeTensor_succeeds offset tensor).iff (by simp [cellCount])
      fun _ _ => id
  apply (Succeeds.foldEach exposeTensor_succeeds _ _).before
  intro offset
  exact ((hoffset offset).bind fun _ _ => Succeeds.pure _).iff (and_iff_left trivial) fun _ _ => id

/-- The domains of all normalisations can be built. -/
def TablesExist (config : AssemblerConfig) (floats : Floats) : Prop :=
  ∀ entry ∈ config.rmsNorm, (entry.2.rsqrtDomain.table floats).isSome

theorem loadRmsNormTables_decides {ε : Type} (config : AssemblerConfig) (floats : Floats) (order : HashOrder) :
    Decides (config.loadRmsNormTables (ε := ε) floats order) (TablesExist config floats) fun _ => True := by
  have heach : Decides (Synth.forEach (ε := ε) (fun entry : (UInt64 × UInt64) × RmsNormConfig => do
      let domain ← Synth.unwrap "rsqrt domain" (entry.2.rsqrtDomain.table floats)
      entry.2.loadTable domain) (order.rmsNorm config.rmsNorm))
      (∀ entry ∈ order.rmsNorm config.rmsNorm, (entry.2.rsqrtDomain.table floats).isSome) fun _ => True := by
    apply Decides.mono (P := List.Forall₂ (fun _ _ => True) (order.rmsNorm config.rmsNorm))
    · apply Decides.forEach
      intro entry _
      have hload : ∀ domain, Succeeds (entry.2.loadTable (ε := ε) domain) := fun domain =>
        Decides.of_emits (AssemblerConfig.loadTable_emits entry.2 domain) trivial
      exact ((Decides.unwrap (P := fun _ => True) fun _ _ => trivial).bind fun domain _ => hload domain).iff (by simp)
        fun _ _ => id
    · intro _ _
      trivial
  refine (heach.bind fun _ _ => Succeeds.pure _).iff ?_ fun _ _ => id
  unfold TablesExist
  simp only [(order.rmsNorm_perm config.rmsNorm).mem_iff, and_true]

/-- The sizes of tensors. -/
def sizes (tensors : List (List I18)) (i : ℕ) : Option ℕ := (tensors[i]?).map List.length

theorem cellCount_eq {regs : List RegisterCells} (h : ∀ reg ∈ regs, SizedCells reg) (i : ℕ) :
    cellCount regs[i]? = sizes (regs.map RegisterCells.values) i := by
  unfold cellCount sizes
  rw [List.getElem?_map]
  cases hreg : regs[i]? with
  | none => rfl
  | some reg =>
      rw [Option.map_some, Option.map_some, Option.map_some]
      exact congrArg some (h reg (List.mem_of_getElem? hreg))

/-- The fixed-point evaluation of the program succeeds, and the sizes of its tensors fit the public layout. -/
def Evaluates (circuit : AssemblerCircuit) (prims : Primitives) (config : AssemblerCircuitConfig) : Prop :=
  TablesExist config.assembler prims.floats ∧ ∃ virtuals,
    config.assembler.hostProgram prims.floats circuit.hasKnownWitnesses circuit.program = some virtuals ∧
      Fits circuit.params (sizes circuit.program.inputValues) (sizes virtuals)

/-- A circuit is synthesized exactly when its program evaluates. -/
theorem synthesize_decides {config : AssemblerCircuitConfig} {cs : ConstraintSystem Fr}
    (hinstalled : config.assembler.Installed cs) (hpublic : config.assembler.publicInstance.isSome) (order : HashOrder) :
    Decides (circuit.synthesize prims order config) (circuit.Evaluates prims config) fun _ => True := by
  obtain ⟨column, hcolumn⟩ := Option.isSome_iff_exists.mp hpublic
  have htail : ∀ assigned : Registers, (assigned.inputs.map RegisterCells.values = circuit.program.inputValues ∧
      assigned.weights.map RegisterCells.values = circuit.program.weightValues ∧
      config.assembler.hostProgram prims.floats circuit.hasKnownWitnesses circuit.program =
        some (assigned.virtuals.map RegisterCells.values)) ∧
      ((∀ reg ∈ assigned.inputs, SizedCells reg) ∧ ∀ reg ∈ assigned.virtuals, SizedCells reg) →
      Decides (if HasBoundaries circuit.params then circuit.exposeLeaf prims config.poseidon column assigned
        else circuit.exposeValues column assigned)
        (∃ virtuals, config.assembler.hostProgram prims.floats circuit.hasKnownWitnesses circuit.program = some virtuals ∧
          Fits circuit.params (sizes circuit.program.inputValues) (sizes virtuals)) fun _ => True := by
    rintro assigned ⟨⟨hinputs, -, hhost⟩, hsizedInputs, hsizedVirtuals⟩
    have hcount : Fits circuit.params (fun i => cellCount assigned.inputs[i]?) (fun i => cellCount assigned.virtuals[i]?) ↔
        ∃ virtuals, config.assembler.hostProgram prims.floats circuit.hasKnownWitnesses circuit.program = some virtuals ∧
          Fits circuit.params (sizes circuit.program.inputValues) (sizes virtuals) := by
      simp only [cellCount_eq hsizedInputs, cellCount_eq hsizedVirtuals, hinputs, hhost, Option.some_inj]
      simp
    unfold Fits at hcount
    split
    · rename_i hboundaries
      rw [if_pos hboundaries] at hcount
      exact exposeLeaf_decides.iff hcount fun _ _ => id
    · rename_i hboundaries
      rw [if_neg hboundaries] at hcount
      exact exposeValues_decides.iff hcount fun _ _ => id
  have hassign : Decides ((config.assembler.assign prims.floats order circuit.program circuit.hasKnownWitnesses).mapError
      fun _ => ErrorFront.synthesis) _ _ :=
    Decides.mapError (Decides.and_triple (AssemblerConfig.assign_decides hinstalled order circuit.program)
      (assign_sized order circuit.program))
  have hunwrap : Decides (Synth.unwrap "AssemblerCircuit always configures public instances"
      (some column) : Synth Fr ErrorFront Column) True fun c => c = column := Decides.pure rfl
  unfold synthesize
  rw [hcolumn]
  refine (hunwrap.bind fun c hc => hc ▸ (loadRmsNormTables_decides _ _ _).bind fun _ _ => hassign.bind htail).iff ?_
    fun _ _ => id
  unfold Evaluates
  rw [true_and]
  apply and_congr_right
  intro _
  constructor
  · exact And.right
  · rintro ⟨virtuals, hhost, hfits⟩
    exact ⟨⟨trivial, by rw [hhost]; rfl⟩, virtuals, hhost, hfits⟩

theorem configured_installed {params : AssemblerCircuitParams} {config : AssemblerCircuitConfig} {cs : ConstraintSystem Fr}
    (h : configureWithParams prims params {} = .ok (config, cs)) :
    ∃ cs', config.assembler.Installed cs' ∧ config.assembler.publicInstance.isSome ∧
      config.assembler.rmsNorm.map Prod.fst = rmsNormKeys params.instructions := by
  obtain ⟨assembler, cs₁, hassembler, hrest⟩ := Configures.bind_ok h
  obtain ⟨poseidon, cs₂, -, hpure⟩ := Configures.bind_ok hrest
  cases hpure
  obtain ⟨-, -, hinstalled, -, -, hkeys, hpublic⟩ :=
    AssemblerConfig.configureInternal_installed params.instructions true assembler cs₁ hassembler
  exact ⟨cs₁, hinstalled, hpublic rfl, hkeys⟩

theorem keygenSucceeds_iff {order : HashOrder} {config : AssemblerCircuitConfig} {cs : ConstraintSystem Fr}
    (hconfigure : configureWithParams prims circuit.params {} = .ok (config, cs)) :
    circuit.KeygenSucceeds prims order ↔ circuit.withoutWitnesses.Evaluates prims config := by
  obtain ⟨cs', hinstalled, hpublic, -⟩ := configured_installed hconfigure
  have hdecides : Decides (circuit.withoutWitnesses.synthesize prims order config)
      (circuit.withoutWitnesses.Evaluates prims config) fun _ => True := synthesize_decides hinstalled hpublic order
  constructor
  · rintro ⟨config', cs'', ⟨a, es, n'⟩, hconfigure', hrun⟩
    change configureWithParams prims circuit.params {} = _ at hconfigure'
    rw [hconfigure] at hconfigure'
    cases hconfigure'
    exact ((hdecides 0).1 a es n' hrun).1
  · intro hevaluates
    obtain ⟨r, hr⟩ := (hdecides 0).2 hevaluates
    exact ⟨config, cs, r, hconfigure, hr⟩

/-- Key generation treats two circuits with the same parameters alike exactly when the programs evaluate alike on the
values that the circuits were built with. -/
theorem keygen_alike_iff (circuit circuit' : AssemblerCircuit) (hparams : circuit.params = circuit'.params)
    (prims : Primitives) (order order' : HashOrder) :
    (circuit.KeygenSucceeds prims order ↔ circuit'.KeygenSucceeds prims order') ↔
      ∀ config cs, configureWithParams prims circuit.params {} = .ok (config, cs) →
        (circuit.withoutWitnesses.Evaluates prims config ↔ circuit'.withoutWitnesses.Evaluates prims config) := by
  constructor
  · intro halike config cs hconfigure
    have hsucceeds : circuit.KeygenSucceeds prims order ↔ circuit.withoutWitnesses.Evaluates prims config :=
      keygenSucceeds_iff hconfigure
    have hsucceeds' : circuit'.KeygenSucceeds prims order' ↔ circuit'.withoutWitnesses.Evaluates prims config :=
      keygenSucceeds_iff (hparams ▸ hconfigure)
    rw [← hsucceeds, ← hsucceeds']
    exact halike
  · intro hevaluates
    cases hconfigure : configureWithParams prims circuit.params {} with
    | error message =>
        constructor
        · rintro ⟨config, cs, _, hok, -⟩
          exact absurd (hconfigure.symm.trans hok) (by simp)
        · rintro ⟨config, cs, _, hok, -⟩
          change configureWithParams prims circuit'.params {} = _ at hok
          rw [← hparams, hconfigure] at hok
          cases hok
    | ok p =>
        have hsucceeds : circuit'.KeygenSucceeds prims order' ↔ circuit'.withoutWitnesses.Evaluates prims p.1 :=
          keygenSucceeds_iff (hparams ▸ hconfigure)
        rw [keygenSucceeds_iff hconfigure, hsucceeds]
        exact hevaluates p.1 p.2 hconfigure

/-- The constants of other packages, which a circuit without normalisations and boundaries never asks for. -/
def unusedPrimitives : Primitives :=
  ⟨AssemblerConfig.noFloats, fun _ => Vector.replicate 32 0, ⟨8, 57, fun _ => 0, fun _ _ => 0⟩⟩

/-- The sum of a number with itself. -/
def doubled (x : I18) : AssemblerProgram where
  instructions := [⟨.eltwise .add, [.input 0, .input 0]⟩]
  inputValues := [[x]]
  weightValues := []

def doubledCircuit (x : I18) : AssemblerCircuit := ⟨.fromProgram (doubled x) [] [0], doubled x, true, [], rfl, rfl, rfl⟩

theorem newWithPublicOutputs_doubled (x : I18) : newWithPublicOutputs (doubled x) [] [0] = .ok (doubledCircuit x) := by
  unfold newWithPublicOutputs
  rw [if_neg]
  · rfl
  · simp [doubled]

theorem doubled_params (x : I18) : (doubledCircuit x).params = (doubledCircuit default).params := rfl

theorem doubled_configured : ∃ config cs, (∀ x, configureWithParams unusedPrimitives (doubledCircuit x).params {} =
    .ok (config, cs)) ∧ config.assembler.rmsNorm = [] := by
  have hok : (configureWithParams unusedPrimitives (doubledCircuit default).params {}).toOption.isSome := by
    decide +kernel
  obtain ⟨⟨config, cs⟩, hsome⟩ := Option.isSome_iff_exists.mp hok
  have hconfigure := toOption_eq_some.mp hsome
  obtain ⟨-, -, -, hkeys⟩ := configured_installed hconfigure
  have hnone : rmsNormKeys (doubledCircuit default).params.instructions = [] := by decide +kernel
  refine ⟨config, cs, fun x => ?_, List.map_eq_nil_iff.mp (hkeys.trans hnone)⟩
  rw [doubled_params]
  exact hconfigure

/-- A number whose double is in range. -/
theorem evaluates_doubled {x y : I18} {known : Bool} {config : AssemblerCircuitConfig}
    (hrms : config.assembler.rmsNorm = [])
    (hhost : config.assembler.hostProgram unusedPrimitives.floats known (doubled x) = some [[y]]) :
    ({ doubledCircuit x with hasKnownWitnesses := known } : AssemblerCircuit).Evaluates unusedPrimitives config := by
  refine ⟨?_, [[y]], hhost, ?_⟩
  · intro entry hentry
    rw [hrms] at hentry
    cases hentry
  · unfold Fits
    rw [if_neg (by simp [HasBoundaries, doubledCircuit, AssemblerCircuitParams.fromProgram])]
    intro index hindex
    rw [List.mem_singleton.mp hindex]
    rfl

/-- A number of units. -/
def units (n : ℤ) : I18 := AssemblerConfig.fixedPoint (n * scale18)

theorem keygen_alike_iff_units : (doubledCircuit (units 1)).params = (doubledCircuit (units 2)).params ∧
    ((doubledCircuit (units 1)).KeygenSucceeds unusedPrimitives AssemblerConfig.insertionOrder ↔
      (doubledCircuit (units 2)).KeygenSucceeds unusedPrimitives AssemblerConfig.insertionOrder) := by
  obtain ⟨config, cs, hconfigure, hrms⟩ := doubled_configured
  refine ⟨rfl, (keygen_alike_iff (doubledCircuit (units 1)) (doubledCircuit (units 2)) rfl unusedPrimitives
    AssemblerConfig.insertionOrder AssemblerConfig.insertionOrder).mpr ?_⟩
  intro config' cs' hconfigure'
  rw [hconfigure] at hconfigure'
  cases hconfigure'
  have hone : config.assembler.hostProgram unusedPrimitives.floats false (doubled (units 1)) = some [[units 2]] := rfl
  have htwo : config.assembler.hostProgram unusedPrimitives.floats false (doubled (units 2)) = some [[units 4]] := rfl
  exact iff_of_true (evaluates_doubled hrms hone) (evaluates_doubled hrms htwo)

/-- The parameters of the circuits for one and for five agree, but only the first one's keys can be generated: ten is
out of range. -/
theorem keygen_doubled : newWithPublicOutputs (doubled (units 1)) [] [0] = .ok (doubledCircuit (units 1)) ∧
    newWithPublicOutputs (doubled (units 5)) [] [0] = .ok (doubledCircuit (units 5)) ∧
    (doubledCircuit (units 1)).params = (doubledCircuit (units 5)).params ∧
    (doubledCircuit (units 1)).KeygenSucceeds unusedPrimitives AssemblerConfig.insertionOrder ∧
    ¬(doubledCircuit (units 5)).KeygenSucceeds unusedPrimitives AssemblerConfig.insertionOrder := by
  obtain ⟨config, cs, hconfigure, hrms⟩ := doubled_configured
  have hone : config.assembler.hostProgram unusedPrimitives.floats false (doubled (units 1)) = some [[units 2]] := rfl
  have hfive : config.assembler.hostProgram unusedPrimitives.floats false (doubled (units 5)) = none := rfl
  refine ⟨newWithPublicOutputs_doubled _, newWithPublicOutputs_doubled _, rfl, ?_, ?_⟩
  · exact (keygenSucceeds_iff (hconfigure _)).mpr (evaluates_doubled hrms hone)
  · intro hsucceeds
    obtain ⟨-, virtuals, hhost, -⟩ := (keygenSucceeds_iff (hconfigure _)).mp hsucceeds
    exact absurd (hfive.symm.trans hhost) (by simp)

end AssemblerCircuit

end Success

end Zkie.ProgramCircuit
