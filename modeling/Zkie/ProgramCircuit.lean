import Zkie.Assembler
import Zkie.PoseidonBoundary

namespace Zkie.ProgramCircuit

open ScalarField FixedPoint Plonkish Synthesis Satisfaction HostRun Skeleton RmsNorm Isa Assembler PoseidonBoundary

/-- What shapes a circuit; the values of the inputs are not in it. -/
structure AssemblerCircuitParams where
  instructions : List AssemblerInstruction
  rmsNormDomains : RmsNormDomains
  inputShapes : List ℕ
  weightShapes : List ℕ
  publicOutputIndices : List ℕ
  boundaryInputs : List BoundaryDescriptor
  boundaryOutputs : List (ℕ × BoundaryDescriptor)
  leafPrefixLen : ℕ
  fixedPublicWeights : List (List I18)

def AssemblerCircuitParams.fromProgram (program : AssemblerProgram) (domains : RmsNormDomains)
    (publicOutputIndices : List ℕ) : AssemblerCircuitParams where
  instructions := program.instructions
  rmsNormDomains := domains
  inputShapes := program.inputValues.map List.length
  weightShapes := program.weightValues.map List.length
  publicOutputIndices := publicOutputIndices
  boundaryInputs := []
  boundaryOutputs := []
  leafPrefixLen := 0
  fixedPublicWeights := []

/-- A circuit; its parameters are those of its program. -/
structure AssemblerCircuit where
  params : AssemblerCircuitParams
  program : AssemblerProgram
  hasKnownWitnesses : Bool
  leafPrefix : List Fr
  instructions : params.instructions = program.instructions
  inputShapes : params.inputShapes = program.inputValues.map List.length
  weightShapes : params.weightShapes = program.weightValues.map List.length

namespace AssemblerCircuit

def newWithPublicOutputs (program : AssemblerProgram) (domains : RmsNormDomains) (publicOutputIndices : List ℕ) :
    Except String AssemblerCircuit :=
  if ¬publicOutputIndices.Pairwise (· < ·) ∨ ∃ index ∈ publicOutputIndices, program.instructions.length ≤ index then
    .error "public output indices must be strictly sorted, unique, and in range"
  else .ok ⟨.fromProgram program domains publicOutputIndices, program, true, [], rfl, rfl, rfl⟩

/-- The field elements that the boundary commitments absorb. -/
def poseidonWork (blake3 : Blake3) (descriptors : List BoundaryDescriptor) : ℕ :=
  (descriptors.map fun d => (d.canonicalFields blake3).length + d.elementCount.toNat + 2).sum

/-- The layouts that boundary commitments accept. A sum that overflows is beyond the limit as well. -/
def ValidBoundaries (blake3 : Blake3) (program : AssemblerProgram) (inputs : List BoundaryDescriptor)
    (outputs : List (ℕ × BoundaryDescriptor)) (leafPrefix : List Fr) : Prop :=
  inputs.length = program.inputValues.length ∧
    (∀ p ∈ inputs.zip program.inputValues, p.1.role = .input ∧ p.1.elementCount.toNat = p.2.length ∧ p.1.validate.isOk) ∧
    (outputs.map Prod.fst).Pairwise (· < ·) ∧
    (∀ p ∈ outputs, p.1 < program.instructions.length ∧ p.2.role = .output ∧ p.2.validate.isOk) ∧
    leafPrefix.length = 17 ∧ poseidonWork blake3 (inputs ++ outputs.map Prod.snd) ≤ 12000

instance (blake3 : Blake3) (program : AssemblerProgram) (inputs : List BoundaryDescriptor)
    (outputs : List (ℕ × BoundaryDescriptor)) (leafPrefix : List Fr) :
    Decidable (ValidBoundaries blake3 program inputs outputs leafPrefix) := inferInstanceAs (Decidable (_ ∧ _))

def newWithBoundaryCommitments (blake3 : Blake3) (program : AssemblerProgram) (domains : RmsNormDomains)
    (boundaryInputs : List BoundaryDescriptor) (boundaryOutputs : List (ℕ × BoundaryDescriptor)) (leafPrefix : List Fr) :
    Except String AssemblerCircuit :=
  if ValidBoundaries blake3 program boundaryInputs boundaryOutputs leafPrefix then
    .ok ⟨{ AssemblerCircuitParams.fromProgram program domains [] with
           boundaryInputs, boundaryOutputs, leafPrefixLen := leafPrefix.length,
           fixedPublicWeights := program.weightValues }, program, true, leafPrefix, rfl, rfl, rfl⟩
  else .error "invalid boundary commitment public layout"

def withoutWitnesses (circuit : AssemblerCircuit) : AssemblerCircuit := { circuit with hasKnownWitnesses := false }

end AssemblerCircuit

/-- What the circuits take from other packages. -/
structure Primitives where
  floats : Floats
  blake3 : Blake3
  poseidon : PoseidonParameters

structure AssemblerCircuitConfig where
  assembler : AssemblerConfig
  poseidon : PoseidonBoundaryConfig

def configureWithParams (prims : Primitives) (params : AssemblerCircuitParams) : Configure Fr AssemblerCircuitConfig := do
  let assembler ← AssemblerConfig.configureInternal prims.floats params.instructions params.rmsNormDomains true
  let poseidon ← PoseidonBoundary.configure prims.poseidon
  return ⟨assembler, poseidon⟩

inductive ErrorFront where
  | synthesis
  deriving DecidableEq, Repr

section Synthesize

/-- A cell becomes the next public value. -/
def expose (column : Column) (offset : ℕ) (cell : AssignedCell Fr) : Synth Fr ErrorFront ℕ := do
  Synth.constrainInstance cell column offset
  return offset + 1

def exposeTensor (column : Column) (offset : ℕ) (tensor : RegisterCells) : Synth Fr ErrorFront ℕ :=
  Synth.foldEach (expose column) offset tensor.cells

def exposeConstant (poseidon : PoseidonBoundaryConfig) (column : Column) (offset : ℕ) (value : Fr) :
    Synth Fr ErrorFront ℕ := do
  let cell ← poseidon.assignConstant value
  expose column offset cell

def getTensor (tensor : Option RegisterCells) : Synth Fr ErrorFront RegisterCells :=
  Synth.ofExcept (tensor.elim (.error .synthesis) .ok)

/-- The limbs of a descriptor and the commitment to its tensor. -/
def exposeInput (prims : Primitives) (poseidon : PoseidonBoundaryConfig) (column : Column) (assigned : Registers) (offset : ℕ)
    (entry : BoundaryDescriptor × ℕ) : Synth Fr ErrorFront ℕ := do
  let offset ← Synth.foldEach (exposeConstant poseidon column) offset (entry.1.publicBindingFields prims.blake3)
  let tensor ← getTensor assigned.inputs[entry.2]?
  let commitment ← poseidon.commitAssigned prims.poseidon prims.blake3 .synthesis entry.1 tensor.cells
  expose column offset commitment

def exposeOutput (prims : Primitives) (poseidon : PoseidonBoundaryConfig) (column : Column) (assigned : Registers)
    (offset : ℕ) (entry : ℕ × BoundaryDescriptor) : Synth Fr ErrorFront ℕ := do
  let offset ← Synth.foldEach (exposeConstant poseidon column) offset (entry.2.publicBindingFields prims.blake3)
  let tensor ← getTensor assigned.virtuals[entry.1]?
  Synth.ensure (tensor.cells.length = entry.2.elementCount.toNat) .synthesis
  let commitment ← poseidon.commitAssigned prims.poseidon prims.blake3 .synthesis entry.2 tensor.cells
  expose column offset commitment

/-- A weight is bound to its fixed value before it is exposed. -/
def exposeWeight (poseidon : PoseidonBoundaryConfig) (column : Column) (offset : ℕ) (entry : AssignedCell Fr × I18) :
    Synth Fr ErrorFront ℕ := do
  poseidon.constrainEqualToConstant entry.1 (i64ToFr entry.2)
  expose column offset entry.1

def exposeWeights (poseidon : PoseidonBoundaryConfig) (column : Column) (offset : ℕ) (entry : RegisterCells × List I18) :
    Synth Fr ErrorFront ℕ :=
  Synth.foldEach (exposeWeight poseidon column) offset (entry.1.cells.zip entry.2)

namespace AssemblerCircuit

/-- The public statement of a leaf: prefix, commitments, counts and weights. -/
def exposeLeaf (circuit : AssemblerCircuit) (prims : Primitives) (poseidon : PoseidonBoundaryConfig) (column : Column)
    (assigned : Registers) : Synth Fr ErrorFront Unit := do
  let offset ← Synth.foldEach (fun offset value => do
    let cell ← poseidon.assignPublicValue value
    expose column offset cell) 0 circuit.leafPrefix
  let offset ← Synth.foldEach (exposeInput prims poseidon column assigned) offset circuit.params.boundaryInputs.zipIdx
  let offset ← exposeConstant poseidon column offset (circuit.params.boundaryOutputs.length : Fr)
  let offset ← Synth.foldEach (exposeOutput prims poseidon column assigned) offset circuit.params.boundaryOutputs
  let offset ← exposeConstant poseidon column offset ((circuit.program.weightValues.map List.length).sum : Fr)
  let _ ← Synth.foldEach (exposeWeights poseidon column) offset
    (assigned.weights.zip circuit.params.fixedPublicWeights)

/-- The public values without boundaries: inputs, weights and the selected outputs. -/
def exposeValues (circuit : AssemblerCircuit) (column : Column) (assigned : Registers) : Synth Fr ErrorFront Unit := do
  let offset ← Synth.foldEach (exposeTensor column) 0 (assigned.inputs ++ assigned.weights)
  let _ ← Synth.foldEach (fun offset index => do
    let tensor ← getTensor assigned.virtuals[index]?
    exposeTensor column offset tensor) offset circuit.params.publicOutputIndices

def HasBoundaries (params : AssemblerCircuitParams) : Prop := params.boundaryInputs ≠ [] ∨ params.boundaryOutputs ≠ []

instance (params : AssemblerCircuitParams) : Decidable (HasBoundaries params) := inferInstanceAs (Decidable (_ ∨ _))

def synthesize (circuit : AssemblerCircuit) (prims : Primitives) (order : HashOrder) (config : AssemblerCircuitConfig) :
    Synth Fr ErrorFront Unit := do
  let column ← Synth.unwrap "AssemblerCircuit always configures public instances" config.assembler.publicInstance
  config.assembler.loadRmsNormTables prims.floats order
  let assigned ← (config.assembler.assign prims.floats order circuit.program circuit.hasKnownWitnesses).mapError
    fun _ => ErrorFront.synthesis
  if HasBoundaries circuit.params then circuit.exposeLeaf prims config.poseidon column assigned
  else circuit.exposeValues column assigned

/-- Key generation: the circuit is configured from its parameters and synthesized without witnesses. -/
def KeygenSucceeds (circuit : AssemblerCircuit) (prims : Primitives) (order : HashOrder) : Prop :=
  ∃ config cs r, configureWithParams prims circuit.withoutWitnesses.params {} = .ok (config, cs) ∧
    circuit.withoutWitnesses.synthesize prims order config 0 = .ok r

end AssemblerCircuit

end Synthesize

end Zkie.ProgramCircuit
