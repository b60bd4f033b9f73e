import Zkie.Interning
import Zkie.PlanDigest
import Zkie.StraightLine
import Zkie.WitnessExecution

namespace Zkie.ShardBinding

open Assembler (findKey)
open BuildDag (Dag Edge Shard ShardSpec buildDag)
open Checked
open FixedPoint (I18)
open GraphCompiler (CompiledInstruction CompiledProgram Register)
open Interning
open Isa (AssemblerInstruction AssemblerProgram Instruction RegisterRef)
open LineText (Text)
open Onnx (WeightTensor orElse)
open Zkie.Partition (PartitionPlan PlannedShard slice)
open PlanDigest (BoundaryLayout BoundaryTensorSpec registerKey)
open PoseidonBoundary (Blake3)
open RangeChain (Range)
open RunDatabase (Digest32)
open Std (ExtTreeMap)
open WitnessExecution (HostFloats Values)

section Model

inductive WeightError where
  | weightNotFound (name : String)
  | weightOutOfRange (index : ℕ) (value : UInt32) (source : String)
  deriving DecidableEq, Repr

/-- The errors of the binder, without those of the layout's constructors; the last one stands for a panic. -/
inductive ShardBindingError where
  | unknownShard (shardId : ℕ)
  | planProgramMismatch
  | boundaryLayoutMismatch
  | missingBoundaryShape (register : Register)
  | missingBoundary (register : Register)
  | extraBoundary (register : Register)
  | missingGraphInput (name : String)
  | boundaryLengthMismatch (register : Register) (expected actual : ℕ)
  | laterOrOutsideReference (instruction : ℕ) (register : Register)
  | outputOutsideProgram (register : Register)
  | weight (error : WeightError)
  | panicked
  deriving DecidableEq, Repr

/-- An end of a shard, with the edges that meet there and the graph outputs that are taken from it. -/
structure BoundaryDescriptor where
  register : Register
  elementCount : ℕ
  edgeIds : List Text
  graphOutputNames : List String
  deriving DecidableEq, Repr

structure BoundShardProgram where
  assemblerProgram : AssemblerProgram
  inputBoundaries : List BoundaryDescriptor
  outputBoundaries : List BoundaryDescriptor
  globalToLocal : List (ℕ × ℕ)
  weightNames : List String
  partitionPlanDigest : Digest32
  shardId : ℕ
  shardName : String
  shardRange : Range

def refuseIf (c : Prop) [Decidable c] (error : ShardBindingError) : Except ShardBindingError Unit :=
  if c then .error error else .ok ()

/-- `I18` values of a weight, converted one by one. -/
def weightAsI18 (floats : HostFloats) (program : CompiledProgram) (name : String) : Except WeightError (List I18) :=
  match findKey name program.weights with
  | none => .error (.weightNotFound name)
  | some tensor => tensor.data.zipIdx.mapM fun entry =>
      (floats.ofF32 entry.1).mapError fun source => .weightOutOfRange entry.2 entry.1 source

section Snapshot

def isNan (bits : UInt32) : Bool := bits &&& 0x7FFFFFFF > 0x7F800000

def isZero (bits : UInt32) : Bool := bits &&& 0x7FFFFFFF = 0

/-- The equality of `f32`: no number for NaN, one zero. -/
def SameFloat (a b : UInt32) : Prop := isNan a = false ∧ isNan b = false ∧ (a = b ∨ isZero a ∧ isZero b)

instance (a b : UInt32) : Decidable (SameFloat a b) := inferInstanceAs (Decidable (_ ∧ _))

def SameTensor (a b : WeightTensor) : Prop :=
  a.shape = b.shape ∧ a.data.length = b.data.length ∧ ∀ entry ∈ a.data.zip b.data, SameFloat entry.1 entry.2

instance (a b : WeightTensor) : Decidable (SameTensor a b) := inferInstanceAs (Decidable (_ ∧ _))

def SameWeight (weights : List (String × WeightTensor)) (entry : String × WeightTensor) : Prop :=
  ∃ tensor ∈ findKey entry.1 weights, SameTensor entry.2 tensor

instance (weights : List (String × WeightTensor)) (entry : String × WeightTensor) : Decidable (SameWeight weights entry) :=
  inferInstanceAs (Decidable (∃ tensor ∈ findKey entry.1 weights, SameTensor entry.2 tensor))

/-- The program is the one that the plan was made for, with `f32` equality on the weights. -/
def MatchesProgram (plan : PartitionPlan) (program : CompiledProgram) : Prop :=
  plan.programSnapshot.instructions = program.instructions ∧ plan.programSnapshot.graphInputs = program.graphInputs ∧
    plan.programSnapshot.graphOutputs = program.graphOutputs ∧
    (∀ entry ∈ plan.programSnapshot.weights, SameWeight program.weights entry) ∧
    ∀ entry ∈ program.weights, entry.1 ∈ plan.programSnapshot.weights.map Prod.fst

instance (plan : PartitionPlan) (program : CompiledProgram) : Decidable (MatchesProgram plan program) :=
  inferInstanceAs (Decidable (_ ∧ _))

end Snapshot

/-- The register is the result of this instruction or of a later one. -/
def isForward (instruction : ℕ) : Register → Bool
  | .virtual producer => instruction ≤ producer
  | .graphInput _ => false
  | .weight _ => false

def refuseFirst (p : Register → Bool) (error : Register → ShardBindingError) (registers : List Register) :
    Except ShardBindingError Unit :=
  match registers.find? p with
  | some register => .error (error register)
  | none => .ok ()

def checkBackward (program : CompiledProgram) : Except ShardBindingError Unit :=
  program.instructions.zipIdx.forM fun entry =>
    refuseFirst (isForward entry.2) (.laterOrOutsideReference entry.2) entry.1.inputs

def BoundaryLayout.get (layout : BoundaryLayout) (register : Register) : Except ShardBindingError BoundaryTensorSpec :=
  orElse (.missingBoundaryShape register) (layout.specs.find? fun spec => spec.register = register)

def sortRegisters (registers : List Register) : List Register := registers.insertionSort (registerKey · ≤ registerKey ·)

/-- The shard of the plan, which has to be the same one in the graph. -/
def plannedShard (plan : PartitionPlan) (shardId : ℕ) : Except ShardBindingError (PlannedShard × Shard) := do
  let planned ← orElse (.unknownShard shardId) plan.shards[shardId]?
  let dagShard ← orElse .planProgramMismatch plan.dag.shards[shardId]?
  refuseIf (planned.id ≠ shardId ∨ dagShard.id ≠ shardId ∨ planned.range ≠ dagShard.range ∨ planned.name ≠ dagShard.name)
    .planProgramMismatch
  return (planned, dagShard)

def specsOf (plan : PartitionPlan) : List ShardSpec := plan.shards.map fun shard => ⟨shard.name, shard.range⟩

def checkDag (program : CompiledProgram) (plan : PartitionPlan) : Except ShardBindingError Unit := do
  let rebuilt ← (buildDag program (specsOf plan)).mapError fun _ => .planProgramMismatch
  refuseIf (rebuilt ≠ plan.dag) .planProgramMismatch

/-- The registers that come in are exactly the inputs of the shard. Which one an error names depends on the order of a hash
map. -/
def checkIncoming (inputs : List Register) (incoming : Values Register) : Except ShardBindingError Unit := do
  refuseFirst (· ∉ incoming) .missingBoundary inputs
  refuseFirst (· ∉ inputs) .extraBoundary incoming.keys

section Externals

variable (inputs : List Register) (range : Range)

def scanRegister (global : ℕ) (external : List Register) (register : Register) : Except ShardBindingError (List Register) :=
  match register with
  | .graphInput _ => .ok (external.insert register)
  | .weight _ => .ok external
  | .virtual source =>
      if source < range.start then do
        refuseIf (register ∉ inputs) .planProgramMismatch
        return external.insert register
      else if source < global ∧ range.Contains source then .ok external
      else .error (.laterOrOutsideReference global register)

/-- The instructions of a shard with their places in the program. -/
def numbered (program : CompiledProgram) (range : Range) : List (CompiledInstruction × ℕ) :=
  (slice program.instructions range.start range.stop).zipIdx range.start

def externals (program : CompiledProgram) : Except ShardBindingError (List Register) := do
  let external ← (numbered program range).foldlM
    (fun external entry => entry.1.inputs.foldlM (scanRegister inputs range entry.2) external) []
  return sortRegisters external

end Externals

def descriptor (dag : Dag) (shardId : ℕ) (register : Register) (elementCount : ℕ) (producerSide : Bool) : BoundaryDescriptor where
  register := register
  elementCount := elementCount
  edgeIds := ((dag.edges.filter fun edge => edge.register = register ∧
    (if producerSide then edge.producer else edge.consumer) = shardId).map (·.id)).insertionSort (· ≤ ·)
  graphOutputNames := []

section Inputs

variable (dag : Dag) (shardId : ℕ) (layout : BoundaryLayout) (graphInputs : Values String) (incoming : Values Register)

def externalValues (register : Register) : Except ShardBindingError (List I18) :=
  match register with
  | .graphInput name => orElse (.missingGraphInput name) graphInputs[name]?
  | .virtual _ => orElse (.missingBoundary register) incoming[register]?
  | .weight _ => .error .panicked

def bindInput (register : Register) : Except ShardBindingError (List I18 × BoundaryDescriptor) := do
  let spec ← BoundaryLayout.get layout register
  let values ← externalValues graphInputs incoming register
  refuseIf (values.length ≠ spec.elementCount) (.boundaryLengthMismatch register spec.elementCount values.length)
  return (values, descriptor dag shardId register spec.elementCount false)

end Inputs

section Lowering

variable (floats : HostFloats) (program : CompiledProgram) (range : Range) (external : List Register)

def inputRef (register : Register) : Except ShardBindingError RegisterRef :=
  orElse .panicked ((external.idxOf? register).map fun i => .input (UInt64.ofNat i))

/-- The operand of an instruction in the numbering of the shard. -/
def lowerRegister (global : ℕ) (weights : Table String (List I18)) (register : Register) :
    Except ShardBindingError (Table String (List I18) × RegisterRef) :=
  match register with
  | .graphInput _ => do
      let ref ← inputRef external register
      return (weights, ref)
  | .weight name => do
      let (weights, i) ← intern (fun name => (weightAsI18 floats program name).mapError .weight) weights name
      return (weights, .weight (UInt64.ofNat i))
  | .virtual source =>
      if range.Contains source ∧ source < global then .ok (weights, .virtual (UInt64.ofNat (source - range.start)))
      else if source < range.start then do
        let ref ← inputRef external register
        return (weights, ref)
      else .error (.laterOrOutsideReference global register)

def lowerInstruction (weights : Table String (List I18)) (entry : CompiledInstruction × ℕ) :
    Except ShardBindingError (Table String (List I18) × AssemblerInstruction) := do
  let (weights, refs) ← thread (lowerRegister floats program range external entry.2) weights entry.1.inputs
  return (weights, ⟨entry.1.instruction, refs⟩)

end Lowering

section Outputs

def checkGraphOutput (program : CompiledProgram) (output : String × Register) : Except ShardBindingError Unit :=
  match output.2 with
  | .virtual index => refuseIf (program.instructions.length ≤ index) (.outputOutsideProgram output.2)
  | .graphInput _ => .error (.outputOutsideProgram output.2)
  | .weight _ => .error (.outputOutsideProgram output.2)

def isInside (range : Range) : Register → Bool
  | .virtual index => range.Contains index
  | .graphInput _ => false
  | .weight _ => false

def outputRegisters (program : CompiledProgram) (range : Range) (dagShard : Shard) : List Register :=
  sortRegisters (dagShard.outputs ++ (program.graphOutputs.map Prod.snd).filter (isInside range)).dedup

def bindOutput (program : CompiledProgram) (dag : Dag) (shardId : ℕ) (layout : BoundaryLayout) (register : Register) :
    Except ShardBindingError BoundaryDescriptor := do
  let spec ← BoundaryLayout.get layout register
  return { descriptor dag shardId register spec.elementCount true with
    graphOutputNames := ((program.graphOutputs.filter fun output => output.2 = register).map Prod.fst).insertionSort (· ≤ ·) }

end Outputs

variable (floats : HostFloats) (blake3 : Blake3)

def bindShardProgram (program : CompiledProgram) (plan : PartitionPlan) (shardId : ℕ) (programModelDigest : Digest32)
    (boundaryLayout : BoundaryLayout) (graphInputs : Values String) (incoming : Values Register) :
    Except ShardBindingError BoundShardProgram := do
  checkBackward program
  refuseIf (programModelDigest ≠ plan.modelDigest ∨ ¬MatchesProgram plan program) .planProgramMismatch
  refuseIf (plan.boundaryLayoutDigest ≠ some (boundaryLayout.digest blake3)) .boundaryLayoutMismatch
  let (planned, dagShard) ← plannedShard plan shardId
  checkDag program plan
  checkIncoming dagShard.inputs incoming
  refuseIf (planned.range.stop < planned.range.start ∨ program.instructions.length < planned.range.stop) .panicked
  let external ← externals dagShard.inputs planned.range program
  let inputs ← external.mapM (bindInput plan.dag shardId boundaryLayout graphInputs incoming)
  let (weights, instructions) ← thread (lowerInstruction floats program planned.range external) [] (numbered program planned.range)
  program.graphOutputs.forM (checkGraphOutput program)
  let outputBoundaries ← (outputRegisters program planned.range dagShard).mapM
    (bindOutput program plan.dag shardId boundaryLayout)
  return {
    assemblerProgram := ⟨instructions, inputs.map Prod.fst, weights.map Prod.snd⟩
    inputBoundaries := inputs.map Prod.snd
    outputBoundaries
    globalToLocal := (List.range' planned.range.start (planned.range.stop - planned.range.start)).zipIdx
    weightNames := weights.map Prod.fst
    partitionPlanDigest := plan.digest
    shardId := planned.id
    shardName := planned.name
    shardRange := planned.range }

end Model

end Zkie.ShardBinding
