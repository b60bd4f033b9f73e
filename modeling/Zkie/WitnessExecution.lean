import Zkie.BuildDag
import Zkie.OnnxEltwise
import Zkie.OrderedMap
import Zkie.VerifyProof

namespace Zkie.WitnessExecution

open AggregationDigest (RunIdentity)
open Assembler (RmsNormDomains findKey)
open BuildDag (Shard registerSortKey)
open Checked
open DotProduct (InI128)
open FixedPoint (I18 checkedAdd requantizeMul requantizeRaw)
open GraphCompiler (CompiledInstruction CompiledProgram Register)
open Isa (EltwiseOp Instruction physA physB positions)
open Onnx (orElse)
open OnnxEltwise (OverflowMessage)
open OrderedMap (total)
open PoseidonBoundary (Blake3)
open RunDatabase (Digest32)
open Std (ExtTreeMap ExtTreeSet)
open VerifyProof (ShardIdentity)

section Model

theorem registerSortKey_injective : Function.Injective registerSortKey := by
  intro a b h
  cases a <;> cases b <;> simp_all [registerSortKey]

instance : LinearOrder Register := LinearOrder.lift' registerSortKey registerSortKey_injective

instance : Std.TransOrd Register := inferInstance

instance : Std.LawfulEqOrd Register where
  eq_of_compare h := compare_eq_iff_eq.mp h

/-- The errors of the executor. A register or an instruction stands for its text in a message; the last error stands for
a panic. -/
inductive BackendError where
  | invalidJob (message : String)
  | invalidRegister (message : String) (register : Register)
  | io (operation path : String)
  | serialization (format : String)
  | resource (message : String)
  | unsupportedInstruction (instruction : Instruction)
  | missingRegister (register : Register)
  | forwardRegister (instruction : ℕ) (register : Register)
  | shapeMismatch (instruction : ℕ) (message : String)
  | arithmeticOverflow (instruction : ℕ) (message : OverflowMessage)
  | panicked
  deriving DecidableEq, Repr

def ofEltwise : OnnxEltwise.BackendError → BackendError
  | .shapeMismatch instruction message => .shapeMismatch instruction message
  | .arithmeticOverflow instruction message => .arithmeticOverflow instruction message
  | .panicked => .panicked

structure CpuWitnessLimits where
  inputBytes : UInt64
  artifactBytes : UInt64
  valuesPerTensor : UInt64
  totalInputValues : UInt64
  totalArtifactValues : UInt64
  tensorCount : UInt64
  domainPoints : UInt64
  instructionCount : UInt64
  operandReferences : UInt64
  deriving DecidableEq, Repr

abbrev Values (κ : Type) [Ord κ] : Type := ExtTreeMap κ (List I18)

structure CpuWitnessInputs where
  graphInputs : Values String
  virtualInputs : Values ℕ

/-- The register state that a shard is lowered with. -/
@[ext]
structure CpuWitnessArtifact where
  shard : Shard
  shardIdentity : ShardIdentity
  runIdentity : RunIdentity
  runIdentityDigest : Digest32
  inputs : Values Register
  virtuals : Values ℕ
  outputs : Values ℕ
  recordLimit : UInt64

/-- The results of the `f64` computations of the host. A text is the message of an error, a missing domain is a panic. -/
structure HostFloats where
  ofF32 : UInt32 → Except String I18
  reciprocal : UInt64 → Except String I18
  epsilon : UInt64 → Except String I18
  rsqrt : I18 → Except String I18
  validRange : UInt64 → UInt64 → Bool
  rangeDomain : UInt64 → UInt64 → UInt64 → Option Lookup.Domain

abbrev Table : Type := ExtTreeMap ℤ I18

/-- The fields of a backend. -/
structure BackendParts where
  program : CompiledProgram
  shard : Shard
  shardIdentity : ShardIdentity
  runIdentity : RunIdentity
  rmsNormTables : List ((UInt64 × UInt64) × Table)
  rmsNormDomains : RmsNormDomains
  weights : Values String
  requiredGraphInputs : ExtTreeSet String
  requiredVirtualInputs : ExtTreeSet ℕ
  boundaryShapes : ExtTreeMap Register ℕ
  artifactRecordCount : ℕ
  limits : CpuWitnessLimits

end Model

section Instructions

def refuseIf (c : Prop) [Decidable c] (error : BackendError) : Except BackendError Unit :=
  if c then .error error else .ok ()

variable (index : ℕ)

def overflow (message : OverflowMessage) : BackendError := .arithmeticOverflow index message

def expectOperands (name : String) (operands : List (List I18)) (expected : ℕ) : Except BackendError Unit :=
  (OnnxEltwise.expectOperands index name operands expected).mapError ofEltwise

def checkedLen (left right : UInt64) : Except BackendError ℕ :=
  if left.toNat * right.toNat < 2 ^ 64 then .ok (left.toNat * right.toNat) else .error (overflow index (.text "shape element count"))

/-- One step of the accumulation in an `i128`. -/
def addProduct (sum : ℤ) (a b : I18) : Except BackendError ℤ :=
  if InI128 (sum + a.raw * b.raw) then .ok (sum + a.raw * b.raw) else .error (overflow index (.text "dot accumulation"))

def dotElement (m n k : ℕ) (transA transB : Bool) (a b : List I18) (row column : ℕ) : Except BackendError I18 := do
  let sum ← (List.range k).foldlM (fun sum inner =>
    addProduct index sum (a.getD (physA m k transA row inner) default) (b.getD (physB n k transB inner column) default)) 0
  ((requantizeRaw sum).map Prod.fst).mapError fun error => overflow index (.fixedPoint error)

def dotGeneral (operands : List (List I18)) (m n k : UInt64) (batchDims : List UInt64) (transA transB : Bool) :
    Except BackendError (List I18) := do
  refuseIf (batchDims ≠ []) (.unsupportedInstruction (.dotGeneral m n k batchDims transA transB))
  expectOperands index "DotGeneral" operands 2
  let expectedA ← checkedLen index m k
  let expectedB ← checkedLen index k n
  let a := operands.getD 0 []
  let b := operands.getD 1 []
  refuseIf (a.length ≠ expectedA ∨ b.length ≠ expectedB) (.shapeMismatch index
    s!"DotGeneral expected ({expectedA}, {expectedB}) elements, got ({a.length}, {b.length})")
  let _ ← checkedLen index m n
  (positions m.toNat n.toNat).mapM fun p => dotElement index m.toNat n.toNat k.toNat transA transB a b p.1 p.2

def eltwise (operands : List (List I18)) (op : EltwiseOp) : Except BackendError (List I18) :=
  (OnnxEltwise.eltwise index operands op).mapError ofEltwise

def mulFloor (a b : I18) : Except BackendError I18 :=
  ((requantizeMul a b).map Prod.fst).mapError fun error => overflow index (.fixedPoint error)

def addOrOverflow (message : String) (a b : I18) : Except BackendError I18 :=
  orElse (overflow index (.text message)) (checkedAdd a b)

def fromF64 (value : Except String I18) : Except BackendError I18 := value.mapError fun message => overflow index (.text message)

def rmsNorm (floats : HostFloats) (tables : List ((UInt64 × UInt64) × Table)) (operands : List (List I18))
    (dim epsilonMilli : UInt64) : Except BackendError (List I18) := do
  expectOperands index "RmsNorm" operands 2
  let xs := operands.getD 0 []
  let weights := operands.getD 1 []
  refuseIf (dim = 0 ∨ xs.length ≠ dim.toNat ∨ weights.length ≠ dim.toNat) (.shapeMismatch index
    s!"RmsNorm dim {dim} requires two {dim}-element tensors, got {xs.length} and {weights.length}")
  let squares ← xs.mapM fun x => mulFloor index x x
  let sum ← squares.foldlM (addOrOverflow index "RmsNorm square sum") ⟨0, FixedPoint.neg_signedShift_nonpos, FixedPoint.signedShift_pos⟩
  let reciprocal ← fromF64 index (floats.reciprocal dim)
  let mean ← mulFloor index sum reciprocal
  let epsilon ← fromF64 index (floats.epsilon epsilonMilli)
  let variancePlusEpsilon ← addOrOverflow index "RmsNorm variance plus epsilon" mean epsilon
  let domain ← orElse (.invalidJob s!"missing RMSNorm domain for ({dim}, {epsilonMilli})") (findKey (dim, epsilonMilli) tables)
  let rsqrt ← orElse (.invalidJob s!"RMSNorm input raw {variancePlusEpsilon.raw} is absent from its lookup domain")
    domain[variancePlusEpsilon.raw]?
  (xs.zip weights).mapM fun p => do
    let normalized ← mulFloor index p.1 rsqrt
    mulFloor index normalized p.2

def executeInstruction (floats : HostFloats) (tables : List ((UInt64 × UInt64) × Table)) (instruction : Instruction)
    (operands : List (List I18)) : Except BackendError (List I18) :=
  match instruction with
  | .dotGeneral m n k batchDims transA transB => dotGeneral index operands m n k batchDims transA transB
  | .eltwise .add => eltwise index operands .add
  | .eltwise .mul => eltwise index operands .mul
  | .rmsNorm dim epsilonMilli => rmsNorm index floats tables operands dim epsilonMilli
  | other => .error (.unsupportedInstruction other)

end Instructions

section Limits

/-- What a tensor adds to the number of tensors and of values that are seen. -/
def countTensor (maxTensors maxPerTensor maxTotal : UInt64) (label : String) (seen : ℕ × ℕ) (tensor : List I18) :
    Except BackendError (ℕ × ℕ) := do
  refuseIf (2 ^ 64 ≤ seen.1 + 1) (.resource s!"{label} tensor count overflow")
  refuseIf (maxTensors.toNat < seen.1 + 1 ∨ maxPerTensor.toNat < tensor.length)
    (.resource s!"{label} exceeds per-tensor/count limits")
  refuseIf (2 ^ 64 ≤ seen.2 + tensor.length) (.resource s!"{label} value count overflow")
  refuseIf (maxTotal.toNat < seen.2 + tensor.length) (.resource s!"{label} exceeds total value limit")
  return (seen.1 + 1, seen.2 + tensor.length)

def validateTensorCollection (tensors : List (List I18)) (maxTensors maxPerTensor maxTotal : UInt64) (label : String) :
    Except BackendError Unit := do
  let _ ← tensors.foldlM (countTensor maxTensors maxPerTensor maxTotal label) (0, 0)
  return ()

def validateArtifactRecordCount (inputRecords virtualRecords outputRecords : ℕ) (limit : UInt64) : Except BackendError ℕ := do
  let count := inputRecords + virtualRecords + outputRecords
  refuseIf (2 ^ 64 ≤ count) (.resource "CPU witness artifact record count overflow")
  refuseIf (limit.toNat < count) (.resource s!"CPU witness artifact has {count} records, configured limit is {limit}")
  return count

end Limits

section Execute

/-- The values of a map in the order of its keys. -/
def tensors {κ : Type} [Ord κ] [Std.TransOrd κ] (values : Values κ) : List (List I18) := values.toList.map Prod.snd

variable (b : BackendParts) (supplied : CpuWitnessInputs)

/-- The length of the supplied tensor of a boundary register. -/
def suppliedLength : Register → Except BackendError ℕ
  | .graphInput name => orElse .panicked (supplied.graphInputs[name]?.map List.length)
  | .virtual index => orElse .panicked (supplied.virtualInputs[index]?.map List.length)
  | .weight _ => .error .panicked

def checkShape (entry : Register × ℕ) : Except BackendError Unit := do
  let actual ← suppliedLength supplied entry.1
  refuseIf (actual ≠ entry.2) (.invalidRegister s!"boundary tensor has {actual} values, expected {entry.2}" entry.1)

/-- The maps are visited in the order of their keys, which decides about the error only. -/
def validateSuppliedInputs : Except BackendError Unit := do
  match b.requiredGraphInputs.toList.find? fun name => name ∉ supplied.graphInputs with
  | some name => throw (.missingRegister (.graphInput name))
  | none =>
    match b.requiredVirtualInputs.toList.find? fun index => index ∉ supplied.virtualInputs with
    | some index => throw (.missingRegister (.virtual index))
    | none =>
      refuseIf (supplied.graphInputs.keys ≠ b.requiredGraphInputs.toList ∨
        supplied.virtualInputs.keys ≠ b.requiredVirtualInputs.toList) (.invalidJob "concrete inputs contain extraneous registers")
      b.boundaryShapes.toList.forM (checkShape supplied)
      validateTensorCollection (tensors supplied.graphInputs ++ tensors supplied.virtualInputs) b.limits.tensorCount
        b.limits.valuesPerTensor b.limits.totalInputValues "CPU witness inputs"

def resolveExternal (register : Register) (instruction : ℕ) : Except BackendError (List I18) :=
  match register with
  | .graphInput name => orElse (.missingRegister register) supplied.graphInputs[name]?
  | .weight name => orElse (.missingRegister register) b.weights[name]?
  | .virtual index =>
      if instruction ≤ index then .error (.forwardRegister instruction register)
      else if index < b.shard.range.start ∧ register ∈ b.shard.inputs then
        orElse (.missingRegister register) supplied.virtualInputs[index]?
      else .error (.missingRegister register)

structure RunState where
  registers : Values Register
  boundaryInputs : Values Register
  virtuals : Values ℕ
  generatedValues : ℕ

def loadOperand (instruction : ℕ) (state : RunState) (register : Register) : Except BackendError RunState :=
  if register ∈ state.registers then .ok state
  else do
    let values ← resolveExternal b supplied register instruction
    return { state with
      registers := state.registers.insert register values
      boundaryInputs := state.boundaryInputs.insert register values }

def operand (state : RunState) (register : Register) : Except BackendError (List I18) :=
  orElse (.missingRegister register) state.registers[register]?

/-- The value of an instruction becomes the register of its index. -/
def storeOutput (index : ℕ) (state : RunState) (output : List I18) : Except BackendError RunState := do
  refuseIf (b.limits.valuesPerTensor.toNat < output.length) (.resource s!"Virtual({index}) exceeds tensor value limit")
  let generated := state.generatedValues + output.length
  refuseIf (2 ^ 64 ≤ generated) (.resource "generated witness value count overflow")
  refuseIf (b.limits.totalArtifactValues.toNat < generated) (.resource "generated witness values exceed artifact limit")
  return { state with
    registers := state.registers.insert (.virtual index) output
    virtuals := state.virtuals.insert index output
    generatedValues := generated }

variable (floats : HostFloats)

def runInstruction (state : RunState) (index : ℕ) : Except BackendError RunState := do
  let compiled ← orElse .panicked b.program.instructions[index]?
  let state ← compiled.inputs.foldlM (loadOperand b supplied index) state
  let operands ← compiled.inputs.mapM (operand state)
  let output ← executeInstruction index floats b.rmsNormTables compiled.instruction operands
  storeOutput b index state output

def virtualIndex : Register → Option ℕ
  | .virtual index => some index
  | .graphInput _ => none
  | .weight _ => none

def requiredOutputs : ExtTreeSet ℕ := ExtTreeSet.ofList (b.shard.outputs.filterMap virtualIndex)

/-- The constructor lets only registers of instructions through. -/
def collectOutput (registers : Values Register) (outputs : Values ℕ) (register : Register) : Except BackendError (Values ℕ) :=
  match register with
  | .virtual index => do
      let values ← orElse (.missingRegister register) registers[register]?
      return outputs.insert index values
  | .graphInput _ => .error .panicked
  | .weight _ => .error .panicked

/-- The indices of the instructions of a shard. -/
def indices (shard : Shard) : List ℕ := List.range' shard.range.start (shard.range.stop - shard.range.start)

variable (blake3 : Blake3)

def execute : Except BackendError CpuWitnessArtifact := do
  validateSuppliedInputs b supplied
  let state ← (indices b.shard).foldlM (runInstruction b supplied floats) ⟨∅, ∅, ∅, 0⟩
  let boundaryValues := total List.length state.boundaryInputs
  let outputValues := (((requiredOutputs b).toList.filterMap fun index => state.virtuals[index]?).map List.length).sum
  refuseIf (2 ^ 64 ≤ boundaryValues ∨ 2 ^ 64 ≤ outputValues) .panicked
  let artifactValues := boundaryValues + state.generatedValues + outputValues
  refuseIf (2 ^ 64 ≤ artifactValues) (.resource "artifact witness value count overflow")
  refuseIf (b.limits.totalArtifactValues.toNat < artifactValues)
    (.resource "artifact witness values exceed configured limit")
  let outputs ← b.shard.outputs.foldlM (collectOutput state.registers) ∅
  let records ← validateArtifactRecordCount state.boundaryInputs.size state.virtuals.size outputs.size b.limits.tensorCount
  refuseIf (records ≠ b.artifactRecordCount) (.invalidJob "CPU witness artifact record coverage changed during execution")
  return {
    shard := b.shard
    shardIdentity := b.shardIdentity
    runIdentity := b.runIdentity
    runIdentityDigest := b.runIdentity.canonicalDigest blake3
    inputs := state.boundaryInputs
    virtuals := state.virtuals
    outputs
    recordLimit := b.limits.tensorCount }

end Execute

section Run

variable {b : BackendParts} {supplied : CpuWitnessInputs} {floats : HostFloats} {done : List ℕ} {seen : List Register}
  {state state' : RunState} {index : ℕ} {register : Register} {values : List I18}

/-- A register that the instructions of the shard write. -/
def IsLocal (b : BackendParts) : Register → Prop
  | .virtual index => b.shard.range.start ≤ index
  | .graphInput _ => False
  | .weight _ => False

/-- The value that a register has from outside of the shard. -/
def externalValue (b : BackendParts) (supplied : CpuWitnessInputs) : Register → Option (List I18)
  | .graphInput name => supplied.graphInputs[name]?
  | .weight name => b.weights[name]?
  | .virtual index => supplied.virtualInputs[index]?

/-- The registers that some instructions read. -/
def reads (program : CompiledProgram) (done : List ℕ) : List Register :=
  done.flatMap fun index => (program.instructions[index]?.map (·.inputs)).getD []

/-- What holds after the instructions `done`, which read the registers `seen`. -/
structure Reached (b : BackendParts) (supplied : CpuWitnessInputs) (done : List ℕ) (seen : List Register)
    (state : RunState) : Prop where
  external : ∀ r, ¬IsLocal b r → state.registers[r]? = state.boundaryInputs[r]?
  written : ∀ index, b.shard.range.start ≤ index → state.registers[Register.virtual index]? = state.virtuals[index]?
  boundary : ∀ r v, state.boundaryInputs[r]? = some v ↔ r ∈ seen ∧ ¬IsLocal b r ∧ externalValue b supplied r = some v
  covered : ∀ r ∈ seen, ¬IsLocal b r → r ∈ state.boundaryInputs
  virtuals : ∀ index, index ∈ state.virtuals ↔ index ∈ done
  sizes : ∀ (index : ℕ) v, state.virtuals[index]? = some v → v.length ≤ b.limits.valuesPerTensor.toNat
  generated : state.generatedValues = total List.length state.virtuals

theorem refuseIf_ok {c : Prop} [Decidable c] {error : BackendError} : refuseIf c error = .ok () ↔ ¬c := by
  by_cases h : c <;> simp [refuseIf, h]

theorem mem_of_getElem? {κ : Type} [Ord κ] [Std.TransOrd κ] {m : Values κ} {k : κ} {v : List I18} (h : m[k]? = some v) :
    k ∈ m := ExtTreeMap.mem_iff_isSome_getElem?.mpr (Option.isSome_of_mem h)

theorem getElem?_of_mem {κ : Type} [Ord κ] [Std.TransOrd κ] {m : Values κ} {k : κ} (h : k ∈ m) : ∃ v, m[k]? = some v :=
  Option.isSome_iff_exists.mp (ExtTreeMap.mem_iff_isSome_getElem?.mp h)

theorem getElem?_insert_of_ne {κ : Type} [Ord κ] [Std.TransOrd κ] [Std.LawfulEqOrd κ] {m : Values κ} {k k' : κ} {v : List I18}
    (h : k ≠ k') : (m.insert k v)[k']? = m[k']? := by
  rw [ExtTreeMap.getElem?_insert, if_neg fun heq => h (Std.LawfulEqCmp.eq_of_compare heq)]

theorem reached_start (b : BackendParts) (supplied : CpuWitnessInputs) : Reached b supplied [] [] ⟨∅, ∅, ∅, 0⟩ where
  external _ _ := rfl
  written _ _ := by simp
  boundary _ _ := by simp
  covered _ h := nomatch h
  virtuals _ := by simp
  sizes index v h := by simp at h
  generated := rfl

theorem resolveExternal_ok (h : resolveExternal b supplied register index = .ok values) :
    ¬IsLocal b register ∧ externalValue b supplied register = some values := by
  cases register with
  | graphInput name => exact ⟨id, Onnx.orElse_eq_ok.mp h⟩
  | weight name => exact ⟨id, Onnx.orElse_eq_ok.mp h⟩
  | «virtual» i =>
      rw [resolveExternal] at h
      split_ifs at h with hforward hexternal
      exact ⟨Nat.not_le.mpr hexternal.1, Onnx.orElse_eq_ok.mp h⟩

/-- A register that is already there was read before, or an instruction has written it. -/
theorem Reached.seen_of_mem (h : Reached b supplied done seen state) (hmem : register ∈ state.registers)
    (hexternal : ¬IsLocal b register) : register ∈ seen := by
  obtain ⟨v, hv⟩ := getElem?_of_mem hmem
  rw [h.external register hexternal] at hv
  exact ((h.boundary register v).mp hv).1

theorem Reached.load (h : Reached b supplied done seen state) (hload : loadOperand b supplied index state register = .ok state') :
    Reached b supplied done (seen ++ [register]) state' := by
  rw [loadOperand] at hload
  split_ifs at hload with hmem
  · cases hload
    have hseen : ∀ r, ¬IsLocal b r → (r ∈ seen ++ [register] ↔ r ∈ seen) := by
      intro r hr
      rw [List.mem_append, List.mem_singleton]
      constructor
      · rintro (hr' | rfl)
        · exact hr'
        · exact h.seen_of_mem hmem hr
      · exact .inl
    refine ⟨h.external, h.written, fun r v => ?_, fun r hr hexternal => h.covered r ((hseen r hexternal).mp hr) hexternal,
      h.virtuals, h.sizes, h.generated⟩
    rw [h.boundary r v]
    constructor
    · rintro ⟨hr, hexternal, hvalue⟩
      exact ⟨(hseen r hexternal).mpr hr, hexternal, hvalue⟩
    · rintro ⟨hr, hexternal, hvalue⟩
      exact ⟨(hseen r hexternal).mp hr, hexternal, hvalue⟩
  · obtain ⟨values, hresolve, hload⟩ := bind_eq_ok.mp hload
    cases hload
    obtain ⟨hexternal, hvalue⟩ := resolveExternal_ok hresolve
    refine ⟨fun r hr => ?_, fun i hi => ?_, fun r v => ?_, fun r hr hnot => ?_, h.virtuals, h.sizes, h.generated⟩
    · by_cases heq : register = r
      · subst heq
        rw [ExtTreeMap.getElem?_insert_self, ExtTreeMap.getElem?_insert_self]
      · rw [getElem?_insert_of_ne heq, getElem?_insert_of_ne heq]
        exact h.external r hr
    · have hne : register ≠ .virtual i := by
        rintro rfl
        exact hexternal hi
      rw [getElem?_insert_of_ne hne]
      exact h.written i hi
    · rw [List.mem_append, List.mem_singleton]
      by_cases heq : register = r
      · subst heq
        rw [ExtTreeMap.getElem?_insert_self, hvalue]
        exact ⟨fun hv => ⟨.inr rfl, hexternal, hv⟩, fun hv => hv.2.2⟩
      · rw [getElem?_insert_of_ne heq, h.boundary r v]
        have hne : ¬r = register := fun h' => heq h'.symm
        simp only [hne, or_false]
    · by_cases heq : register = r
      · subst heq
        exact ExtTreeMap.mem_insert_self
      · rw [List.mem_append, List.mem_singleton] at hr
        have hr := hr.resolve_right fun h' => heq h'.symm
        exact ExtTreeMap.mem_insert.mpr (.inr (h.covered r hr hnot))

theorem Reached.store (h : Reached b supplied done seen state) (hfresh : index ∉ done) (hlocal : b.shard.range.start ≤ index)
    (hstore : storeOutput b index state values = .ok state') : Reached b supplied (done ++ [index]) seen state' := by
  obtain ⟨_, hsize, hstore⟩ := bind_eq_ok.mp hstore
  obtain ⟨_, -, hstore⟩ := bind_eq_ok.mp hstore
  obtain ⟨_, -, hstore⟩ := bind_eq_ok.mp hstore
  cases hstore
  have hnew : index ∉ state.virtuals := fun hmem => hfresh ((h.virtuals index).mp hmem)
  refine ⟨fun r hr => ?_, fun i hi => ?_, h.boundary, h.covered, fun i => ?_, fun i v hv => ?_, ?_⟩
  · have hne : Register.virtual index ≠ r := by
      rintro rfl
      exact hr hlocal
    rw [getElem?_insert_of_ne hne]
    exact h.external r hr
  · by_cases heq : index = i
    · subst heq
      rw [ExtTreeMap.getElem?_insert_self, ExtTreeMap.getElem?_insert_self]
    · have hne : Register.virtual index ≠ .virtual i := fun h' => heq (Register.virtual.inj h')
      rw [getElem?_insert_of_ne hne, getElem?_insert_of_ne heq]
      exact h.written i hi
  · rw [ExtTreeMap.mem_insert, Std.LawfulEqCmp.compare_eq_iff_eq, h.virtuals, List.mem_append, List.mem_singleton, eq_comm]
    exact or_comm
  · by_cases heq : index = i
    · subst heq
      rw [ExtTreeMap.getElem?_insert_self] at hv
      cases hv
      exact Nat.not_lt.mp (refuseIf_ok.mp hsize)
    · rw [getElem?_insert_of_ne heq] at hv
      exact h.sizes i v hv
  · rw [OrderedMap.total_insert hnew, ← h.generated]
    exact Nat.add_comm _ _

theorem reads_append {program : CompiledProgram} (done : List ℕ) {compiled : CompiledInstruction}
    (h : program.instructions[index]? = some compiled) : reads program (done ++ [index]) = reads program done ++ compiled.inputs := by
  simp [reads, h]

theorem Reached.instruction (h : Reached b supplied done (reads b.program done) state) (hfresh : index ∉ done)
    (hlocal : b.shard.range.start ≤ index) (hrun : runInstruction b supplied floats state index = .ok state') :
    Reached b supplied (done ++ [index]) (reads b.program (done ++ [index])) state' := by
  obtain ⟨compiled, hcompiled, hrun⟩ := bind_eq_ok.mp hrun
  obtain ⟨loaded, hloaded, hrun⟩ := bind_eq_ok.mp hrun
  obtain ⟨operands, -, hrun⟩ := bind_eq_ok.mp hrun
  obtain ⟨output, -, hstore⟩ := bind_eq_ok.mp hrun
  have hload : Reached b supplied done (reads b.program done ++ compiled.inputs) loaded := by
    apply foldlM_builds (I := fun seen => Reached b supplied done (reads b.program done ++ seen)) _ [] _ hloaded
    · intro seen before r after hbefore hstep
      have hafter := hbefore.load hstep
      rwa [List.append_assoc] at hafter
    · rwa [List.append_nil]
  rw [reads_append done (Onnx.orElse_eq_ok.mp hcompiled)]
  exact hload.store hfresh hlocal hstore

theorem mem_indices {shard : Shard} : index ∈ indices shard ↔ shard.range.start ≤ index ∧ index < shard.range.stop := by
  rw [indices, List.mem_range'_1]
  omega

theorem run_reached (h : (indices b.shard).foldlM (runInstruction b supplied floats) ⟨∅, ∅, ∅, 0⟩ = .ok state) :
    Reached b supplied (indices b.shard) (reads b.program (indices b.shard)) state := by
  have hbuilt := foldlM_builds (I := fun done state => done.Nodup → (∀ i ∈ done, b.shard.range.start ≤ i) →
    Reached b supplied done (reads b.program done) state) ?_ [] (fun _ _ => reached_start b supplied) h
  · exact hbuilt List.nodup_range' fun i hi => (mem_indices.mp hi).1
  · intro done before i after hbefore hstep hnodup hlocal
    obtain ⟨hdone, -, hfresh⟩ := List.nodup_append.mp hnodup
    have hreached := hbefore hdone fun j hj => hlocal j (List.mem_append_left _ hj)
    exact hreached.instruction (fun hi => hfresh i hi i (List.mem_singleton_self i) rfl)
      (hlocal i (List.mem_append_right _ (List.mem_singleton_self i))) hstep

theorem virtualIndex_eq_some {i : ℕ} : virtualIndex register = some i ↔ register = .virtual i := by
  cases register <;> simp [virtualIndex]

theorem mem_requiredOutputs {i : ℕ} : i ∈ requiredOutputs b ↔ Register.virtual i ∈ b.shard.outputs := by
  rw [requiredOutputs, ExtTreeSet.mem_ofList, List.contains_iff_mem, List.mem_filterMap]
  constructor
  · rintro ⟨r, hr, hi⟩
    rwa [← virtualIndex_eq_some.mp hi]
  · exact fun h => ⟨.virtual i, h, rfl⟩

/-- The registers that are collected, each under its index. -/
structure Collected (registers : Values Register) (done : List Register) (outputs : Values ℕ) : Prop where
  values : ∀ (i : ℕ) v, outputs[i]? = some v → registers[Register.virtual i]? = some v
  keys : ∀ i, i ∈ outputs ↔ Register.virtual i ∈ done

theorem Collected.step {registers : Values Register} {done : List Register} {outputs outputs' : Values ℕ}
    (h : Collected registers done outputs) (hstep : collectOutput registers outputs register = .ok outputs') :
    Collected registers (done ++ [register]) outputs' := by
  cases register with
  | graphInput name => cases hstep
  | weight name => cases hstep
  | «virtual» i =>
      obtain ⟨values, hvalues, hstep⟩ := bind_eq_ok.mp hstep
      cases hstep
      constructor
      · intro j v hv
        by_cases heq : i = j
        · subst heq
          rw [ExtTreeMap.getElem?_insert_self] at hv
          cases hv
          exact Onnx.orElse_eq_ok.mp hvalues
        · rw [getElem?_insert_of_ne heq] at hv
          exact h.values j v hv
      · intro j
        rw [ExtTreeMap.mem_insert, Std.LawfulEqCmp.compare_eq_iff_eq, h.keys, List.mem_append, List.mem_singleton,
          Register.virtual.injEq, eq_comm]
        exact or_comm

/-- What an execution hands out. -/
structure Executed (b : BackendParts) (supplied : CpuWitnessInputs) (blake3 : Blake3) (a : CpuWitnessArtifact) : Prop where
  shard : a.shard = b.shard
  shardIdentity : a.shardIdentity = b.shardIdentity
  runIdentity : a.runIdentity = b.runIdentity
  runIdentityDigest : a.runIdentityDigest = b.runIdentity.canonicalDigest blake3
  recordLimit : a.recordLimit = b.limits.tensorCount
  validated : validateSuppliedInputs b supplied = .ok ()
  boundary : ∀ r v, a.inputs[r]? = some v ↔ r ∈ reads b.program (indices b.shard) ∧ ¬IsLocal b r ∧ externalValue b supplied r = some v
  covered : ∀ r ∈ reads b.program (indices b.shard), ¬IsLocal b r → r ∈ a.inputs
  virtuals : ∀ index, index ∈ a.virtuals ↔ index ∈ indices b.shard
  sizes : ∀ (index : ℕ) v, a.virtuals[index]? = some v → v.length ≤ b.limits.valuesPerTensor.toNat
  outputs : ∀ (index : ℕ) v, a.outputs[index]? = some v → a.virtuals[index]? = some v
  required : ∀ index, index ∈ a.outputs ↔ index ∈ requiredOutputs b
  total : total List.length a.inputs + total List.length a.virtuals + total List.length a.outputs ≤
    b.limits.totalArtifactValues.toNat
  records : validateArtifactRecordCount a.inputs.size a.virtuals.size a.outputs.size b.limits.tensorCount =
    .ok b.artifactRecordCount

/-- The values under the required outputs are those of the collected ones. -/
theorem outputValues_eq {virtuals outputs : Values ℕ} (hkeys : ∀ i, i ∈ outputs ↔ i ∈ requiredOutputs b)
    (hvalues : ∀ (i : ℕ) v, outputs[i]? = some v → virtuals[i]? = some v) :
    (((requiredOutputs b).toList.filterMap fun index => virtuals[index]?).map List.length).sum = total List.length outputs := by
  have hlookup : ∀ i ∈ outputs.keys, virtuals[i]? = outputs[i]? := by
    intro i hi
    obtain ⟨v, hv⟩ := getElem?_of_mem (ExtTreeMap.mem_keys.mp hi)
    rw [hv, hvalues i v hv]
  rw [← OrderedMap.keys_eq_toList.mpr hkeys, List.filterMap_congr hlookup, OrderedMap.filterMap_keys, List.map_map]
  rfl

theorem execute_executed {blake3 : Blake3} {a : CpuWitnessArtifact}
    (hrange : ∀ r ∈ b.shard.outputs, IsLocal b r) (h : execute b supplied floats blake3 = .ok a) :
    Executed b supplied blake3 a := by
  obtain ⟨_, hvalid, h⟩ := bind_eq_ok.mp h
  obtain ⟨state, hrun, h⟩ := bind_eq_ok.mp h
  obtain ⟨_, -, h⟩ := bind_eq_ok.mp h
  obtain ⟨_, -, h⟩ := bind_eq_ok.mp h
  obtain ⟨_, htotal, h⟩ := bind_eq_ok.mp h
  obtain ⟨outputs, houtputs, h⟩ := bind_eq_ok.mp h
  obtain ⟨records, hrecords, h⟩ := bind_eq_ok.mp h
  obtain ⟨_, hcount, h⟩ := bind_eq_ok.mp h
  cases h
  have hreached := run_reached hrun
  have hcollected : Collected state.registers b.shard.outputs outputs := by
    apply foldlM_builds (fun _ _ _ _ hbefore hstep => hbefore.step hstep) [] _ houtputs
    exact ⟨fun i v hv => by simp at hv, fun i => by simp⟩
  have hkeys : ∀ i, i ∈ outputs ↔ i ∈ requiredOutputs b := fun i => (hcollected.keys i).trans mem_requiredOutputs.symm
  have hvalues : ∀ (i : ℕ) v, outputs[i]? = some v → state.virtuals[i]? = some v := by
    intro i v hv
    have hlocal := hrange _ ((hcollected.keys i).mp (mem_of_getElem? hv))
    rw [← hreached.written i hlocal]
    exact hcollected.values i v hv
  rw [refuseIf_ok, Nat.not_lt, outputValues_eq hkeys hvalues, hreached.generated] at htotal
  rw [not_not.mp (refuseIf_ok.mp hcount)] at hrecords
  exact ⟨rfl, rfl, rfl, rfl, rfl, hvalid, hreached.boundary, hreached.covered, hreached.virtuals, hreached.sizes, hvalues,
    hkeys, htotal, hrecords⟩

end Run

end Zkie.WitnessExecution
