import Zkie.WitnessExecution

namespace Zkie.WitnessSetup

open AggregationDigest (ModelVisibility RunIdentity encodeText)
open Assembler (RmsNormDomains findKey)
open BuildDag (Shard)
open Checked
open FixedPoint (I18)
open GraphCompiler (CompiledInstruction CompiledProgram Register)
open Isa (EltwiseOp Instruction ReduceOp)
open LittleEndian (toBytes)
open Onnx (orElse)
open OrderedMap (total)
open PoseidonBoundary (Blake3 utf8)
open RmsNorm (RsqrtDomain)
open RunDatabase (Digest32)
open Std (ExtTreeMap ExtTreeSet)
open VerifyProof (ShardIdentity validText)
open WitnessExecution

section Analysis

/-- What the instructions of a shard are seen to need. -/
structure Analysis where
  weights : Values String
  graphInputs : ExtTreeSet String
  virtualInputs : ExtTreeSet ℕ
  domainKeys : List (UInt64 × UInt64)
  operandReferences : ℕ

variable (floats : HostFloats) (program : CompiledProgram) (shard : Shard) (limits : CpuWitnessLimits)

def weightAsI18 (index : ℕ) (name : String) : Except BackendError (List I18) :=
  match findKey name program.weights with
  | none => .error (.missingRegister (.weight name))
  | some tensor => tensor.data.mapM fun value => fromF64 index (floats.ofF32 value)

def scanRegister (index : ℕ) (a : Analysis) (register : Register) : Except BackendError Analysis :=
  match register with
  | .graphInput name => do
      refuseIf (name ∉ program.graphInputs) (.missingRegister register)
      return { a with graphInputs := a.graphInputs.insert name }
  | .weight name =>
      if name ∈ a.weights then .ok a
      else do
        let values ← weightAsI18 floats program index name
        refuseIf (limits.valuesPerTensor.toNat < values.length) (.resource s!"weight {name} exceeds tensor value limit")
        return { a with weights := a.weights.insert name values }
  | .virtual producer =>
      if producer < shard.range.start then .ok { a with virtualInputs := a.virtualInputs.insert producer }
      else if index ≤ producer then .error (.forwardRegister index register)
      else .ok a

def batchDims : Instruction → List UInt64
  | .dotGeneral _ _ _ dims _ _ => dims
  | _ => []

def domainKey : Instruction → List (UInt64 × UInt64)
  | .rmsNorm dim epsilonMilli => [(dim, epsilonMilli)]
  | _ => []

def checkInstruction (index : ℕ) : Instruction → Except BackendError Unit
  | .dotGeneral m n k _ _ _ => do
      refuseIf (m = 0 ∨ n = 0 ∨ k = 0) (.shapeMismatch index "DotGeneral dimensions must be nonzero")
      let _ ← checkedLen index m k
      let _ ← checkedLen index k n
      let outputLen ← checkedLen index m n
      refuseIf (limits.valuesPerTensor.toNat < outputLen)
        (.resource s!"DotGeneral output has {outputLen} values, limit is {limits.valuesPerTensor}")
  | .rmsNorm dim _ => do
      refuseIf (dim = 0) (.shapeMismatch index "RmsNorm dim must be nonzero")
      refuseIf (limits.valuesPerTensor < dim) (.resource s!"RmsNorm dim {dim} exceeds tensor value limit")
  | _ => .ok ()

def scanInstruction (a : Analysis) (index : ℕ) : Except BackendError Analysis := do
  let compiled ← orElse .panicked program.instructions[index]?
  let references := a.operandReferences + compiled.inputs.length
  refuseIf (2 ^ 64 ≤ references) (.resource "CPU witness operand reference count overflow")
  let references := references + (batchDims compiled.instruction).length
  refuseIf (2 ^ 64 ≤ references) (.resource "CPU witness operand metadata count overflow")
  refuseIf (limits.operandReferences.toNat < references)
    (.resource s!"CPU witness shard has {references} operand metadata entries, limit is {limits.operandReferences}")
  checkInstruction limits index compiled.instruction
  let a := { a with operandReferences := references, domainKeys := a.domainKeys ++ domainKey compiled.instruction }
  compiled.inputs.foldlM (scanRegister floats program shard limits index) a

def pointCount : RsqrtDomain → ℕ
  | .range _ _ n => n.toNat
  | .rawAnchors points => points.length

def insertPoint (table : Table) (point : I18 × I18) : Except BackendError Table := do
  refuseIf (∃ previous ∈ table[point.1.raw]?, previous ≠ point.2)
    (.invalidJob s!"RMSNorm domain maps raw input {point.1.raw} to conflicting outputs")
  return table.insert point.1.raw point.2

/-- An anchor whose value was checked to exist. -/
def anchorPoint (point : I18) : Except BackendError (I18 × I18) :=
  ((floats.rsqrt point).map fun value => (point, value)).mapError fun _ => .panicked

def materializeDomain (domain : RsqrtDomain) : Except BackendError Table := do
  refuseIf (pointCount domain = 0) (.invalidJob "RMSNorm lookup domain is empty")
  refuseIf (limits.domainPoints.toNat < pointCount domain)
    (.resource s!"RMSNorm domain has {pointCount domain} points, limit is {limits.domainPoints}")
  match domain with
  | .range min max n => do
      refuseIf (floats.validRange min max = false) (.invalidJob "invalid RMSNorm range domain")
      let points ← orElse .panicked (floats.rangeDomain min max n)
      points.foldlM insertPoint ∅
  | .rawAnchors anchors => do
      refuseIf (∃ anchor ∈ anchors, anchor.raw ≤ 0 ∨ (floats.rsqrt anchor).toBool = false)
        (.invalidJob "invalid RMSNorm raw-anchor domain")
      let points ← anchors.mapM (anchorPoint floats)
      points.foldlM insertPoint ∅

def analyzeProgram (domains : RmsNormDomains) :
    Except BackendError (Analysis × List ((UInt64 × UInt64) × Table) × ℕ) := do
  let instructionCount := shard.range.stop - shard.range.start
  refuseIf (limits.instructionCount.toNat < instructionCount)
    (.resource s!"CPU witness shard has {instructionCount} instructions, limit is {limits.instructionCount}")
  let a ← (indices shard).foldlM (scanInstruction floats program shard limits) ⟨∅, ∅, ∅, [], 0⟩
  refuseIf (a.virtualInputs.toList ≠ (ExtTreeSet.ofList (shard.inputs.filterMap virtualIndex)).toList)
    (.invalidJob "shard input boundary does not exactly match external virtual uses")
  let inputRecords := a.weights.size + a.graphInputs.size + a.virtualInputs.size
  refuseIf (2 ^ 64 ≤ inputRecords) (.resource "CPU witness input record count overflow")
  let records ← validateArtifactRecordCount inputRecords instructionCount shard.outputs.length limits.tensorCount
  let weightValues := total List.length a.weights
  refuseIf (2 ^ 64 ≤ weightValues) (.resource "CPU witness weight value count overflow")
  refuseIf (limits.totalArtifactValues.toNat < weightValues)
    (.resource "CPU witness weights exceed total artifact value limit")
  refuseIf (¬(domains.map Prod.fst ⊆ a.domainKeys ∧ a.domainKeys ⊆ domains.map Prod.fst))
    (.invalidJob "RMSNorm domains do not exactly match instructions in shard")
  let points := (domains.map fun entry => pointCount entry.2).sum
  refuseIf (2 ^ 64 ≤ points) (.resource "RMSNorm total domain point count overflow")
  refuseIf (limits.domainPoints.toNat < points)
    (.resource s!"RMSNorm domains have {points} points, limit is {limits.domainPoints}")
  let tables ← domains.mapM fun entry => (materializeDomain floats limits entry.2).map fun table => (entry.1, table)
  return (a, tables, records)

end Analysis

section Shapes

/-- The lengths of the tensors that cross the boundary of a shard. -/
structure BoundaryShapeManifest where
  graphInputs : ExtTreeMap String ℕ
  virtualInputs : ExtTreeMap ℕ ℕ
  nonzero : (∀ entry ∈ graphInputs.toList, entry.2 ≠ 0) ∧ ∀ entry ∈ virtualInputs.toList, entry.2 ≠ 0

def BoundaryShapeManifest.new (graphInputs : ExtTreeMap String ℕ) (virtualInputs : ExtTreeMap ℕ ℕ) :
    Except BackendError BoundaryShapeManifest :=
  if h : (∀ entry ∈ graphInputs.toList, entry.2 ≠ 0) ∧ ∀ entry ∈ virtualInputs.toList, entry.2 ≠ 0 then
    .ok ⟨graphInputs, virtualInputs, h⟩
  else .error (.invalidJob "boundary tensor lengths must be nonzero")

def BoundaryShapeManifest.entries (manifest : BoundaryShapeManifest) : List (Register × ℕ) :=
  (manifest.graphInputs.toList.map fun entry => (.graphInput entry.1, entry.2)) ++
    manifest.virtualInputs.toList.map fun entry => (.virtual entry.1, entry.2)

def BoundaryShapeManifest.validateFor (manifest : BoundaryShapeManifest) (a : Analysis) (limits : CpuWitnessLimits) :
    Except BackendError (ExtTreeMap Register ℕ) := do
  refuseIf (manifest.graphInputs.keys ≠ a.graphInputs.toList ∨ manifest.virtualInputs.keys ≠ a.virtualInputs.toList)
    (.invalidJob "boundary shape manifest has missing or extraneous registers")
  let values := (manifest.entries.map Prod.snd).sum
  refuseIf (2 ^ 64 ≤ values) (.resource "boundary shape value count overflow")
  let shapes : ExtTreeMap Register ℕ := ExtTreeMap.ofList manifest.entries
  refuseIf (limits.tensorCount.toNat < shapes.size ∨ ¬(∀ entry ∈ shapes.toList, entry.2 ≤ limits.valuesPerTensor.toNat) ∨
    limits.totalInputValues.toNat < values) (.resource "boundary shape manifest exceeds configured limits")
  return shapes

end Shapes

section CircuitDigest

def circuitBindingVersion : List UInt8 := utf8 "zkie.cpu-witness-circuit-binding.v3-boundary-shapes\x00"

def encodeUsize (value : ℕ) : List UInt8 := toBytes 8 value

def encodeRegister : Register → List UInt8
  | .graphInput name => 0 :: encodeText name
  | .weight name => 1 :: encodeText name
  | .virtual index => 2 :: encodeUsize index

def encodeRegisters (registers : List Register) : List UInt8 :=
  encodeUsize registers.length ++ registers.flatMap encodeRegister

def encodeEltwise : EltwiseOp → UInt8
  | .add => 0
  | .mul => 1
  | .relu => 2

def encodeReduce : ReduceOp → UInt8
  | .sum => 0
  | .mean => 1

def encodeBool (value : Bool) : UInt8 := if value then 1 else 0

def encodeWord (value : UInt64) : List UInt8 := toBytes 8 value.toNat

def encodeInstruction : Instruction → List UInt8
  | .dotGeneral m n k batchDims transA transB =>
      0 :: (encodeWord m ++ encodeWord n ++ encodeWord k ++ encodeUsize batchDims.length ++ batchDims.flatMap encodeWord ++
        [encodeBool transA, encodeBool transB])
  | .softmax axisDim => 1 :: encodeWord axisDim
  | .gelu => [2]
  | .layerNorm dim epsilonMilli => 3 :: (encodeWord dim ++ encodeWord epsilonMilli)
  | .rmsNorm dim epsilonMilli => 4 :: (encodeWord dim ++ encodeWord epsilonMilli)
  | .eltwise op => [5, encodeEltwise op]
  | .reduce op axis => 6 :: encodeReduce op :: encodeWord axis
  | .embedLookup tableSize embedDim => 7 :: (encodeWord tableSize ++ encodeWord embedDim)
  | .patchEmbed patchLen embedDim => 8 :: (encodeWord patchLen ++ encodeWord embedDim)

def encodeRaw (raw : ℤ) : List UInt8 := toBytes 8 (raw % 2 ^ 64).toNat

/-- The external registers of a shard in the order in which they are read first. -/
def boundaryRegisterOrder (program : CompiledProgram) (shard : Shard) : List Register :=
  ((reads program (indices shard)).filter fun register => match register with
    | .graphInput _ => true
    | .weight _ => false
    | .virtual index => ¬shard.range.Contains index).reverse.dedup.reverse

/-- A virtual register of the boundary has another tag than in a list of registers. -/
def encodeShape (shapes : ExtTreeMap Register ℕ) (register : Register) : List UInt8 :=
  (match register with
    | .virtual index => 1 :: encodeUsize index
    | other => encodeRegister other) ++ encodeUsize (shapes[register]?.getD 0)

def encodeIndexed (entry : CompiledInstruction × ℕ) : List UInt8 :=
  encodeUsize entry.2 ++ encodeInstruction entry.1.instruction ++ encodeRegisters entry.1.inputs

def encodeWeight (entry : String × List I18) : List UInt8 :=
  encodeText entry.1 ++ encodeUsize entry.2.length ++ entry.2.flatMap fun value => encodeRaw value.raw

def encodeDomain : RsqrtDomain → List UInt8
  | .range min max n => 0 :: (encodeWord min ++ encodeWord max ++ encodeWord n)
  | .rawAnchors points => 1 :: (encodeUsize points.length ++ points.flatMap fun point => encodeRaw point.raw)

def encodeTable (table : Table) : List UInt8 :=
  encodeUsize table.size ++ table.toList.flatMap fun entry => encodeRaw entry.1 ++ encodeRaw entry.2.raw

def encodeNorm (entry : ((UInt64 × UInt64) × RsqrtDomain) × Table) : List UInt8 :=
  encodeWord entry.1.1.1 ++ encodeWord entry.1.1.2 ++ encodeDomain entry.1.2 ++ encodeTable entry.2

variable (blake3 : Blake3)

/-- The domains come in the order of their keys, each with its table. -/
def deriveCircuitDigest (program : CompiledProgram) (shard : Shard) (norms : List (((UInt64 × UInt64) × RsqrtDomain) × Table))
    (weights : Values String) (shapes : ExtTreeMap Register ℕ) : Digest32 :=
  let order := boundaryRegisterOrder program shard
  let instructions := ((program.instructions.take shard.range.stop).drop shard.range.start).zipIdx shard.range.start
  ⟨blake3 (circuitBindingVersion ++ encodeUsize shard.id ++ encodeText shard.name ++ encodeUsize shard.range.start ++
    encodeUsize shard.range.stop ++ encodeRegisters shard.inputs ++ encodeRegisters shard.outputs ++
    utf8 "boundary-shapes-v1\x00" ++ encodeUsize order.length ++ order.flatMap (encodeShape shapes) ++
    instructions.flatMap encodeIndexed ++ encodeUsize weights.size ++ weights.toList.flatMap encodeWeight ++
    encodeUsize norms.length ++ norms.flatMap encodeNorm)⟩

end CircuitDigest

section Backend

/-- The sum of all estimates; every partial sum is below it, so it decides about every overflow. -/
def CpuWitnessLimits.estimatedRamBytes (l : CpuWitnessLimits) : Except BackendError ℕ := do
  let bytes := l.inputBytes.toNat + l.artifactBytes.toNat + l.totalInputValues.toNat * 16 + l.totalArtifactValues.toNat * 16 +
    l.domainPoints.toNat * 32 + l.inputBytes.toNat * 1 + l.artifactBytes.toNat * 2 + l.totalInputValues.toNat * 16 +
    l.totalArtifactValues.toNat * 32 + l.domainPoints.toNat * 64 + l.tensorCount.toNat * 512 +
    l.instructionCount.toNat * 512 + l.operandReferences.toNat * 128 + 32 * 2 ^ 20
  refuseIf (2 ^ 64 ≤ bytes) (.resource "CPU witness resource estimate overflow")
  return bytes

def CpuWitnessLimits.new (l : CpuWitnessLimits) : Except BackendError CpuWitnessLimits := do
  refuseIf (0 ∈ [l.inputBytes, l.artifactBytes, l.valuesPerTensor, l.totalInputValues, l.totalArtifactValues, l.tensorCount,
      l.domainPoints, l.instructionCount, l.operandReferences] ∨ l.totalInputValues < l.valuesPerTensor ∨
      l.totalArtifactValues < l.valuesPerTensor)
    (.resource "CPU witness limits must be nonzero and internally consistent")
  let _ ← CpuWitnessLimits.estimatedRamBytes l
  return l

def supportedProofFlavor : String := "halo2-kzg-bn256-shplonk-v1"

def validateRunIdentity (run : RunIdentity) : Except BackendError Unit := do
  refuseIf (run.proofFlavor.text ≠ supportedProofFlavor) (.invalidJob s!"unsupported proof flavor {run.proofFlavor.text}")
  refuseIf (run.modelVisibility ≠ ModelVisibility.publicModel)
    (.invalidJob "private-model witness generation is not supported")

def checkInput (shard : Shard) (register : Register) : Except BackendError Unit :=
  match register with
  | .virtual index =>
      refuseIf (shard.range.start ≤ index) (.invalidRegister "shard input is not produced before its range" register)
  | _ => .error (.invalidRegister "shard boundary contains non-virtual register" register)

def checkOutput (shard : Shard) (register : Register) : Except BackendError Unit :=
  match register with
  | .virtual index =>
      refuseIf (¬shard.range.Contains index) (.invalidRegister "shard output is not produced inside its range" register)
  | _ => .error (.invalidRegister "shard boundary contains non-virtual register" register)

def ofVerify : VerifyProof.BackendError → BackendError
  | .invalidJob message => .invalidJob message

def newShardIdentity (id : ℕ) (name : String) (circuitDigest : Digest32) : Except BackendError ShardIdentity := do
  refuseIf (2 ^ 64 ≤ id) (.invalidJob "configured shard id does not fit u64")
  match h : validText name with
  | .error e => throw (ofVerify e)
  | .ok () => return ⟨UInt64.ofNat id, name, circuitDigest, h⟩

variable (floats : HostFloats) (blake3 : Blake3)

def KeyLe (x y : UInt64 × UInt64) : Prop := x.1 < y.1 ∨ x.1 = y.1 ∧ x.2 ≤ y.2

instance (x y : UInt64 × UInt64) : Decidable (KeyLe x y) := inferInstanceAs (Decidable (_ ∨ _))

def backendParts (program : CompiledProgram) (shard : Shard) (domains : RmsNormDomains) (run : RunIdentity)
    (limits : CpuWitnessLimits) (manifest : BoundaryShapeManifest) : Except BackendError BackendParts := do
  let _ ← CpuWitnessLimits.new limits
  validateRunIdentity run
  refuseIf (shard.range.stop < shard.range.start ∨ program.instructions.length < shard.range.stop)
    (.invalidJob s!"shard range {shard.range.start}..{shard.range.stop} is outside {program.instructions.length} instructions")
  refuseIf (¬shard.inputs.Nodup ∨ ¬shard.outputs.Nodup) (.invalidJob "shard boundary registers must be unique")
  shard.inputs.forM (checkInput shard)
  shard.outputs.forM (checkOutput shard)
  let (a, tables, records) ← analyzeProgram floats program shard limits domains
  let shapes ← manifest.validateFor a limits
  let norms := (domains.zip (tables.map Prod.snd)).insertionSort fun x y => KeyLe x.1.1 y.1.1
  let identity ← newShardIdentity shard.id shard.name (deriveCircuitDigest blake3 program shard norms a.weights shapes)
  return {
    program
    shard
    shardIdentity := identity
    runIdentity := run
    rmsNormTables := tables
    rmsNormDomains := domains
    weights := a.weights
    requiredGraphInputs := a.graphInputs
    requiredVirtualInputs := a.virtualInputs
    boundaryShapes := shapes
    artifactRecordCount := records
    limits }

end Backend

section Configured

variable {floats : HostFloats} {blake3 : Blake3} {program : CompiledProgram} {shard : Shard} {limits : CpuWitnessLimits}
  {seen : List Register} {done : List ℕ} {a a' : Analysis} {index : ℕ} {register : Register}

/-- What is known of the registers that were seen. -/
structure Scanned (shard : Shard) (limits : CpuWitnessLimits) (seen : List Register) (a : Analysis) : Prop where
  graphInputs : ∀ name, name ∈ a.graphInputs ↔ Register.graphInput name ∈ seen
  weights : ∀ name, name ∈ a.weights ↔ Register.weight name ∈ seen
  virtualInputs : ∀ i, i ∈ a.virtualInputs ↔ i < shard.range.start ∧ Register.virtual i ∈ seen
  sizes : ∀ (name : String) v, a.weights[name]? = some v → v.length ≤ limits.valuesPerTensor.toNat

theorem scanned_start (shard : Shard) (limits : CpuWitnessLimits) : Scanned shard limits [] ⟨∅, ∅, ∅, [], 0⟩ where
  graphInputs _ := by simp
  weights _ := by simp
  virtualInputs _ := by simp
  sizes _ _ h := by simp at h

theorem Scanned.read (h : Scanned shard limits seen a)
    (hstep : scanRegister floats program shard limits index a register = .ok a') :
    Scanned shard limits (seen ++ [register]) a' := by
  cases register with
  | graphInput name =>
      obtain ⟨_, -, hstep⟩ := bind_eq_ok.mp hstep
      cases hstep
      refine ⟨fun other => ?_, fun other => ?_, fun i => ?_, h.sizes⟩
      · rw [ExtTreeSet.mem_insert, Std.LawfulEqCmp.compare_eq_iff_eq, h.graphInputs, List.mem_append, List.mem_singleton,
          Register.graphInput.injEq, or_comm, eq_comm]
      · simp [h.weights]
      · simp [h.virtualInputs]
  | weight name =>
      rw [scanRegister] at hstep
      split_ifs at hstep with hmem
      · cases hstep
        have hseen := (h.weights name).mp hmem
        refine ⟨fun other => ?_, fun other => ?_, fun i => ?_, h.sizes⟩
        · simp [h.graphInputs]
        · simp only [h.weights, List.mem_append, List.mem_singleton, Register.weight.injEq]
          constructor
          · exact .inl
          · rintro (hother | rfl)
            · exact hother
            · exact hseen
        · simp [h.virtualInputs]
      · obtain ⟨values, -, hstep⟩ := bind_eq_ok.mp hstep
        obtain ⟨_, hsize, hstep⟩ := bind_eq_ok.mp hstep
        cases hstep
        refine ⟨fun other => ?_, fun other => ?_, fun i => ?_, fun other v hv => ?_⟩
        · simp [h.graphInputs]
        · rw [ExtTreeMap.mem_insert, Std.LawfulEqCmp.compare_eq_iff_eq, h.weights, List.mem_append, List.mem_singleton,
            Register.weight.injEq, or_comm, eq_comm]
        · simp [h.virtualInputs]
        · by_cases heq : name = other
          · subst heq
            rw [ExtTreeMap.getElem?_insert_self] at hv
            cases hv
            exact Nat.not_lt.mp (refuseIf_ok.mp hsize)
          · rw [getElem?_insert_of_ne heq] at hv
            exact h.sizes other v hv
  | «virtual» i =>
      rw [scanRegister] at hstep
      split_ifs at hstep with hexternal hforward
      · cases hstep
        refine ⟨fun other => ?_, fun other => ?_, fun j => ?_, h.sizes⟩
        · simp [h.graphInputs]
        · simp [h.weights]
        · simp only [ExtTreeSet.mem_insert, Std.LawfulEqCmp.compare_eq_iff_eq, h.virtualInputs, List.mem_append,
            List.mem_singleton, Register.virtual.injEq]
          constructor
          · rintro (rfl | ⟨hj, hseen⟩)
            · exact ⟨hexternal, .inr rfl⟩
            · exact ⟨hj, .inl hseen⟩
          · rintro ⟨hj, hseen | rfl⟩
            · exact .inr ⟨hj, hseen⟩
            · exact .inl rfl
      · cases hstep
        refine ⟨fun other => ?_, fun other => ?_, fun j => ?_, h.sizes⟩
        · simp [h.graphInputs]
        · simp [h.weights]
        · simp only [h.virtualInputs, List.mem_append, List.mem_singleton, Register.virtual.injEq]
          constructor
          · rintro ⟨hj, hseen⟩
            exact ⟨hj, .inl hseen⟩
          · rintro ⟨hj, hseen | rfl⟩
            · exact ⟨hj, hseen⟩
            · exact absurd hj hexternal

theorem Scanned.instruction (h : Scanned shard limits (reads program done) a)
    (hstep : scanInstruction floats program shard limits a index = .ok a') :
    Scanned shard limits (reads program (done ++ [index])) a' := by
  obtain ⟨compiled, hcompiled, hstep⟩ := bind_eq_ok.mp hstep
  obtain ⟨_, -, hstep⟩ := bind_eq_ok.mp hstep
  obtain ⟨_, -, hstep⟩ := bind_eq_ok.mp hstep
  obtain ⟨_, -, hstep⟩ := bind_eq_ok.mp hstep
  obtain ⟨_, -, hstep⟩ := bind_eq_ok.mp hstep
  rw [reads_append done (Onnx.orElse_eq_ok.mp hcompiled)]
  apply foldlM_builds (I := Scanned shard limits) (fun _ _ _ _ hbefore hone => hbefore.read hone) (reads program done) _ hstep
  exact ⟨h.graphInputs, h.weights, h.virtualInputs, h.sizes⟩

theorem analyzeProgram_scanned {domains : RmsNormDomains} {tables : List ((UInt64 × UInt64) × Table)} {records : ℕ}
    (h : analyzeProgram floats program shard limits domains = .ok (a, tables, records)) :
    Scanned shard limits (reads program (indices shard)) a := by
  obtain ⟨_, -, h⟩ := bind_eq_ok.mp h
  obtain ⟨scanned, hscan, h⟩ := bind_eq_ok.mp h
  obtain ⟨_, -, h⟩ := bind_eq_ok.mp h
  obtain ⟨_, -, h⟩ := bind_eq_ok.mp h
  obtain ⟨_, -, h⟩ := bind_eq_ok.mp h
  obtain ⟨_, -, h⟩ := bind_eq_ok.mp h
  obtain ⟨_, -, h⟩ := bind_eq_ok.mp h
  obtain ⟨_, -, h⟩ := bind_eq_ok.mp h
  obtain ⟨_, -, h⟩ := bind_eq_ok.mp h
  obtain ⟨_, -, h⟩ := bind_eq_ok.mp h
  obtain ⟨_, -, h⟩ := bind_eq_ok.mp h
  cases h
  exact foldlM_builds (I := fun done => Scanned shard limits (reads program done))
    (fun _ _ _ _ hbefore hone => hbefore.instruction hone) [] (scanned_start shard limits) hscan

/-- What the constructor of a backend has checked. -/
structure Configured (b : BackendParts) : Prop where
  range : b.shard.range.start ≤ b.shard.range.stop ∧ b.shard.range.stop ≤ b.program.instructions.length
  outputs : ∀ r ∈ b.shard.outputs, IsLocal b r
  scanned : Scanned b.shard b.limits (reads b.program (indices b.shard))
    ⟨b.weights, b.requiredGraphInputs, b.requiredVirtualInputs, [], 0⟩

theorem backendParts_configured {domains : RmsNormDomains} {run : RunIdentity} {manifest : BoundaryShapeManifest}
    {b : BackendParts} (h : backendParts floats blake3 program shard domains run limits manifest = .ok b) : Configured b := by
  obtain ⟨_, -, h⟩ := bind_eq_ok.mp h
  obtain ⟨_, -, h⟩ := bind_eq_ok.mp h
  obtain ⟨_, hrange, h⟩ := bind_eq_ok.mp h
  obtain ⟨_, -, h⟩ := bind_eq_ok.mp h
  obtain ⟨_, -, h⟩ := bind_eq_ok.mp h
  obtain ⟨_, houtputs, h⟩ := bind_eq_ok.mp h
  obtain ⟨⟨a, tables, records⟩, hanalysis, h⟩ := bind_eq_ok.mp h
  obtain ⟨shapes, -, h⟩ := bind_eq_ok.mp h
  obtain ⟨identity, -, h⟩ := bind_eq_ok.mp h
  cases h
  have hscanned := analyzeProgram_scanned hanalysis
  refine ⟨?_, ?_, ⟨hscanned.graphInputs, hscanned.weights, hscanned.virtualInputs, hscanned.sizes⟩⟩
  · rw [refuseIf_ok, not_or, Nat.not_lt, Nat.not_lt] at hrange
    exact hrange
  · intro r hr
    have hcheck := forM_ok.mp houtputs r hr
    cases r with
    | graphInput name => cases hcheck
    | weight name => cases hcheck
    | «virtual» i => exact (not_not.mp (refuseIf_ok.mp hcheck)).1

/-- The backend for one shard, as its constructor builds it. -/
structure ZkieIsaCpuWitnessBackend extends BackendParts where
  configured : Configured toBackendParts

def ZkieIsaCpuWitnessBackend.withLimits (floats : HostFloats) (blake3 : Blake3) (program : CompiledProgram) (shard : Shard)
    (domains : RmsNormDomains) (run : RunIdentity) (limits : CpuWitnessLimits) (manifest : BoundaryShapeManifest) :
    Except BackendError ZkieIsaCpuWitnessBackend :=
  match h : backendParts floats blake3 program shard domains run limits manifest with
  | .error e => .error e
  | .ok b => .ok ⟨b, backendParts_configured h⟩

end Configured

end Zkie.WitnessSetup
