import Zkie.BoundProgram
import Zkie.CircuitShape
import Zkie.WitnessArtifact

namespace Zkie.AssemblerTemplate

open Assembler (RmsNormDomains)
open BuildDag (Shard)
open Checked
open CircuitShape (canonicalShapeBytes)
open FixedPoint (I18 mapError_eq_ok)
open GraphCompiler (CompiledInstruction CompiledProgram Register)
open Interning
open Isa (AssemblerInstruction AssemblerProgram RegisterRef)
open Onnx (orElse orElse_eq_ok)
open PoseidonBoundary (Blake3)
open ProgramCircuit (AssemblerCircuit AssemblerCircuitParams)
open ProgramCircuit.AssemblerCircuit (newWithPublicOutputs)
open RunDatabase (Digest32)
open Std (ExtTreeMap ExtTreeSet)
open VerifyProof (WitnessArtifact)
open WitnessArtifact (Files SerdeJson loadArtifact)
open WitnessExecution WitnessSetup

section Model

/-- The external tensors of a shard, in the order in which they are read first. -/
structure Numbering where
  inputs : Table Register (List I18)
  weights : Table String (List I18)

section Numbering

variable (start : ℕ) (makeInput : ℕ → Register → Except BackendError (List I18))
  (makeWeight : String → Except BackendError (List I18))

def numberInput (n : Numbering) (register : Register) : Except BackendError (Numbering × RegisterRef) := do
  let (inputs, i) ← intern (makeInput n.inputs.length) n.inputs register
  return (⟨inputs, n.weights⟩, .input (UInt64.ofNat i))

def numberWeight (n : Numbering) (name : String) : Except BackendError (Numbering × RegisterRef) := do
  let (weights, i) ← intern makeWeight n.weights name
  return (⟨n.inputs, weights⟩, .weight (UInt64.ofNat i))

/-- The operand for a register. A tensor is taken from outside where the register is read first. -/
def numberRegister (n : Numbering) (register : Register) : Except BackendError (Numbering × RegisterRef) :=
  match register with
  | .virtual source =>
      if start ≤ source then .ok (n, .virtual (UInt64.ofNat (source - start))) else numberInput makeInput n register
  | .weight name => numberWeight makeWeight n name
  | .graphInput _ => numberInput makeInput n register

def numberInstruction (program : CompiledProgram) (n : Numbering) (index : ℕ) :
    Except BackendError (Numbering × AssemblerInstruction) := do
  let compiled ← orElse .panicked program.instructions[index]?
  let (n, inputs) ← thread (numberRegister start makeInput makeWeight) n compiled.inputs
  return (n, ⟨compiled.instruction, inputs⟩)

end Numbering

def shapeDigest (blake3 : Blake3) (params : AssemblerCircuitParams) : Digest32 := ⟨blake3 (canonicalShapeBytes params)⟩

variable (b : BackendParts)

def numberShard (makeInput : ℕ → Register → Except BackendError (List I18)) (makeWeight : String → Except BackendError (List I18)) :
    Except BackendError (Numbering × List AssemblerInstruction) :=
  thread (numberInstruction b.shard.range.start makeInput makeWeight b.program) ⟨[], []⟩ (indices b.shard)

def Numbering.program (n : Numbering) (instructions : List AssemblerInstruction) : AssemblerProgram :=
  ⟨instructions, n.inputs.map Prod.snd, n.weights.map Prod.snd⟩

/-- The required outputs and the graph outputs that the shard computes. -/
def publicOutputGlobals : ExtTreeSet ℕ :=
  ExtTreeSet.ofList ((requiredOutputs b).toList ++
    (b.program.graphOutputs.filterMap fun output => virtualIndex output.2).filter fun index => b.shard.range.Contains index)

def publicOutputIndices : List ℕ := (publicOutputGlobals b).toList.map (· - b.shard.range.start)

def boundaryShape (register : Register) : Except BackendError ℕ := orElse .panicked b.boundaryShapes[register]?

def assemblerInputShapes : Except BackendError (List ℕ) := (boundaryRegisterOrder b.program b.shard).mapM (boundaryShape b)

/-- The tensor that the template has at the place of a register. -/
def templateInput (template : AssemblerProgram) (position : ℕ) (register : Register) : Except BackendError (List I18) := do
  let supplied ← orElse (.invalidJob "template is missing an external input tensor") template.inputValues[position]?
  let expected ← boundaryShape b register
  refuseIf (supplied.length ≠ expected)
    (.invalidRegister s!"template boundary tensor has {supplied.length}, expected {expected} values" register)
  return supplied

def configuredWeight (name : String) : Except BackendError (List I18) := orElse .panicked b.weights[name]?

def validateAssemblerTemplate (blake3 : Blake3) (template : AssemblerProgram) (domains : RmsNormDomains) :
    Except BackendError AssemblerCircuit := do
  let (n, instructions) ← numberShard b (templateInput b template) (configuredWeight b)
  let expected := n.program instructions
  refuseIf (template ≠ expected) (.invalidJob "assembler template does not match configured witness shard")
  let configured ← (newWithPublicOutputs expected b.rmsNormDomains (publicOutputIndices b)).mapError .invalidJob
  let supplied ← (newWithPublicOutputs template domains (publicOutputIndices b)).mapError .invalidJob
  refuseIf (shapeDigest blake3 configured.params ≠ shapeDigest blake3 supplied.params)
    (.invalidJob "assembler domains do not match configured witness shard")
  return supplied

def artifactInput (a : CpuWitnessArtifact) (register : Register) : Except BackendError (List I18) :=
  orElse (.missingRegister register) a.inputs[register]?

/-- The program of an artifact with its public values: inputs, weights and public outputs. -/
def loadAssemblerProgramAndPublicValues (floats : HostFloats) (blake3 : Blake3) (serde : SerdeJson) (files : Files)
    (artifact : WitnessArtifact) : Except BackendError (AssemblerProgram × List I18) := do
  let a ← loadArtifact b floats blake3 serde files artifact
  let (n, instructions) ← numberShard b (fun _ => artifactInput a) fun name => artifactInput a (.weight name)
  let program := n.program instructions
  let outputs ← (publicOutputGlobals b).toList.mapM fun index => orElse .panicked a.virtuals[index]?
  return (program, (program.inputValues ++ program.weightValues ++ outputs).flatten)

end Model

section Orders

variable {start : ℕ} {reads more : List Register} {register : Register} {ref : RegisterRef}

/-- The register is read from outside and its tensor is no weight. -/
def isInput (start : ℕ) : Register → Bool
  | .graphInput _ => true
  | .weight _ => false
  | .virtual source => source < start

def weightName : Register → Option String
  | .weight name => some name
  | .graphInput _ => none
  | .virtual _ => none

def inputOrder (start : ℕ) (reads : List Register) : List Register := firstUses (reads.filter (isInput start))

def weightOrder (reads : List Register) : List String := firstUses (reads.filterMap weightName)

/-- The operand for a register, given the orders of the external tensors. -/
def referIn (start : ℕ) (inputs : List Register) (weights : List String) (register : Register) : Option RegisterRef :=
  match register with
  | .virtual source =>
      if start ≤ source then some (.virtual (UInt64.ofNat (source - start)))
      else (inputs.idxOf? register).map fun i => .input (UInt64.ofNat i)
  | .weight name => (weights.idxOf? name).map fun i => .weight (UInt64.ofNat i)
  | .graphInput _ => (inputs.idxOf? register).map fun i => .input (UInt64.ofNat i)

def refer (start : ℕ) (reads : List Register) : Register → Option RegisterRef :=
  referIn start (inputOrder start reads) (weightOrder reads)

theorem referIn_mono {inputs inputs' : List Register} {weights weights' : List String} (hinputs : inputs <+: inputs')
    (hweights : weights <+: weights') (h : referIn start inputs weights register = some ref) :
    referIn start inputs' weights' register = some ref := by
  have hgrown : ∀ r, (inputs.idxOf? r).map (fun i => RegisterRef.input (UInt64.ofNat i)) = some ref →
      (inputs'.idxOf? r).map (fun i => RegisterRef.input (UInt64.ofNat i)) = some ref := by
    intro r hr
    obtain ⟨i, hi, rfl⟩ := Option.map_eq_some_iff.mp hr
    rw [idxOf?_mono hinputs hi]
    rfl
  cases register with
  | graphInput name => exact hgrown _ h
  | weight name =>
      obtain ⟨i, hi, rfl⟩ := Option.map_eq_some_iff.mp h
      rw [referIn, idxOf?_mono hweights hi]
      rfl
  | «virtual» source =>
      rw [referIn] at h ⊢
      split at h
      · next hlocal => rw [if_pos hlocal, h]
      · next hexternal =>
        rw [if_neg hexternal]
        exact hgrown _ h

theorem refer_mono (more : List Register) (h : refer start reads register = some ref) :
    refer start (reads ++ more) register = some ref := by
  apply referIn_mono _ _ h
  · rw [inputOrder, inputOrder, List.filter_append]
    exact firstUses_grows _ _
  · rw [weightOrder, weightOrder, List.filterMap_append]
    exact firstUses_grows _ _

end Orders

section Numbered

variable {start : ℕ} {makeInput : ℕ → Register → Except BackendError (List I18)}
  {makeWeight : String → Except BackendError (List I18)} {program : CompiledProgram} {reads : List Register} {register : Register}
  {ref : RegisterRef} {n n' : Numbering} {done : List ℕ} {index : ℕ} {instr : AssemblerInstruction}

/-- The tensors of the registers that were read. -/
structure Numbered (start : ℕ) (makeInput : ℕ → Register → Except BackendError (List I18))
    (makeWeight : String → Except BackendError (List I18)) (reads : List Register) (n : Numbering) : Prop where
  inputs : Filled makeInput (reads.filter (isInput start)) n.inputs
  weights : Filled (fun _ => makeWeight) (reads.filterMap weightName) n.weights

theorem Numbered.empty : Numbered start makeInput makeWeight [] ⟨[], []⟩ := ⟨.empty _, .empty _⟩

theorem Numbered.input (h : Numbered start makeInput makeWeight reads n) (hinput : isInput start register = true)
    (hstep : numberInput makeInput n register = .ok (n', ref)) : Numbered start makeInput makeWeight (reads ++ [register]) n' ∧
      ((inputOrder start (reads ++ [register])).idxOf? register).map (fun i => RegisterRef.input (UInt64.ofNat i)) = some ref := by
  obtain ⟨⟨inputs, i⟩, hintern, hstep⟩ := bind_eq_ok.mp hstep
  cases hstep
  obtain ⟨hfilled, hposition⟩ := h.inputs.intern hintern
  have hweight : weightName register = none := by
    cases register with
    | graphInput name | «virtual» source => rfl
    | weight name => cases hinput
  have hfilter : (reads ++ [register]).filter (isInput start) = reads.filter (isInput start) ++ [register] := by
    rw [List.filter_append, List.filter_singleton, hinput]
    rfl
  refine ⟨⟨hfilter ▸ hfilled, ?_⟩, ?_⟩
  · rw [List.filterMap_append, List.filterMap_cons, hweight, List.filterMap_nil, List.append_nil]
    exact h.weights
  · rw [inputOrder, hfilter, hposition]
    rfl

theorem Numbered.weight {name : String} (h : Numbered start makeInput makeWeight reads n)
    (hstep : numberWeight makeWeight n name = .ok (n', ref)) : Numbered start makeInput makeWeight (reads ++ [.weight name]) n' ∧
      refer start (reads ++ [.weight name]) (.weight name) = some ref := by
  obtain ⟨⟨weights, i⟩, hintern, hstep⟩ := bind_eq_ok.mp hstep
  cases hstep
  obtain ⟨hfilled, hposition⟩ := h.weights.intern hintern
  have hnames : (reads ++ [Register.weight name]).filterMap weightName = reads.filterMap weightName ++ [name] := by
    rw [List.filterMap_append]
    rfl
  refine ⟨⟨?_, hnames ▸ hfilled⟩, ?_⟩
  · rw [List.filter_append, List.filter_cons_of_neg (by simp [isInput]), List.filter_nil, List.append_nil]
    exact h.inputs
  · rw [refer, referIn, weightOrder, hnames, hposition]
    rfl

theorem Numbered.read (h : Numbered start makeInput makeWeight reads n)
    (hstep : numberRegister start makeInput makeWeight n register = .ok (n', ref)) :
    Numbered start makeInput makeWeight (reads ++ [register]) n' ∧ refer start (reads ++ [register]) register = some ref := by
  cases register with
  | graphInput name => exact h.input rfl hstep
  | weight name => exact h.weight hstep
  | «virtual» source =>
      rw [numberRegister] at hstep
      split at hstep
      · next hlocal =>
        cases hstep
        rw [refer, referIn, if_pos hlocal]
        refine ⟨⟨?_, ?_⟩, rfl⟩
        · rw [List.filter_append, List.filter_cons_of_neg (by simp [isInput, hlocal]), List.filter_nil, List.append_nil]
          exact h.inputs
        · rw [List.filterMap_append, List.filterMap_cons, weightName, List.filterMap_nil, List.append_nil]
          exact h.weights
      · next hexternal =>
        rw [refer, referIn, if_neg hexternal]
        exact h.input (decide_eq_true (Nat.not_le.mp hexternal)) hstep

/-- The instruction at an index, with operands for the registers that it reads. -/
def LoweredTo (program : CompiledProgram) (refer : Register → Option RegisterRef) (index : ℕ) (instr : AssemblerInstruction) : Prop :=
  ∃ compiled, program.instructions[index]? = some compiled ∧ instr.instruction = compiled.instruction ∧
    List.Forall₂ (fun register ref => refer register = some ref) compiled.inputs instr.inputs

theorem Numbered.instruction (h : Numbered start makeInput makeWeight (WitnessExecution.reads program done) n)
    (hstep : numberInstruction start makeInput makeWeight program n index = .ok (n', instr)) :
    Numbered start makeInput makeWeight (WitnessExecution.reads program (done ++ [index])) n' ∧
      LoweredTo program (refer start (WitnessExecution.reads program (done ++ [index]))) index instr := by
  obtain ⟨compiled, hcompiled, hstep⟩ := bind_eq_ok.mp hstep
  obtain ⟨⟨n₁, refs⟩, hthread, hstep⟩ := bind_eq_ok.mp hstep
  cases hstep
  have hcompiled := orElse_eq_ok.mp hcompiled
  have hbuilt := thread_builds (I := fun seen => Numbered start makeInput makeWeight (WitnessExecution.reads program done ++ seen))
    (R := fun seen register ref => refer start (WitnessExecution.reads program done ++ seen) register = some ref) ?_ ?_ []
    (by rwa [List.append_nil]) hthread
  · rw [reads_append done hcompiled]
    exact ⟨hbuilt.1, compiled, hcompiled, rfl, hbuilt.2⟩
  · intro seen more register ref href
    rw [← List.append_assoc]
    exact refer_mono more href
  · intro seen n register n' ref hn hstep
    rw [← List.append_assoc]
    exact hn.read hstep

theorem LoweredTo.mono {more : List ℕ} (h : LoweredTo program (refer start (WitnessExecution.reads program done)) index instr) :
    LoweredTo program (refer start (WitnessExecution.reads program (done ++ more))) index instr := by
  obtain ⟨compiled, hcompiled, hop, hrefs⟩ := h
  refine ⟨compiled, hcompiled, hop, hrefs.imp fun _ _ href => ?_⟩
  rw [WitnessExecution.reads, List.flatMap_append]
  exact refer_mono _ href

variable {b : BackendParts} {instructions : List AssemblerInstruction}

/-- The registers that the instructions of the shard read. -/
def shardReads (b : BackendParts) : List Register := WitnessExecution.reads b.program (indices b.shard)

def shardRefer (b : BackendParts) : Register → Option RegisterRef := refer b.shard.range.start (shardReads b)

theorem numberShard_ok (h : numberShard b makeInput makeWeight = .ok (n, instructions)) :
    Numbered b.shard.range.start makeInput makeWeight (shardReads b) n ∧
      List.Forall₂ (LoweredTo b.program (shardRefer b)) (indices b.shard) instructions :=
  thread_builds (I := fun done => Numbered b.shard.range.start makeInput makeWeight (WitnessExecution.reads b.program done))
    (R := fun done => LoweredTo b.program (refer b.shard.range.start (WitnessExecution.reads b.program done)))
    (fun _ _ _ _ hlowered => hlowered.mono) (fun _ _ _ _ _ hn hstep => hn.instruction hstep) [] Numbered.empty h

/-- What has to be there for the tensors of all registers that are read. -/
structure Supplies (start : ℕ) (makeInput : ℕ → Register → Except BackendError (List I18))
    (makeWeight : String → Except BackendError (List I18)) (all : List Register) : Prop where
  inputs : ∀ i register, (inputOrder start all)[i]? = some register → ∃ v, makeInput i register = .ok v
  weights : ∀ name ∈ weightOrder all, ∃ v, makeWeight name = .ok v

variable {all : List Register}

theorem inputOrder_grows (h : reads <+: all) : inputOrder start reads <+: inputOrder start all := by
  obtain ⟨more, rfl⟩ := h
  rw [inputOrder, inputOrder, List.filter_append]
  exact firstUses_grows _ _

theorem Supplies.input (hsupplies : Supplies start makeInput makeWeight all) (h : Numbered start makeInput makeWeight reads n)
    (hread : reads ++ [register] <+: all) (hinput : isInput start register = true) :
    ∃ n' ref, numberInput makeInput n register = .ok (n', ref) := by
  have hfilter : (reads ++ [register]).filter (isInput start) = reads.filter (isInput start) ++ [register] := by
    rw [List.filter_append, List.filter_singleton, hinput]
    rfl
  have htotal := h.inputs.intern_total (k := register) fun i hi => by
    apply hsupplies.inputs i register
    rw [← hfilter] at hi
    exact (List.prefix_iff_getElem?.mp (inputOrder_grows hread) i (List.getElem?_eq_some_iff.mp hi).1).trans
      ((List.getElem?_eq_getElem _).symm.trans hi)
  obtain ⟨inputs, i, hintern⟩ := htotal
  exact ⟨_, _, bind_eq_ok.mpr ⟨(inputs, i), hintern, rfl⟩⟩

theorem Supplies.read (hsupplies : Supplies start makeInput makeWeight all) (h : Numbered start makeInput makeWeight reads n)
    (hread : reads ++ [register] <+: all) : ∃ n' ref, numberRegister start makeInput makeWeight n register = .ok (n', ref) := by
  cases register with
  | graphInput name => exact hsupplies.input h hread rfl
  | weight name =>
      have hname : name ∈ weightOrder all := by
        rw [weightOrder, mem_firstUses, List.mem_filterMap]
        exact ⟨.weight name, hread.subset (by simp), rfl⟩
      obtain ⟨weights, i, hintern⟩ := h.weights.intern_total (k := name) fun _ _ => hsupplies.weights name hname
      exact ⟨_, _, bind_eq_ok.mpr ⟨(weights, i), hintern, rfl⟩⟩
  | «virtual» source =>
      rw [numberRegister]
      split
      · exact ⟨_, _, rfl⟩
      · next hexternal => exact hsupplies.input h hread (decide_eq_true (Nat.not_le.mp hexternal))

theorem Supplies.instruction (hsupplies : Supplies start makeInput makeWeight all) (hindex : index < program.instructions.length)
    (h : Numbered start makeInput makeWeight (WitnessExecution.reads program done) n)
    (hread : WitnessExecution.reads program (done ++ [index]) <+: all) :
    ∃ n' instr, numberInstruction start makeInput makeWeight program n index = .ok (n', instr) := by
  have hcompiled := List.getElem?_eq_getElem hindex
  rw [reads_append done hcompiled] at hread
  have hthread := thread_succeeds (f := numberRegister start makeInput makeWeight)
    (I := fun seen => Numbered start makeInput makeWeight (WitnessExecution.reads program done ++ seen)) ?_ []
    (List.nil_append program.instructions[index].inputs) (by rwa [List.append_nil])
  · obtain ⟨n', refs, hthread, -⟩ := hthread
    exact ⟨_, _, bind_eq_ok.mpr ⟨_, orElse_eq_ok.mpr hcompiled, bind_eq_ok.mpr ⟨(n', refs), hthread, rfl⟩⟩⟩
  · intro seen n register hseen hn
    have hinitial : WitnessExecution.reads program done ++ seen ++ [register] <+: all := by
      rw [List.append_assoc]
      exact (List.prefix_append_right_inj _ |>.mpr hseen).trans hread
    obtain ⟨n', ref, hstep⟩ := hsupplies.read hn hinitial
    refine ⟨n', ref, hstep, ?_⟩
    rw [← List.append_assoc]
    exact (hn.read hstep).1

theorem numberShard_total (hrange : b.shard.range.stop ≤ b.program.instructions.length)
    (hsupplies : Supplies b.shard.range.start makeInput makeWeight (shardReads b)) :
    ∃ n instructions, numberShard b makeInput makeWeight = .ok (n, instructions) := by
  have hthread := thread_succeeds (f := numberInstruction b.shard.range.start makeInput makeWeight b.program)
    (I := fun done => Numbered b.shard.range.start makeInput makeWeight (WitnessExecution.reads b.program done)) ?_ []
    (List.nil_append (indices b.shard)) Numbered.empty
  · obtain ⟨n, instructions, hthread, -⟩ := hthread
    exact ⟨n, instructions, hthread⟩
  · intro done n index hdone hn
    have hindex : index ∈ indices b.shard := hdone.subset (by simp)
    have hinitial : WitnessExecution.reads b.program (done ++ [index]) <+: shardReads b := by
      obtain ⟨rest, hrest⟩ := hdone
      rw [shardReads, ← hrest, WitnessExecution.reads, WitnessExecution.reads, @List.flatMap_append _ _ (done ++ [index])]
      exact List.prefix_append _ _
    obtain ⟨n', instr, hstep⟩ := hsupplies.instruction ((mem_indices.mp hindex).2.trans_le hrange) hn hinitial
    exact ⟨n', instr, hstep, (hn.instruction hstep).1⟩

end Numbered

section Built

theorem inputOrder_length (b : BackendParts) : (inputOrder b.shard.range.start (shardReads b)).length ≤ (shardReads b).length :=
  (firstUses_length _).trans (List.length_filter_le _ _)

theorem weightOrder_length (b : BackendParts) : (weightOrder (shardReads b)).length ≤ (shardReads b).length :=
  (firstUses_length _).trans (List.length_filterMap_le _ _)

variable {floats : HostFloats} {blake3 : Blake3} {program : CompiledProgram} {shard : Shard} {limits : CpuWitnessLimits}
  {a a' : Analysis} {index : ℕ} {register : Register}

/-- The domains with their tables, in the order of the keys. -/
def normsOf (b : BackendParts) : List (((UInt64 × UInt64) × RmsNorm.RsqrtDomain) × WitnessExecution.Table) :=
  (b.rmsNormDomains.zip (b.rmsNormTables.map Prod.snd)).insertionSort fun x y => KeyLe x.1.1 y.1.1

/-- What the constructor of a backend has checked, and what it has computed. -/
structure Built (floats : HostFloats) (blake3 : Blake3) (b : BackendParts) : Prop where
  configured : Configured b
  outputs : ∀ i, Register.virtual i ∈ b.shard.outputs → b.shard.range.Contains i
  backward : ∀ i ∈ indices b.shard, ∀ p, BuildDag.ReadsOutput b.program i p → p < i
  operands : (shardReads b).length < 2 ^ 64
  count : (indices b.shard).length < 2 ^ 64
  weights : ∀ (name : String) v, b.weights[name]? = some v → ∃ i, weightAsI18 floats b.program i name = .ok v
  shapes : ∀ r, r ∈ b.boundaryShapes ↔ (∃ name ∈ b.requiredGraphInputs, r = .graphInput name) ∨
    ∃ i ∈ b.requiredVirtualInputs, r = .virtual i
  digest : b.shardIdentity.circuitDigest = deriveCircuitDigest blake3 b.program b.shard (normsOf b) b.weights b.boundaryShapes

theorem scanRegister_backward {p : ℕ} (hstart : shard.range.start ≤ index)
    (h : WitnessSetup.scanRegister floats program shard limits index a (.virtual p) = .ok a') : p < index := by
  rw [WitnessSetup.scanRegister] at h
  split_ifs at h with hexternal hforward
  · omega
  · omega

theorem scanRegister_weights (h : WitnessSetup.scanRegister floats program shard limits index a register = .ok a')
    (hmade : ∀ (name : String) v, a.weights[name]? = some v → ∃ i, weightAsI18 floats program i name = .ok v) :
    ∀ (name : String) v, a'.weights[name]? = some v → ∃ i, weightAsI18 floats program i name = .ok v := by
  cases register with
  | graphInput name =>
      obtain ⟨_, -, h⟩ := bind_eq_ok.mp h
      cases h
      exact hmade
  | «virtual» p =>
      rw [WitnessSetup.scanRegister] at h
      split_ifs at h
      · cases h
        exact hmade
      · cases h
        exact hmade
  | weight name =>
      rw [WitnessSetup.scanRegister] at h
      split_ifs at h with hmem
      · cases h
        exact hmade
      · obtain ⟨values, hvalues, h⟩ := bind_eq_ok.mp h
        obtain ⟨_, -, h⟩ := bind_eq_ok.mp h
        cases h
        intro other v hv
        by_cases heq : name = other
        · subst heq
          rw [ExtTreeMap.getElem?_insert_self] at hv
          cases hv
          exact ⟨index, hvalues⟩
        · rw [getElem?_insert_of_ne heq] at hv
          exact hmade other v hv

theorem scanRegister_references (h : WitnessSetup.scanRegister floats program shard limits index a register = .ok a') :
    a'.operandReferences = a.operandReferences := by
  cases register with
  | graphInput name =>
      obtain ⟨_, -, h⟩ := bind_eq_ok.mp h
      cases h
      rfl
  | «virtual» p =>
      rw [WitnessSetup.scanRegister] at h
      split_ifs at h <;> cases h <;> rfl
  | weight name =>
      rw [WitnessSetup.scanRegister] at h
      split_ifs at h
      · cases h
        rfl
      · obtain ⟨values, -, h⟩ := bind_eq_ok.mp h
        obtain ⟨_, -, h⟩ := bind_eq_ok.mp h
        cases h
        rfl

theorem scanInstruction_ok (h : scanInstruction floats program shard limits a index = .ok a') :
    ∃ compiled middle, program.instructions[index]? = some compiled ∧ middle.weights = a.weights ∧
      a.operandReferences + compiled.inputs.length ≤ middle.operandReferences ∧ middle.operandReferences < 2 ^ 64 ∧
      compiled.inputs.foldlM (WitnessSetup.scanRegister floats program shard limits index) middle = .ok a' := by
  obtain ⟨compiled, hcompiled, h⟩ := bind_eq_ok.mp h
  obtain ⟨_, -, h⟩ := bind_eq_ok.mp h
  obtain ⟨_, hsum, h⟩ := bind_eq_ok.mp h
  obtain ⟨_, -, h⟩ := bind_eq_ok.mp h
  obtain ⟨_, -, h⟩ := bind_eq_ok.mp h
  refine ⟨compiled, _, orElse_eq_ok.mp hcompiled, ?_, ?_, ?_, h⟩
  · rfl
  · exact Nat.le_add_right _ _
  · exact Nat.not_le.mp (refuseIf_ok.mp hsum)

/-- The operands that were counted are at least those that are registers. -/
theorem scan_references {scanned : Analysis} (h : (indices shard).foldlM (scanInstruction floats program shard limits) ⟨∅, ∅, ∅, [], 0⟩ =
    .ok scanned) : (reads program (indices shard)).length < 2 ^ 64 := by
  have hbuilt := foldlM_builds (I := fun done a => (reads program done).length ≤ a.operandReferences ∧ a.operandReferences < 2 ^ 64)
    ?_ [] ⟨Nat.le_refl _, by norm_num⟩ h
  · exact hbuilt.1.trans_lt hbuilt.2
  · rintro done before i after ⟨hle, -⟩ hstep
    obtain ⟨compiled, middle, hcompiled, -, hcount, hlt, hregisters⟩ := scanInstruction_ok hstep
    have hsame : after.operandReferences = middle.operandReferences :=
      foldlM_keeps (I := fun a => a.operandReferences = middle.operandReferences)
        (fun _ _ _ hbefore hregister => (scanRegister_references hregister).trans hbefore) rfl hregisters
    rw [reads_append done hcompiled, List.length_append, hsame]
    omega

theorem analyzeProgram_scans {domains : RmsNormDomains} {tables : List ((UInt64 × UInt64) × WitnessExecution.Table)} {records : ℕ}
    (h : analyzeProgram floats program shard limits domains = .ok (a, tables, records)) :
    (∀ i ∈ indices shard, ∀ p, BuildDag.ReadsOutput program i p → p < i) ∧ (reads program (indices shard)).length < 2 ^ 64 ∧
      (indices shard).length < 2 ^ 64 ∧
      ∀ (name : String) v, a.weights[name]? = some v → ∃ i, weightAsI18 floats program i name = .ok v := by
  obtain ⟨_, hcount, h⟩ := bind_eq_ok.mp h
  obtain ⟨scanned, hscan, h⟩ := bind_eq_ok.mp h
  obtain ⟨_, -, h⟩ := bind_eq_ok.mp h
  obtain ⟨_, -, h⟩ := bind_eq_ok.mp h
  obtain ⟨_, -, h⟩ := bind_eq_ok.mp h
  obtain ⟨_, -, h⟩ := bind_eq_ok.mp h
  obtain ⟨_, -, h⟩ := bind_eq_ok.mp h
  obtain ⟨_, -, h⟩ := bind_eq_ok.mp h
  obtain ⟨_, -, h⟩ := bind_eq_ok.mp h
  obtain ⟨_, -, h⟩ := bind_eq_ok.mp h
  obtain ⟨_, -, h⟩ := bind_eq_ok.mp h
  cases h
  refine ⟨?_, scan_references hscan, ?_, ?_⟩
  · rintro i hi p ⟨compiled, hcompiled, hread⟩
    obtain ⟨before, after, hstep⟩ := foldlM_ok_step hscan hi
    obtain ⟨compiled', middle, hcompiled', -, -, -, hregisters⟩ := scanInstruction_ok hstep
    rw [hcompiled] at hcompiled'
    cases hcompiled'
    obtain ⟨_, _, hregister⟩ := foldlM_ok_step hregisters hread
    exact scanRegister_backward (mem_indices.mp hi).1 hregister
  · rw [indices, List.length_range']
    exact (Nat.not_lt.mp (refuseIf_ok.mp hcount)).trans_lt limits.instructionCount.toNat_lt
  · apply foldlM_keeps _ _ hscan
    · intro before i after hmade hstep
      obtain ⟨compiled, middle, -, hmiddle, -, -, hregisters⟩ := scanInstruction_ok hstep
      exact foldlM_keeps (fun _ _ _ hmade hregister => scanRegister_weights hregister hmade) (hmiddle ▸ hmade) hregisters
    · simp

theorem validateFor_ok {manifest : BoundaryShapeManifest} {shapes : ExtTreeMap Register ℕ}
    (h : manifest.validateFor a limits = .ok shapes) (r : Register) : r ∈ shapes ↔
      (∃ name ∈ a.graphInputs, r = .graphInput name) ∨ ∃ i ∈ a.virtualInputs, r = .virtual i := by
  obtain ⟨_, hkeys, h⟩ := bind_eq_ok.mp h
  obtain ⟨_, -, h⟩ := bind_eq_ok.mp h
  obtain ⟨_, -, h⟩ := bind_eq_ok.mp h
  cases h
  have hkeys := refuseIf_ok.mp hkeys
  simp only [not_or, not_not, ne_eq] at hkeys
  have hmaps : manifest.entries.map Prod.fst =
      a.graphInputs.toList.map Register.graphInput ++ a.virtualInputs.toList.map Register.virtual := by
    rw [← hkeys.1, ← hkeys.2, ← ExtTreeMap.map_fst_toList_eq_keys, ← ExtTreeMap.map_fst_toList_eq_keys,
      BoundaryShapeManifest.entries, List.map_append, List.map_map, List.map_map, List.map_map, List.map_map]
    rfl
  rw [ExtTreeMap.mem_ofList, List.contains_iff_mem, hmaps, List.mem_append, List.mem_map, List.mem_map]
  simp only [ExtTreeSet.mem_toList, eq_comm]

theorem backendParts_built {domains : RmsNormDomains} {run : AggregationDigest.RunIdentity} {manifest : BoundaryShapeManifest}
    {b : BackendParts} (h : backendParts floats blake3 program shard domains run limits manifest = .ok b) : Built floats blake3 b := by
  have hconfigured := backendParts_configured h
  obtain ⟨_, -, h⟩ := bind_eq_ok.mp h
  obtain ⟨_, -, h⟩ := bind_eq_ok.mp h
  obtain ⟨_, hrange, h⟩ := bind_eq_ok.mp h
  obtain ⟨_, -, h⟩ := bind_eq_ok.mp h
  obtain ⟨_, -, h⟩ := bind_eq_ok.mp h
  obtain ⟨_, houtputs, h⟩ := bind_eq_ok.mp h
  obtain ⟨⟨a, tables, records⟩, hanalysis, h⟩ := bind_eq_ok.mp h
  obtain ⟨shapes, hshapes, h⟩ := bind_eq_ok.mp h
  obtain ⟨identity, hidentity, h⟩ := bind_eq_ok.mp h
  cases h
  obtain ⟨hbackward, hreads, hcount, hmade⟩ := analyzeProgram_scans hanalysis
  refine ⟨hconfigured, fun i hi => ?_, hbackward, hreads, hcount, hmade, validateFor_ok hshapes, ?_⟩
  · exact not_not.mp (refuseIf_ok.mp (forM_ok.mp houtputs _ hi))
  · obtain ⟨_, -, hidentity⟩ := bind_eq_ok.mp hidentity
    split at hidentity
    · cases hidentity
    · cases hidentity
      rfl

theorem backendParts_fields {domains : RmsNormDomains} {run : AggregationDigest.RunIdentity} {manifest : BoundaryShapeManifest}
    {b : BackendParts} (h : backendParts floats blake3 program shard domains run limits manifest = .ok b) :
    b.program = program ∧ b.shard = shard ∧ b.rmsNormDomains = domains := by
  obtain ⟨_, -, h⟩ := bind_eq_ok.mp h
  obtain ⟨_, -, h⟩ := bind_eq_ok.mp h
  obtain ⟨_, -, h⟩ := bind_eq_ok.mp h
  obtain ⟨_, -, h⟩ := bind_eq_ok.mp h
  obtain ⟨_, -, h⟩ := bind_eq_ok.mp h
  obtain ⟨_, -, h⟩ := bind_eq_ok.mp h
  obtain ⟨_, -, h⟩ := bind_eq_ok.mp h
  obtain ⟨_, -, h⟩ := bind_eq_ok.mp h
  obtain ⟨_, -, h⟩ := bind_eq_ok.mp h
  cases h
  exact ⟨rfl, rfl, rfl⟩

theorem withLimits_parts {domains : RmsNormDomains} {run : AggregationDigest.RunIdentity} {manifest : BoundaryShapeManifest}
    {b : ZkieIsaCpuWitnessBackend} (h : ZkieIsaCpuWitnessBackend.withLimits floats blake3 program shard domains run limits manifest = .ok b) :
    backendParts floats blake3 program shard domains run limits manifest = .ok b.toBackendParts := by
  unfold ZkieIsaCpuWitnessBackend.withLimits at h
  split at h
  · cases h
  · next parts hparts =>
    cases h
    exact hparts

theorem withLimits_of_parts {domains : RmsNormDomains} {run : AggregationDigest.RunIdentity} {manifest : BoundaryShapeManifest}
    {parts : BackendParts} (h : backendParts floats blake3 program shard domains run limits manifest = .ok parts) :
    ∃ b, ZkieIsaCpuWitnessBackend.withLimits floats blake3 program shard domains run limits manifest = .ok b ∧ b.toBackendParts = parts := by
  unfold ZkieIsaCpuWitnessBackend.withLimits
  split
  · next hparts =>
    rw [h] at hparts
    cases hparts
  · next parts' hparts =>
    rw [h] at hparts
    cases hparts
    exact ⟨_, rfl, rfl⟩

/-- The registers that the digest counts as external are those that the templates count. -/
theorem Built.boundaryOrder {b : BackendParts} (h : Built floats blake3 b) :
    boundaryRegisterOrder b.program b.shard = inputOrder b.shard.range.start (shardReads b) := by
  unfold boundaryRegisterOrder inputOrder firstUses shardReads
  congr 3
  apply List.filter_congr
  intro register hread
  cases register with
  | graphInput name | weight name => rfl
  | «virtual» p =>
      obtain ⟨i, hi, hp⟩ := List.mem_flatMap.mp hread
      have hlt : p < b.shard.range.stop := by
        cases hcompiled : b.program.instructions[i]? with
        | none => simp [hcompiled] at hp
        | some compiled =>
            rw [hcompiled] at hp
            exact (h.backward i hi p ⟨compiled, hcompiled, hp⟩).trans (mem_indices.mp hi).2
      simp only [isInput, RangeChain.Range.Contains, hlt, and_true, not_le]

theorem shaped_of_input {b : BackendParts} (hb : Built floats blake3 b)
    (hread : register ∈ inputOrder b.shard.range.start (shardReads b)) : ∃ count, b.boundaryShapes[register]? = some count := by
  rw [inputOrder, mem_firstUses, List.mem_filter] at hread
  have hmem : register ∈ b.boundaryShapes := by
    rw [hb.shapes]
    cases register with
    | graphInput name => exact .inl ⟨name, (hb.configured.scanned.graphInputs name).mpr hread.1, rfl⟩
    | weight name => cases hread.2
    | «virtual» p => exact .inr ⟨p, (hb.configured.scanned.virtualInputs p).mpr ⟨of_decide_eq_true hread.2, hread.1⟩, rfl⟩
  exact Option.isSome_iff_exists.mp (ExtTreeMap.mem_iff_isSome_getElem?.mp hmem)

theorem weight_read {b : BackendParts} {name : String} (h : name ∈ weightOrder (shardReads b)) : Register.weight name ∈ shardReads b := by
  rw [weightOrder, mem_firstUses, List.mem_filterMap] at h
  obtain ⟨register, hregister, hname⟩ := h
  cases register with
  | graphInput name | «virtual» p => cases hname
  | weight other =>
      cases hname
      exact hregister

end Built

section Template

variable {floats : HostFloats} {blake3 : Blake3} {b : BackendParts} {template : AssemblerProgram} {domains : RmsNormDomains}
  {circuit : AssemblerCircuit} {n : Numbering} {instructions : List AssemblerInstruction}

/-- The programs of a shard: its instructions on any tensors of the right lengths and on its own weights. -/
structure TemplateOf (b : BackendParts) (template : AssemblerProgram) : Prop where
  instructions : List.Forall₂ (LoweredTo b.program (shardRefer b)) (indices b.shard) template.instructions
  inputs : List.Forall₂ (fun register values => b.boundaryShapes[register]? = some values.length)
    (inputOrder b.shard.range.start (shardReads b)) template.inputValues
  weights : List.Forall₂ (fun name values => b.weights[name]? = some values) (weightOrder (shardReads b)) template.weightValues

theorem LoweredTo.unique {program : CompiledProgram} {refer : Register → Option RegisterRef} {index : ℕ}
    {x y : AssemblerInstruction} (hx : LoweredTo program refer index x) (hy : LoweredTo program refer index y) : x = y := by
  obtain ⟨compiled, hcompiled, hop, hrefs⟩ := hx
  obtain ⟨compiled', hcompiled', hop', hrefs'⟩ := hy
  rw [hcompiled] at hcompiled'
  cases hcompiled'
  have hinputs : x.inputs = y.inputs :=
    List.right_unique_forall₂' (fun _ _ _ hr hs => Option.some.inj (hr.symm.trans hs)) hrefs hrefs'
  cases x
  cases y
  simp_all

theorem templateInput_ok {position : ℕ} {register : Register} {values : List I18} :
    templateInput b template position register = .ok values ↔
      template.inputValues[position]? = some values ∧ b.boundaryShapes[register]? = some values.length := by
  simp only [templateInput, boundaryShape, bind_eq_ok, orElse_eq_ok, ne_eq]
  constructor
  · rintro ⟨supplied, hsupplied, expected, hexpected, _, hlength, h⟩
    cases h
    have hlength := not_not.mp (refuseIf_ok.mp hlength)
    exact ⟨hsupplied, hlength ▸ hexpected⟩
  · rintro ⟨hsupplied, hshape⟩
    exact ⟨values, hsupplied, _, hshape, (), refuseIf_ok.mpr (not_not.mpr rfl), rfl⟩

theorem Numbered.templateOf (h : Numbered b.shard.range.start (templateInput b template) (configuredWeight b) (shardReads b) n)
    (hinstructions : List.Forall₂ (LoweredTo b.program (shardRefer b)) (indices b.shard) instructions) :
    TemplateOf b (n.program instructions) where
  instructions := hinstructions
  inputs := h.inputs.forall₂ fun _ _ _ hmake => (templateInput_ok.mp hmake).2
  weights := h.weights.forall₂ fun _ _ _ hmake => orElse_eq_ok.mp hmake

theorem TemplateOf.supplies (h : TemplateOf b template) :
    Supplies b.shard.range.start (templateInput b template) (configuredWeight b) (shardReads b) where
  inputs i register hi := by
    obtain ⟨hlt, hget⟩ := List.getElem?_eq_some_iff.mp hi
    have hlt' : i < template.inputValues.length := h.inputs.length_eq ▸ hlt
    have hshape := (List.forall₂_iff_get.mp h.inputs).2 i hlt hlt'
    rw [List.get_eq_getElem, hget] at hshape
    exact ⟨template.inputValues[i], templateInput_ok.mpr ⟨List.getElem?_eq_getElem hlt', hshape⟩⟩
  weights name hname := by
    obtain ⟨values, -, hvalues⟩ := Satisfaction.forall₂_exists_of_mem h.weights hname
    exact ⟨values, orElse_eq_ok.mpr hvalues⟩

/-- The pass over a template of the shard gives the template back. -/
theorem TemplateOf.numbered (hb : Configured b) (h : TemplateOf b template) : ∃ n instructions,
    numberShard b (templateInput b template) (configuredWeight b) = .ok (n, instructions) ∧ n.program instructions = template := by
  obtain ⟨n, instructions, hnumber⟩ := numberShard_total hb.range.2 h.supplies
  obtain ⟨hn, hlowered⟩ := numberShard_ok hnumber
  refine ⟨n, instructions, hnumber, ?_⟩
  have hinstructions : instructions = template.instructions :=
    List.right_unique_forall₂' (fun _ _ _ hx hy => hx.unique hy) hlowered h.instructions
  have hweights : n.weights.map Prod.snd = template.weightValues :=
    List.right_unique_forall₂' (fun _ _ _ hx hy => Option.some.inj (hx.symm.trans hy)) (hn.templateOf hlowered).weights h.weights
  have hinputs : n.inputs.map Prod.snd = template.inputValues := by
    have hlength : n.inputs.length = template.inputValues.length := by
      rw [← h.inputs.length_eq, hn.inputs.length]
      rfl
    apply List.ext_getElem (by rw [List.length_map, hlength])
    intro i hi hi'
    rw [List.length_map] at hi
    have hmade := hn.inputs.made i n.inputs[i].1 n.inputs[i].2 (List.getElem?_eq_getElem hi)
    rw [List.getElem_map]
    exact (List.getElem_eq_iff hi').mpr (templateInput_ok.mp hmade).1 |>.symm
  rw [Numbering.program, hinstructions, hweights, hinputs]

theorem publicOutputGlobals_inside (hb : Built floats blake3 b) : ∀ i ∈ publicOutputGlobals b, b.shard.range.Contains i := by
  intro i hi
  rw [publicOutputGlobals, ExtTreeSet.mem_ofList, List.contains_iff_mem, List.mem_append, ExtTreeSet.mem_toList,
    mem_requiredOutputs, List.mem_filter, decide_eq_true_iff] at hi
  exact hi.elim (hb.outputs i) And.right

/-- The public outputs that every circuit of the shard can have. -/
theorem publicOutputs_valid (hb : Built floats blake3 b) (hlength : template.instructions.length = (indices b.shard).length) :
    ¬(¬(publicOutputIndices b).Pairwise (· < ·) ∨ ∃ index ∈ publicOutputIndices b, template.instructions.length ≤ index) := by
  have hinside : ∀ i ∈ (publicOutputGlobals b).toList, b.shard.range.Contains i := fun i hi =>
    publicOutputGlobals_inside hb i (ExtTreeSet.mem_toList.mp hi)
  rw [not_or, not_not]
  constructor
  · rw [publicOutputIndices, List.pairwise_map]
    have hsorted : (publicOutputGlobals b).toList.Pairwise fun i j => compare i j = .lt := ExtTreeSet.ordered_toList
    apply hsorted.imp_of_mem
    intro i j hi _ hlt
    rw [Nat.compare_eq_lt] at hlt
    have hstart := (hinside i hi).1
    omega
  · rintro ⟨index, hindex, hle⟩
    obtain ⟨i, hi, rfl⟩ := List.mem_map.mp hindex
    have hi := hinside i hi
    rw [hlength, indices, List.length_range'] at hle
    have hstart := hi.1
    have hstop := hi.2
    omega

/-- The circuit of a template. -/
def templateCircuit (b : BackendParts) (template : AssemblerProgram) (domains : RmsNormDomains) : AssemblerCircuit :=
  ⟨.fromProgram template domains (publicOutputIndices b), template, true, [], rfl, rfl, rfl⟩

theorem newWithPublicOutputs_template (hb : Built floats blake3 b) (h : TemplateOf b template) (domains : RmsNormDomains) :
    newWithPublicOutputs template domains (publicOutputIndices b) = .ok (templateCircuit b template domains) := by
  rw [newWithPublicOutputs, if_neg (publicOutputs_valid hb h.instructions.length_eq.symm)]
  rfl

/-- The accepted templates are the programs of the shard, as far as the digest tells the domains apart. -/
theorem validate_ok_iff (hb : Built floats blake3 b) : validateAssemblerTemplate b blake3 template domains = .ok circuit ↔
    TemplateOf b template ∧ shapeDigest blake3 (templateCircuit b template b.rmsNormDomains).params =
      shapeDigest blake3 (templateCircuit b template domains).params ∧ templateCircuit b template domains = circuit := by
  unfold validateAssemblerTemplate
  simp only [bind_eq_ok]
  constructor
  · rintro ⟨⟨n, instructions⟩, hnumber, _, hsame, configured, hconfigured, supplied, hsupplied, _, hdigest, h⟩
    cases h
    obtain ⟨hn, hlowered⟩ := numberShard_ok hnumber
    have hsame := not_not.mp (refuseIf_ok.mp hsame)
    have htemplate := hn.templateOf hlowered
    dsimp only at hsame hconfigured
    rw [← hsame] at htemplate hconfigured
    rw [newWithPublicOutputs_template hb htemplate] at hconfigured hsupplied
    cases hconfigured
    cases hsupplied
    exact ⟨htemplate, not_not.mp (refuseIf_ok.mp hdigest), rfl⟩
  · rintro ⟨htemplate, hdigest, rfl⟩
    obtain ⟨n, instructions, hnumber, hprogram⟩ := htemplate.numbered hb.configured
    refine ⟨(n, instructions), hnumber, (), refuseIf_ok.mpr (not_not.mpr hprogram.symm), templateCircuit b template b.rmsNormDomains, ?_,
      templateCircuit b template domains, ?_, (), refuseIf_ok.mpr (not_not.mpr hdigest), rfl⟩
    · dsimp only
      rw [hprogram, newWithPublicOutputs_template hb htemplate]
      rfl
    · rw [newWithPublicOutputs_template hb htemplate]
      rfl

end Template

end Zkie.AssemblerTemplate
