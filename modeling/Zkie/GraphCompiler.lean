import Zkie.Kahn
import Zkie.Onnx

namespace Zkie.GraphCompiler

open Isa Onnx

/-- Where the value of a tensor comes from. -/
inductive Register where
  | graphInput (name : String)
  | weight (name : String)
  | virtual (index : ℕ)
  deriving DecidableEq, Repr

structure CompiledInstruction where
  instruction : Instruction
  inputs : List Register
  outputName : String
  deriving DecidableEq, Repr

structure CompiledProgram where
  instructions : List CompiledInstruction
  weights : List (String × WeightTensor)
  graphInputs : List String
  graphOutputs : List (String × Register)
  deriving DecidableEq, Repr

/-- The errors of the compiler. An index out of range would panic. -/
inductive GraphCompilerError where
  | opMapper (e : OpMapperError)
  | onnxParse (e : OnnxParseError)
  | unresolvedInput (nodeName opType tensorName : String)
  | unexpectedOutputCount (nodeName opType : String) (count : ℕ)
  | unresolvedGraphOutput (tensorName : String)
  | cyclicGraph
  | panicked
  deriving DecidableEq, Repr

section Order

/-- The node that produces a tensor. -/
def producerOf (graph : GraphProto) : NameMap ℕ :=
  NameMap.collect (graph.node.zipIdx.flatMap fun entry => entry.1.output.map fun name => (name, entry.2))

def countProducer (producers : NameMap ℕ) (idx : ℕ) (counted : List ℕ) (name : String) : List ℕ :=
  match producers name with
  | some p => if p ≠ idx ∧ p ∉ counted then counted ++ [p] else counted
  | none => counted

/-- The producers that a node depends on, each counted once, and not the node itself. -/
def countedProducers (producers : NameMap ℕ) (idx : ℕ) (node : NodeProto) : List ℕ :=
  node.input.foldl (countProducer producers idx) []

def predecessors (graph : GraphProto) (idx : ℕ) : List ℕ :=
  (graph.node[idx]?).elim [] (countedProducers (producerOf graph) idx)

/-- The nodes in the order in which the worklist releases them. The edges are pushed node by node, so the adjacency
lists are in the order of the nodes. -/
def releaseOrder (graph : GraphProto) : List ℕ :=
  Kahn.sort graph.node.length (Kahn.adjacencyOf graph.node.length (predecessors graph)) fun idx =>
    (predecessors graph idx).length

def topologicalOrder (graph : GraphProto) : Except GraphCompilerError (List ℕ) :=
  if (releaseOrder graph).length = graph.node.length then .ok (releaseOrder graph) else .error .cyclicGraph

end Order

section Compile

structure CompileState where
  registers : NameMap Register
  instructions : List CompiledInstruction

def resolve (registers : NameMap Register) (nodeName opType tensorName : String) : Except GraphCompilerError Register :=
  orElse (.unresolvedInput nodeName opType tensorName) (registers tensorName)

def push (state : CompileState) (instruction : Instruction) (inputs : List Register) (outputName : String) :
    CompileState where
  registers := state.registers.insert outputName (.virtual state.instructions.length)
  instructions := state.instructions ++ [⟨instruction, inputs, outputName⟩]

def compileOp (state : CompileState) (node : NodeProto) : MappedOp → Except GraphCompilerError CompileState
  | .instruction instruction input output => do
      let inputs ← input.mapM (resolve state.registers node.name node.opType)
      match output with
      | [outputName] => return push state instruction inputs outputName
      | other => .error (.unexpectedOutputCount node.name node.opType other.length)
  | .metadata op => do
      let source ← orElse (.unresolvedInput node.name op.opType "") op.input.head?
      let register ← resolve state.registers node.name op.opType source
      return { state with registers := op.output.foldl (fun m name => m.insert name register) state.registers }

def compileNode (floats : FloatOps) (graph : GraphProto) (shapes : Shapes) (fusions : List RmsNormFusion)
    (state : CompileState) (idx : ℕ) : Except GraphCompilerError CompileState :=
  match fusions.find? fun fusion => fusion.powNodeIdx = idx with
  | some fusion => do
      let x ← resolve state.registers "rms_norm_fusion" "RmsNorm" fusion.inputName
      let weight ← resolve state.registers "rms_norm_fusion" "RmsNorm" fusion.weightName
      return push state (.rmsNorm fusion.dim fusion.epsilonMilli) [x, weight] fusion.outputName
  | none =>
      if ∃ fusion ∈ fusions, idx ∈ fusion.consumedNodeIndices then return state
      else do
        let node ← orElse .panicked graph.node[idx]?
        let op ← (mapNode floats node shapes).mapError .opMapper
        compileOp state node op

def initialRegisters (graph : GraphProto) : NameMap Register :=
  NameMap.collect (graph.input.map (fun input => (input.name, .graphInput input.name)) ++
    graph.initializer.map fun initializer => (initializer.name, .weight initializer.name))

/-- The shapes of the named values, overlaid with those of the weights. -/
def allShapes (graph : GraphProto) (weights : List (String × WeightTensor)) : Shapes :=
  NameMap.collect (extractValueShapes graph ++ weights.map fun entry => (entry.1, entry.2.shape))

def graphOutput (registers : NameMap Register) (output : ValueInfoProto) :
    Except GraphCompilerError (String × Register) := do
  let register ← orElse (.unresolvedGraphOutput output.name) (registers output.name)
  return (output.name, register)

def compileGraph (floats : FloatOps) (graph : GraphProto) : Except GraphCompilerError CompiledProgram := do
  let weights ← (extractInitializers graph).mapError .onnxParse
  let fusions := detectRmsNormFusions floats graph (NameMap.collect weights)
  let order ← topologicalOrder graph
  let state ← order.foldlM (compileNode floats graph (allShapes graph weights) fusions) ⟨initialRegisters graph, []⟩
  let graphOutputs ← graph.output.mapM (graphOutput state.registers)
  return ⟨state.instructions, weights, graph.input.map (·.name), graphOutputs⟩

end Compile

section Meaning

variable {V : Type} (interpret : Instruction → List V → V)

/-- What the nodes mean: an instruction node computes its output from all its inputs, a metadata node passes its
first input on. -/
def evaluateNode (floats : FloatOps) (shapes : Shapes) (env : NameMap V) (node : NodeProto) : Option (NameMap V) :=
  match mapNode floats node shapes with
  | .ok (.instruction instruction input [outputName]) => do
      let args ← input.mapM env
      return env.insert outputName (interpret instruction args)
  | .ok (.metadata op) => do
      let source ← op.input.head?
      let value ← env source
      return op.output.foldl (fun m name => m.insert name value) env
  | _ => none

/-- The values of the graph's inputs and weights. -/
def initialValues (graph : GraphProto) (inputs weights : String → V) : NameMap V :=
  NameMap.collect (graph.input.map (fun input => (input.name, inputs input.name)) ++
    graph.initializer.map fun initializer => (initializer.name, weights initializer.name))

def evaluateNodes (floats : FloatOps) (graph : GraphProto) (shapes : Shapes) (inputs weights : String → V)
    (order : List ℕ) : Option (NameMap V) :=
  order.foldlM (fun env idx => do
    let node ← graph.node[idx]?
    evaluateNode interpret floats shapes env node) (initialValues graph inputs weights)

/-- The value of a register, once some instructions have been evaluated. -/
def readRegister (inputs weights : String → V) (values : List V) : Register → Option V
  | .graphInput name => some (inputs name)
  | .weight name => some (weights name)
  | .virtual index => values[index]?

def evaluateProgram (inputs weights : String → V) (instructions : List CompiledInstruction) : Option (List V) :=
  instructions.foldlM (fun values instr => do
    let args ← instr.inputs.mapM (readRegister inputs weights values)
    return values ++ [interpret instr.instruction args]) []

end Meaning

section Conditions

/-- Every name that a graph defines, as often as it does. -/
def definedNames (graph : GraphProto) : List String :=
  graph.input.map (·.name) ++ graph.initializer.map (·.name) ++ graph.node.flatMap (·.output)

/-- The inputs of a node that its meaning depends on. -/
def neededInputs (node : NodeProto) : List String :=
  if node.opType ∈ metadataTypes then node.input.take 1 else node.input

/-- Node `j` reads an output of node `i`. -/
def Reads (graph : GraphProto) (i j : ℕ) : Prop :=
  ∃ a b, graph.node[i]? = some a ∧ graph.node[j]? = some b ∧ ∃ name ∈ b.input, name ∈ a.output

/-- And it needs it, unless it is another node. -/
def DependsOn (graph : GraphProto) (i j : ℕ) : Prop :=
  ∃ a b, graph.node[i]? = some a ∧ graph.node[j]? = some b ∧ ∃ name ∈ b.input, name ∈ a.output ∧
    (i = j → name ∈ neededInputs b)

/-- What a graph needs, apart from the order of its nodes. -/
structure WellFormed (floats : FloatOps) (graph : GraphProto) (weights : List (String × WeightTensor)) : Prop where
  extracted : extractInitializers graph = .ok weights
  mapped : ∀ node ∈ graph.node, ∃ op, mapNode floats node (allShapes graph weights) = .ok op ∧
    (node.opType ∉ metadataTypes → node.output.length = 1)
  source : ∀ node ∈ graph.node, node.opType ∈ metadataTypes → node.input ≠ []
  inputs : ∀ node ∈ graph.node, ∀ name ∈ neededInputs node, name ∈ definedNames graph
  outputs : ∀ output ∈ graph.output, output.name ∈ definedNames graph

/-- A dependency order of all nodes. -/
def IsDependencyOrder (graph : GraphProto) (order : List ℕ) : Prop :=
  order.Perm (List.range graph.node.length) ∧ ∀ done i rest, order = done ++ i :: rest →
    ∀ p, p ≠ i → Reads graph p i → p ∈ done

end Conditions

end Zkie.GraphCompiler
