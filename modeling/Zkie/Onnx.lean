import Zkie.Isa

namespace Zkie.Onnx

open Isa

/-- Numbers of type `f32` and `f64` are only compared and rounded; both are done here on the bit patterns of `f32`. -/
structure FloatOps where
  /-- Whether a number is further than `1e-6` from two. -/
  farFromTwo : UInt32 → Bool
  /-- A thousand times the number, rounded and saturated to `u64`. -/
  milli : UInt32 → UInt64

structure AttributeProto where
  name : String
  i : ℤ
  f : UInt32
  ints : List ℤ
  deriving DecidableEq, Repr

structure NodeProto where
  name : String
  opType : String
  input : List String
  output : List String
  attributes : List AttributeProto
  deriving DecidableEq, Repr

structure TensorProto where
  name : String
  dims : List ℤ
  dataType : ℤ
  floatData : List UInt32
  rawData : List UInt8
  deriving DecidableEq, Repr

/-- A named value; its shape is there if it is a tensor with a shape, and a dimension of it if it is a number. -/
structure ValueInfoProto where
  name : String
  shape : Option (List (Option ℤ))
  deriving DecidableEq, Repr

structure GraphProto where
  node : List NodeProto
  initializer : List TensorProto
  input : List ValueInfoProto
  output : List ValueInfoProto
  valueInfo : List ValueInfoProto
  deriving DecidableEq, Repr

section Extraction

/-- The value that a hash map holds for a name. -/
abbrev NameMap (α : Type) : Type := String → Option α

def NameMap.insert {α : Type} (m : NameMap α) (name : String) (a : α) : NameMap α := Function.update m name (some a)

/-- The map that a list of entries is collected into: a later entry replaces an earlier one. -/
def NameMap.collect {α : Type} (entries : List (String × α)) : NameMap α :=
  entries.foldl (fun m e => m.insert e.1 e.2) fun _ => none

structure WeightTensor where
  shape : List UInt64
  data : List UInt32
  deriving DecidableEq, Repr

inductive OnnxParseError where
  | negativeDimension (tensorName : String) (dim : ℤ)
  | unsupportedDataType (tensorName : String) (dataType : ℤ)
  | rawDataLengthMismatch (tensorName : String) (len : ℕ)
  deriving DecidableEq, Repr

def onnxDataTypeFloat : ℤ := 1

/-- The little-endian numbers in a list of bytes. -/
def fromLeBytes : List UInt8 → List UInt32
  | a :: b :: c :: d :: rest =>
      (a.toUInt32 ||| b.toUInt32 <<< 8 ||| c.toUInt32 <<< 16 ||| d.toUInt32 <<< 24) :: fromLeBytes rest
  | _ => []

def extractTensor (tensor : TensorProto) : Except OnnxParseError WeightTensor := do
  let shape ← tensor.dims.mapM fun dim =>
    if 0 ≤ dim then .ok (UInt64.ofNat dim.toNat) else .error (.negativeDimension tensor.name dim)
  if tensor.dataType ≠ onnxDataTypeFloat then .error (.unsupportedDataType tensor.name tensor.dataType)
  else if tensor.floatData ≠ [] then return ⟨shape, tensor.floatData⟩
  else if tensor.rawData.length % 4 ≠ 0 then .error (.rawDataLengthMismatch tensor.name tensor.rawData.length)
  else return ⟨shape, fromLeBytes tensor.rawData⟩

def extractInitializers (graph : GraphProto) : Except OnnxParseError (List (String × WeightTensor)) :=
  graph.initializer.mapM fun tensor => do
    let weight ← extractTensor tensor
    return (tensor.name, weight)

def staticShapeOf (valueInfo : ValueInfoProto) : Option (List UInt64) := do
  let dims ← valueInfo.shape
  dims.mapM fun dim => do
    let v ← dim
    if 0 ≤ v then some (UInt64.ofNat v.toNat) else none

def extractValueShapes (graph : GraphProto) : List (String × List UInt64) :=
  (graph.input ++ graph.output ++ graph.valueInfo).filterMap fun valueInfo =>
    (staticShapeOf valueInfo).map fun shape => (valueInfo.name, shape)

end Extraction

section OpMapper

structure MetadataOp where
  opType : String
  input : List String
  output : List String
  deriving DecidableEq, Repr

inductive MappedOp where
  | instruction (instruction : Instruction) (input output : List String)
  | metadata (op : MetadataOp)
  deriving DecidableEq, Repr

/-- The errors of the op mapper; the product of an embedding's dimensions may also panic. -/
inductive OpMapperError where
  | unsupportedOp (opType : String)
  | missingShape (opType tensorName : String)
  | missingInput (opType : String) (index : ℕ)
  | negativeAxisNeedsShape (opType : String) (axis : ℤ)
  | axisOutOfRange (opType : String) (axis : ℤ) (rank : ℕ)
  | unsupportedRank (opType tensorName : String) (rank : ℕ)
  | kDimMismatch (opType : String) (kFromA kFromB : UInt64)
  | multipleReduceAxesUnsupported (axes : List ℤ)
  | panicked
  deriving DecidableEq, Repr

abbrev Shapes : Type := NameMap (List UInt64)

def getAttr (node : NodeProto) (name : String) : Option AttributeProto := node.attributes.find? fun a => a.name = name

def attrI64 (node : NodeProto) (name : String) (fallback : ℤ) : ℤ := ((getAttr node name).map (·.i)).getD fallback

def attrF32 (node : NodeProto) (name : String) (fallback : UInt32) : UInt32 :=
  ((getAttr node name).map (·.f)).getD fallback

def attrInts (node : NodeProto) (name : String) : Option (List ℤ) := (getAttr node name).map (·.ints)

def instructionOp (node : NodeProto) (instruction : Instruction) : MappedOp :=
  .instruction instruction node.input node.output

def metadataOp (node : NodeProto) : MappedOp := .metadata ⟨node.opType, node.input, node.output⟩

def orElse {ε α : Type} (e : ε) (x : Option α) : Except ε α := x.elim (.error e) .ok

theorem orElse_eq_ok {ε α : Type} {e : ε} {x : Option α} {a : α} : orElse e x = .ok a ↔ x = some a := by
  cases x <;> simp [orElse]

def requiredInputName (node : NodeProto) (index : ℕ) : Except OpMapperError String :=
  orElse (.missingInput node.opType index) node.input[index]?

def requiredShape (shapes : Shapes) (opType tensorName : String) : Except OpMapperError (List UInt64) :=
  orElse (.missingShape opType tensorName) (shapes tensorName)

def resolveAxis (opType : String) (axis : ℤ) (shape : Option (List UInt64)) : Except OpMapperError ℕ :=
  if 0 ≤ axis then .ok axis.toNat
  else do
    let shape ← orElse (.negativeAxisNeedsShape opType axis) shape
    if (shape.length : ℤ) + axis < 0 then .error (.axisOutOfRange opType axis shape.length)
    else return ((shape.length : ℤ) + axis).toNat

/-- The last two dimensions, after a transposition. -/
def lastTwoDims (shape : List UInt64) (transposed : Bool) : UInt64 × UInt64 :=
  let d0 := shape.getD (shape.length - 2) 0
  let d1 := shape.getD (shape.length - 1) 0
  if transposed then (d1, d0) else (d0, d1)

def mapMatmulOrGemm (node : NodeProto) (shapes : Shapes) (transA transB allowBatchDims : Bool) :
    Except OpMapperError MappedOp := do
  let aName ← requiredInputName node 0
  let bName ← requiredInputName node 1
  let aShape ← requiredShape shapes node.opType aName
  let bShape ← requiredShape shapes node.opType bName
  if aShape.length < 2 then .error (.unsupportedRank node.opType aName aShape.length)
  else if bShape.length < 2 then .error (.unsupportedRank node.opType bName bShape.length)
  else if allowBatchDims = false ∧ aShape.length ≠ 2 then .error (.unsupportedRank node.opType aName aShape.length)
  else if allowBatchDims = false ∧ bShape.length ≠ 2 then .error (.unsupportedRank node.opType bName bShape.length)
  else if (lastTwoDims aShape transA).2 ≠ (lastTwoDims bShape transB).1 then
    .error (.kDimMismatch node.opType (lastTwoDims aShape transA).2 (lastTwoDims bShape transB).1)
  else return instructionOp node (.dotGeneral (lastTwoDims aShape transA).1 (lastTwoDims bShape transB).2
    (lastTwoDims aShape transA).2 (aShape.take (aShape.length - 2)) transA transB)

/-- The dimension at the node's `axis` attribute, which is the last one by default. -/
def axisDim (node : NodeProto) (shapes : Shapes) : Except OpMapperError UInt64 := do
  let name ← requiredInputName node 0
  let shape ← requiredShape shapes node.opType name
  let axis ← resolveAxis node.opType (attrI64 node "axis" (-1)) (some shape)
  orElse (.axisOutOfRange node.opType (attrI64 node "axis" (-1)) shape.length) shape[axis]?

def mapSoftmax (node : NodeProto) (shapes : Shapes) : Except OpMapperError MappedOp := do
  let dim ← axisDim node shapes
  return instructionOp node (.softmax dim)

/-- The bit pattern of `1e-5`. -/
def defaultEpsilon : UInt32 := 0x3727C5AC

def mapLayerNorm (floats : FloatOps) (node : NodeProto) (shapes : Shapes) : Except OpMapperError MappedOp := do
  let dim ← axisDim node shapes
  return instructionOp node (.layerNorm dim (floats.milli (attrF32 node "epsilon" defaultEpsilon)))

def mapReduceMean (node : NodeProto) (shapes : Shapes) : Except OpMapperError MappedOp :=
  match (attrInts node "axes").getD [] with
  | [axis] => do
      let name ← requiredInputName node 0
      let axis ← resolveAxis node.opType axis (shapes name)
      return instructionOp node (.reduce .mean (UInt64.ofNat axis))
  | axes => .error (.multipleReduceAxesUnsupported axes)

def mapGather (node : NodeProto) (shapes : Shapes) : Except OpMapperError MappedOp := do
  let name ← requiredInputName node 0
  let shape ← requiredShape shapes node.opType name
  match shape with
  | tableSize :: dim :: dims =>
      if ((dim :: dims).map UInt64.toNat).prod < 2 ^ 64 then
        return instructionOp node (.embedLookup tableSize (UInt64.ofNat ((dim :: dims).map UInt64.toNat).prod))
      else .error .panicked
  | _ => .error (.unsupportedRank node.opType name shape.length)

def metadataTypes : List String := ["Reshape", "Transpose", "Squeeze", "Unsqueeze", "Concat"]

def mapNode (floats : FloatOps) (node : NodeProto) (shapes : Shapes) : Except OpMapperError MappedOp :=
  if node.opType = "MatMul" then mapMatmulOrGemm node shapes false false true
  else if node.opType = "Gemm" then
    mapMatmulOrGemm node shapes (attrI64 node "transA" 0 ≠ 0) (attrI64 node "transB" 0 ≠ 0) false
  else if node.opType = "Add" then .ok (instructionOp node (.eltwise .add))
  else if node.opType = "Mul" then .ok (instructionOp node (.eltwise .mul))
  else if node.opType = "Relu" then .ok (instructionOp node (.eltwise .relu))
  else if node.opType = "Softmax" then mapSoftmax node shapes
  else if node.opType = "Gelu" then .ok (instructionOp node .gelu)
  else if node.opType = "LayerNormalization" then mapLayerNorm floats node shapes
  else if node.opType = "ReduceMean" then mapReduceMean node shapes
  else if node.opType = "Gather" then mapGather node shapes
  else if node.opType ∈ metadataTypes then .ok (metadataOp node)
  else .error (.unsupportedOp node.opType)

end OpMapper

section Fusion

structure RmsNormFusion where
  powNodeIdx : ℕ
  consumedNodeIndices : List ℕ
  inputName : String
  weightName : String
  outputName : String
  dim : UInt64
  epsilonMilli : UInt64
  deriving DecidableEq, Repr

/-- The only node that reads a tensor, if it does so once. -/
def soleConsumer (nodes : List NodeProto) (tensorName : String) : Option ℕ :=
  match (nodes.zipIdx.flatMap fun entry => (entry.1.input.filter (· = tensorName)).map fun _ => entry.2) with
  | [idx] => some idx
  | _ => none

/-- The sole consumer of a tensor, if it is of the given type, with its only output. -/
def consumerOfType (nodes : List NodeProto) (tensorName opType : String) : Option (ℕ × NodeProto × String) := do
  let idx ← soleConsumer nodes tensorName
  let node ← nodes[idx]?
  if node.opType = opType then
    match node.output with
    | [out] => some (idx, node, out)
    | _ => none
  else none

/-- The other operand of a node with two. -/
def otherInput (node : NodeProto) (name : String) : Option String :=
  match node.input with
  | [a, b] => if a = name then some b else if b = name then some a else none
  | _ => none

/-- The single number of a weight. -/
def scalar (weights : NameMap WeightTensor) (name : String) : Option UInt32 := do
  let weight ← weights name
  match weight.data with
  | [value] => some value
  | _ => none

def tryMatchFromPow (floats : FloatOps) (nodes : List NodeProto) (weights : NameMap WeightTensor) (powIdx : ℕ)
    (powNode : NodeProto) : Option RmsNormFusion :=
  match powNode.input, powNode.output with
  | [xName, exponentName], [powOut] => do
      let exponent ← scalar weights exponentName
      if floats.farFromTwo exponent then none
      else
        let (reduceIdx, reduceNode, meanOut) ← consumerOfType nodes powOut "ReduceMean"
        if reduceNode.input.head? ≠ some powOut then none
        else
          let (addIdx, addNode, addOut) ← consumerOfType nodes meanOut "Add"
          let epsName ← otherInput addNode meanOut
          let epsilon ← scalar weights epsName
          let (sqrtIdx, sqrtNode, sqrtOut) ← consumerOfType nodes addOut "Sqrt"
          if sqrtNode.input.head? ≠ some addOut then none
          else
            let (recipIdx, recipNode, recipOut) ← consumerOfType nodes sqrtOut "Reciprocal"
            if recipNode.input.head? ≠ some sqrtOut then none
            else
              let (mul1Idx, mul1Node, mul1Out) ← consumerOfType nodes recipOut "Mul"
              if mul1Node.input.length = 2 ∧ xName ∈ mul1Node.input ∧ recipOut ∈ mul1Node.input then
                let (mul2Idx, mul2Node, mul2Out) ← consumerOfType nodes mul1Out "Mul"
                if mul2Node.input.length = 2 ∧ mul1Out ∈ mul2Node.input then
                  let weightName ← mul2Node.input.find? (· ≠ mul1Out)
                  let weight ← weights weightName
                  match weight.shape with
                  | [dim] => some ⟨powIdx, [reduceIdx, addIdx, sqrtIdx, recipIdx, mul1Idx, mul2Idx], xName, weightName,
                      mul2Out, dim, floats.milli epsilon⟩
                  | _ => none
                else none
              else none
  | _, _ => none

def detectRmsNormFusions (floats : FloatOps) (graph : GraphProto) (weights : NameMap WeightTensor) : List RmsNormFusion :=
  graph.node.zipIdx.filterMap fun entry =>
    if entry.1.opType = "Pow" then tryMatchFromPow floats graph.node weights entry.2 entry.1 else none

end Fusion

end Zkie.Onnx
