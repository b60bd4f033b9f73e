import Zkie.AssemblerHost
import Zkie.Binary32
import Zkie.GraphMeaning
import Zkie.Normalization

namespace Zkie.NormFusion

open Checked GraphCompiler Isa Onnx RealTensor RealTensor.Tensor Normalization
open Satisfaction (forall₂_exists_of_mem)

section Meaning

/-- A node with its only output. -/
structure Link where
  idx : ℕ
  node : NodeProto
  output : String

/-- The nodes that a fusion replaces. -/
structure Chain where
  pow : Link
  reduceMean : Link
  add : Link
  sqrt : Link
  reciprocal : Link
  scale : Link
  weigh : Link

namespace Chain

def links (chain : Chain) : List Link :=
  [chain.pow, chain.reduceMean, chain.add, chain.sqrt, chain.reciprocal, chain.scale, chain.weigh]

/-- The tensors that are only passed on from one node to the next. -/
def interior (chain : Chain) : List String := (chain.links.dropLast).map (·.output)

end Chain

def linkAt (nodes : List NodeProto) (idx : ℕ) : Option Link := do
  let node ← nodes[idx]?
  match node.output with
  | [output] => some ⟨idx, node, output⟩
  | _ => none

def chainOf (nodes : List NodeProto) (fusion : RmsNormFusion) : Option Chain :=
  match (fusion.powNodeIdx :: fusion.consumedNodeIndices).mapM (linkAt nodes) with
  | some [pow, reduceMean, add, sqrt, reciprocal, scale, weigh] =>
      some ⟨pow, reduceMean, add, sqrt, reciprocal, scale, weigh⟩
  | _ => none

/-- The axes that a node reduces, as numbers from zero on. The node has them in an attribute, or reads them from its
second input, if that has a name; without axes it reduces all of them, unless it is told not to. -/
def reducedAxes (ints : String → List ℤ) (node : NodeProto) (rank : ℕ) : Option (List ℕ) :=
  match (attrInts node "axes").getD (((node.input[1]?).filter (· ≠ "")).elim [] ints) with
  | [] => if attrI64 node "noop_with_empty_axes" 0 = 0 then some (List.range rank) else some []
  | axes => axes.mapM fun axis =>
      if -(rank : ℤ) ≤ axis ∧ axis < rank then some (if axis < 0 then axis + rank else axis).toNat else none

def keepsDims (node : NodeProto) : Bool := attrI64 node "keepdims" 1 ≠ 0

def tensorShape (weight : WeightTensor) : List ℕ := weight.shape.map UInt64.toNat

/-- The tensor of an initializer, if it has as many numbers as its shape says. -/
noncomputable def literal (weight : WeightTensor) : Option Tensor :=
  if weight.data.length = (tensorShape weight).prod then
    some ⟨tensorShape weight, fun p => (weight.data[p]?).bind fun bits => (Binary32.value bits).map fun q : ℚ => (q : ℝ)⟩
  else none

/-- A node with two operands, one of them the output of the node before. -/
def binary (f : ℝ → ℝ → Option ℝ) (link before : Link) (t other : Tensor) : Option Tensor :=
  match link.node.input.map fun name => if name = before.output then t else other with
  | [a, b] => zipWith f a b
  | _ => none

namespace Chain

variable (chain : Chain) (weights : NameMap WeightTensor) (ints : String → List ℤ)

/-- The initializer that holds the exponent. -/
def exponent : Option WeightTensor := chain.pow.node.input[1]? >>= weights

/-- The initializer that is added to the mean. -/
def epsilon : Option WeightTensor := chain.add.node.input.find? (· ≠ chain.reduceMean.output) >>= weights

/-- What the nodes compute from the tensors that are normalized and weighed with. -/
noncomputable def evaluate (x w : Tensor) : Option Tensor := do
  let exponent ← chain.exponent weights >>= literal
  let epsilon ← chain.epsilon weights >>= literal
  let squared ← zipWith power x exponent
  let axes ← reducedAxes ints chain.reduceMean.node squared.shape.length
  let shifted ← binary plus chain.add chain.reduceMean (squared.mean axes (keepsDims chain.reduceMean.node)) epsilon
  let scaled ← binary times chain.scale chain.reciprocal ((shifted.map squareRoot).map RealTensor.reciprocal) x
  binary times chain.weigh chain.scale scaled w

end Chain

end Meaning

section Matching

variable {floats : FloatOps} {nodes : List NodeProto} {weights : NameMap WeightTensor} {fusion : RmsNormFusion}
  {chain : Chain} {name opType : String} {idx j : ℕ} {node : NodeProto} {link : Link}

theorem soleConsumer_unique (h : soleConsumer nodes name = some idx) (hnode : nodes[j]? = some node)
    (hname : name ∈ node.input) : j = idx := by
  unfold soleConsumer at h
  have hmem : j ∈ nodes.zipIdx.flatMap fun entry => (entry.1.input.filter (· = name)).map fun _ => entry.2 := by
    refine List.mem_flatMap.mpr ⟨(node, j), List.mk_mem_zipIdx_iff_getElem?.mpr hnode, ?_⟩
    exact List.mem_map.mpr ⟨name, List.mem_filter.mpr ⟨hname, decide_eq_true rfl⟩, rfl⟩
  split at h
  · rename_i idx' hreads
    rw [hreads, List.mem_singleton] at hmem
    exact hmem.trans (Option.some.inj h)
  · cases h

theorem soleConsumer_reads (h : soleConsumer nodes name = some idx) (hnode : nodes[idx]? = some node) :
    name ∈ node.input := by
  unfold soleConsumer at h
  split at h
  · rename_i idx' hreads
    cases h
    have hmem : idx ∈ nodes.zipIdx.flatMap fun entry => (entry.1.input.filter (· = name)).map fun _ => entry.2 := by
      rw [hreads]
      exact List.mem_singleton_self idx
    obtain ⟨⟨node', idx'⟩, hentry, hread⟩ := List.mem_flatMap.mp hmem
    obtain ⟨name', hname', rfl⟩ := List.mem_map.mp hread
    obtain rfl : node = node' := Option.some.inj (hnode.symm.trans (List.mk_mem_zipIdx_iff_getElem?.mp hentry))
    obtain ⟨hin, heq⟩ := List.mem_filter.mp hname'
    exact of_decide_eq_true heq ▸ hin
  · cases h

/-- A node of the chain: it is the only one to read a tensor, does so once and has a single output. -/
structure Follows (nodes : List NodeProto) (name opType : String) (link : Link) : Prop where
  sole : soleConsumer nodes name = some link.idx
  node : nodes[link.idx]? = some link.node
  opType : link.node.opType = opType
  output : link.node.output = [link.output]

theorem Follows.reads (h : Follows nodes name opType link) : name ∈ link.node.input := soleConsumer_reads h.sole h.node

theorem consumerOfType_eq_some {output : String} (h : consumerOfType nodes name opType = some (idx, node, output)) :
    Follows nodes name opType ⟨idx, node, output⟩ := by
  simp only [consumerOfType, Option.bind_eq_bind, Option.bind_eq_some_iff] at h
  obtain ⟨idx', hsole, node', hnode, h⟩ := h
  split at h
  · rename_i htype
    split at h
    · rename_i output' houtput
      cases h
      exact ⟨hsole, hnode, htype, houtput⟩
    · cases h
  · cases h

theorem scalar_eq_some {bits : UInt32} (h : scalar weights name = some bits) :
    ∃ weight, weights name = some weight ∧ weight.data = [bits] := by
  simp only [scalar, Option.bind_eq_bind, Option.bind_eq_some_iff] at h
  obtain ⟨weight, hweight, h⟩ := h
  split at h
  · rename_i value hdata
    cases h
    exact ⟨weight, hweight, hdata⟩
  · cases h

theorem otherInput_eq_some {other : String} (h : otherInput node name = some other) :
    node.input = [name, other] ∨ node.input = [other, name] := by
  unfold otherInput at h
  split at h
  · rename_i a b hinput
    split_ifs at h with ha hb
    · rw [← Option.some.inj h, ← ha]
      exact .inl hinput
    · rw [← Option.some.inj h, ← hb]
      exact .inr hinput
  · cases h

/-- What the nodes of a chain are like. -/
structure Matched (floats : FloatOps) (nodes : List NodeProto) (weights : NameMap WeightTensor) (fusion : RmsNormFusion)
    (chain : Chain) : Prop where
  powNode : nodes[chain.pow.idx]? = some chain.pow.node
  powType : chain.pow.node.opType = "Pow"
  powOutput : chain.pow.node.output = [chain.pow.output]
  exponent : ∃ exponentName weight bits, chain.pow.node.input = [fusion.inputName, exponentName] ∧
    weights exponentName = some weight ∧ weight.data = [bits]
  reduceMean : Follows nodes chain.pow.output "ReduceMean" chain.reduceMean
  reduceMeanInput : chain.reduceMean.node.input.head? = some chain.pow.output
  add : Follows nodes chain.reduceMean.output "Add" chain.add
  epsilon : ∃ epsilonName weight bits, otherInput chain.add.node chain.reduceMean.output = some epsilonName ∧
    weights epsilonName = some weight ∧ weight.data = [bits] ∧ fusion.epsilonMilli = floats.milli bits
  sqrt : Follows nodes chain.add.output "Sqrt" chain.sqrt
  sqrtInput : chain.sqrt.node.input.head? = some chain.add.output
  reciprocal : Follows nodes chain.sqrt.output "Reciprocal" chain.reciprocal
  reciprocalInput : chain.reciprocal.node.input.head? = some chain.sqrt.output
  scale : Follows nodes chain.reciprocal.output "Mul" chain.scale
  scaleInput : chain.scale.node.input.length = 2 ∧ fusion.inputName ∈ chain.scale.node.input
  weigh : Follows nodes chain.scale.output "Mul" chain.weigh
  weighInput : chain.weigh.node.input.length = 2 ∧
    chain.weigh.node.input.find? (· ≠ chain.scale.output) = some fusion.weightName
  weight : ∃ weight, weights fusion.weightName = some weight ∧ weight.shape = [fusion.dim]
  powIdx : fusion.powNodeIdx = chain.pow.idx
  consumed : fusion.consumedNodeIndices = chain.links.tail.map (·.idx)
  outputName : fusion.outputName = chain.weigh.output

theorem tryMatchFromPow_matched (hnode : nodes[idx]? = some node) (htype : node.opType = "Pow")
    (h : tryMatchFromPow floats nodes weights idx node = some fusion) :
    fusion.powNodeIdx = idx ∧ ∃ chain, Matched floats nodes weights fusion chain := by
  unfold tryMatchFromPow at h
  split at h
  · rename_i xName exponentName powOut hinput houtput
    obtain ⟨exponent, hexponent, h⟩ := Option.bind_eq_some_iff.mp h
    obtain ⟨eweight, heweight, hedata⟩ := scalar_eq_some hexponent
    obtain ⟨hfar, h⟩ := Option.ite_none_left_eq_some.mp h
    obtain ⟨⟨reduceIdx, reduceNode, meanOut⟩, hreduce, h⟩ := Option.bind_eq_some_iff.mp h
    obtain ⟨hreduceHead, h⟩ := Option.ite_none_left_eq_some.mp h
    obtain ⟨⟨addIdx, addNode, addOut⟩, hadd, h⟩ := Option.bind_eq_some_iff.mp h
    obtain ⟨epsName, heps, h⟩ := Option.bind_eq_some_iff.mp h
    obtain ⟨epsilon, hepsilon, h⟩ := Option.bind_eq_some_iff.mp h
    obtain ⟨epsWeight, hepsWeight, hepsData⟩ := scalar_eq_some hepsilon
    obtain ⟨⟨sqrtIdx, sqrtNode, sqrtOut⟩, hsqrt, h⟩ := Option.bind_eq_some_iff.mp h
    obtain ⟨hsqrtHead, h⟩ := Option.ite_none_left_eq_some.mp h
    obtain ⟨⟨recipIdx, recipNode, recipOut⟩, hrecip, h⟩ := Option.bind_eq_some_iff.mp h
    obtain ⟨hrecipHead, h⟩ := Option.ite_none_left_eq_some.mp h
    obtain ⟨⟨mul1Idx, mul1Node, mul1Out⟩, hmul1, h⟩ := Option.bind_eq_some_iff.mp h
    obtain ⟨hmul1Input, h⟩ := Option.ite_none_right_eq_some.mp h
    obtain ⟨⟨mul2Idx, mul2Node, mul2Out⟩, hmul2, h⟩ := Option.bind_eq_some_iff.mp h
    obtain ⟨hmul2Input, h⟩ := Option.ite_none_right_eq_some.mp h
    obtain ⟨weightName, hweightName, h⟩ := Option.bind_eq_some_iff.mp h
    obtain ⟨weight, hweight, h⟩ := Option.bind_eq_some_iff.mp h
    split at h
    · rename_i dim hshape
      cases h
      refine ⟨rfl, ⟨⟨idx, node, powOut⟩, ⟨reduceIdx, reduceNode, meanOut⟩, ⟨addIdx, addNode, addOut⟩,
        ⟨sqrtIdx, sqrtNode, sqrtOut⟩, ⟨recipIdx, recipNode, recipOut⟩, ⟨mul1Idx, mul1Node, mul1Out⟩,
        ⟨mul2Idx, mul2Node, mul2Out⟩⟩, ?_⟩
      exact {
        powNode := hnode
        powType := htype
        powOutput := houtput
        exponent := ⟨exponentName, eweight, exponent, hinput, heweight, hedata⟩
        reduceMean := consumerOfType_eq_some hreduce
        reduceMeanInput := not_not.mp hreduceHead
        add := consumerOfType_eq_some hadd
        epsilon := ⟨epsName, epsWeight, epsilon, heps, hepsWeight, hepsData, rfl⟩
        sqrt := consumerOfType_eq_some hsqrt
        sqrtInput := not_not.mp hsqrtHead
        reciprocal := consumerOfType_eq_some hrecip
        reciprocalInput := not_not.mp hrecipHead
        scale := consumerOfType_eq_some hmul1
        scaleInput := ⟨hmul1Input.1, hmul1Input.2.1⟩
        weigh := consumerOfType_eq_some hmul2
        weighInput := ⟨hmul2Input.1, hweightName⟩
        weight := ⟨weight, hweight, hshape⟩
        powIdx := rfl
        consumed := rfl
        outputName := rfl }
    · cases h
  · cases h

theorem mem_detect {graph : GraphProto} (h : fusion ∈ detectRmsNormFusions floats graph weights) :
    ∃ node, graph.node[fusion.powNodeIdx]? = some node ∧
      tryMatchFromPow floats graph.node weights fusion.powNodeIdx node = some fusion ∧
      ∃ chain, Matched floats graph.node weights fusion chain := by
  obtain ⟨⟨node, idx⟩, hentry, h⟩ := List.mem_filterMap.mp h
  split_ifs at h with htype
  have hnode := List.mk_mem_zipIdx_iff_getElem?.mp hentry
  obtain ⟨hidx, hmatched⟩ := tryMatchFromPow_matched hnode htype h
  exact ⟨node, hidx ▸ hnode, hidx ▸ h, hmatched⟩

theorem matched_of_mem {graph : GraphProto} (h : fusion ∈ detectRmsNormFusions floats graph weights) :
    ∃ chain, Matched floats graph.node weights fusion chain := by
  obtain ⟨node, -, -, hmatched⟩ := mem_detect h
  exact hmatched

theorem fusion_unique {graph : GraphProto} {fusion' : RmsNormFusion} (h : fusion ∈ detectRmsNormFusions floats graph weights)
    (h' : fusion' ∈ detectRmsNormFusions floats graph weights) (heq : fusion.powNodeIdx = fusion'.powNodeIdx) :
    fusion = fusion' := by
  obtain ⟨node, hnode, hmatch, -⟩ := mem_detect h
  obtain ⟨node', hnode', hmatch', -⟩ := mem_detect h'
  rw [heq] at hnode hmatch
  obtain rfl : node = node' := Option.some.inj (hnode.symm.trans hnode')
  exact Option.some.inj (hmatch.symm.trans hmatch')

end Matching

section Structure

variable {floats : FloatOps} {graph : GraphProto} {weights : List (String × WeightTensor)} {nodes : List NodeProto}
  {known : NameMap WeightTensor} {fusion fusion' : RmsNormFusion} {chain chain' : Chain} {name opType opType' : String}
  {i j : ℕ} {a b : NodeProto} {link link' : Link}

theorem output_unique (hnames : (definedNames graph).Nodup) (ha : graph.node[i]? = some a) (hb : graph.node[j]? = some b)
    (hina : name ∈ a.output) (hinb : name ∈ b.output) : i = j := by
  have hi := (producerOf_eq_some hnames).mpr ⟨a, ha, hina⟩
  have hj := (producerOf_eq_some hnames).mpr ⟨b, hb, hinb⟩
  exact Option.some.inj (hi.symm.trans hj)

theorem initializer_of_weight {weight : WeightTensor} (hextract : extractInitializers graph = .ok weights)
    (h : NameMap.collect weights name = some weight) : name ∈ graph.initializer.map (·.name) := by
  obtain ⟨tensor, htensor, hentry⟩ := forall₂_exists_of_mem (mapM_eq_ok.mp hextract).flip (mem_of_collect h)
  obtain ⟨weight', -, heq⟩ := bind_eq_ok.mp hentry
  cases heq
  exact List.mem_map_of_mem htensor

theorem weight_notMem_output {weight : WeightTensor} (hnames : (definedNames graph).Nodup)
    (hextract : extractInitializers graph = .ok weights) (h : NameMap.collect weights name = some weight)
    (ha : graph.node[i]? = some a) : name ∉ a.output := by
  intro hout
  have hinitial : name ∈ graph.input.map (·.name) ++ graph.initializer.map (·.name) :=
    List.mem_append_right _ (initializer_of_weight hextract h)
  exact List.disjoint_of_nodup_append hnames hinitial (List.mem_flatMap.mpr ⟨a, List.mem_of_getElem? ha, hout⟩)

/-- A link is a node of its type. -/
structure At (nodes : List NodeProto) (opType : String) (link : Link) : Prop where
  node : nodes[link.idx]? = some link.node
  opType : link.node.opType = opType
  output : link.node.output = [link.output]

theorem Follows.at (h : Follows nodes name opType link) : At nodes opType link := ⟨h.node, h.opType, h.output⟩

theorem Matched.at_pow (h : Matched floats nodes known fusion chain) : At nodes "Pow" chain.pow :=
  ⟨h.powNode, h.powType, h.powOutput⟩

theorem At.mem_output (h : At nodes opType link) : link.output ∈ link.node.output := by
  rw [h.output]
  exact List.mem_singleton_self _

theorem At.node_eq (h : At nodes opType link) (h' : At nodes opType' link') (heq : link.idx = link'.idx) :
    link.node = link'.node := Option.some.inj (h.node.symm.trans (heq ▸ h'.node))

theorem At.idx_ne (h : At nodes opType link) (h' : At nodes opType' link') (hne : opType ≠ opType') :
    link.idx ≠ link'.idx := fun heq => hne (h.opType.symm.trans (h.node_eq h' heq ▸ h'.opType))

theorem At.idx_eq (hnames : (definedNames graph).Nodup) (h : At graph.node opType link) (h' : At graph.node opType' link')
    (heq : link.output = link'.output) : link.idx = link'.idx :=
  output_unique hnames h.node h'.node h.mem_output (heq ▸ h'.mem_output)

theorem two_operands {l : List String} {c d : String} (hlength : l.length = 2) (hc : c ∈ l) (hd : d ∈ l) (hne : c ≠ d) :
    l = [c, d] ∨ l = [d, c] := by
  obtain ⟨u, v, rfl⟩ := List.length_eq_two.mp hlength
  simp only [List.mem_cons, List.not_mem_nil, or_false] at hc hd
  rcases hc with rfl | rfl
  · obtain rfl : d = v := hd.resolve_left (Ne.symm hne)
    exact .inl rfl
  · obtain rfl : d = u := hd.resolve_right (Ne.symm hne)
    exact .inr rfl

theorem Matched.reads_pow (h : Matched floats nodes known fusion chain) : fusion.inputName ∈ chain.pow.node.input := by
  obtain ⟨exponentName, weight, bits, hinput, -⟩ := h.exponent
  rw [hinput]
  exact List.mem_cons_self

/-- The input is not passed on inside any chain. -/
theorem Matched.input_ne (h : Matched floats nodes known fusion chain) (h' : Matched floats nodes known fusion' chain') :
    fusion.inputName ≠ chain'.reciprocal.output := by
  intro heq
  have hpow : chain.pow.idx = chain'.scale.idx := soleConsumer_unique h'.scale.sole h.powNode (heq ▸ h.reads_pow)
  exact h.at_pow.idx_ne h'.scale.at (by decide) hpow

theorem Matched.scale_operands (h : Matched floats nodes known fusion chain) :
    chain.scale.node.input = [fusion.inputName, chain.reciprocal.output] ∨
      chain.scale.node.input = [chain.reciprocal.output, fusion.inputName] :=
  two_operands h.scaleInput.1 h.scaleInput.2 h.scale.reads (h.input_ne h)

theorem Matched.weight_ne (h : Matched floats nodes known fusion chain) : fusion.weightName ≠ chain.scale.output := by
  have hfind := List.find?_some h.weighInput.2
  exact of_decide_eq_true hfind

theorem Matched.weigh_operands (h : Matched floats nodes known fusion chain) :
    chain.weigh.node.input = [fusion.weightName, chain.scale.output] ∨
      chain.weigh.node.input = [chain.scale.output, fusion.weightName] :=
  two_operands h.weighInput.1 (List.mem_of_find?_eq_some h.weighInput.2) h.weigh.reads h.weight_ne

theorem mem_pair {l : List String} {c d e : String} (hl : l = [c, d] ∨ l = [d, c]) (he : e ∈ l) : e = c ∨ e = d := by
  rcases hl with rfl | rfl
  · simpa using he
  · simpa [or_comm] using he

section Disjoint

variable (hnames : (definedNames graph).Nodup) (hextract : extractInitializers graph = .ok weights)
  (h : Matched floats graph.node (NameMap.collect weights) fusion chain)
  (h' : Matched floats graph.node (NameMap.collect weights) fusion' chain')
include hnames h h'

theorem pow_of_reduceMean (heq : chain.reduceMean.idx = chain'.reduceMean.idx) : chain.pow.idx = chain'.pow.idx := by
  apply h.at_pow.idx_eq hnames h'.at_pow
  have hhead := h'.reduceMeanInput
  rw [← h.reduceMean.at.node_eq h'.reduceMean.at heq, h.reduceMeanInput] at hhead
  exact Option.some.inj hhead

theorem add_of_sqrt (heq : chain.sqrt.idx = chain'.sqrt.idx) : chain.add.idx = chain'.add.idx := by
  apply h.add.at.idx_eq hnames h'.add.at
  have hhead := h'.sqrtInput
  rw [← h.sqrt.at.node_eq h'.sqrt.at heq, h.sqrtInput] at hhead
  exact Option.some.inj hhead

theorem sqrt_of_reciprocal (heq : chain.reciprocal.idx = chain'.reciprocal.idx) : chain.sqrt.idx = chain'.sqrt.idx := by
  apply h.sqrt.at.idx_eq hnames h'.sqrt.at
  have hhead := h'.reciprocalInput
  rw [← h.reciprocal.at.node_eq h'.reciprocal.at heq, h.reciprocalInput] at hhead
  exact Option.some.inj hhead

theorem reciprocal_of_scale (heq : chain.scale.idx = chain'.scale.idx) : chain.reciprocal.idx = chain'.reciprocal.idx := by
  apply Eq.symm
  apply h'.reciprocal.at.idx_eq hnames h.reciprocal.at
  have hreads := h'.scale.reads
  rw [← h.scale.at.node_eq h'.scale.at heq] at hreads
  exact (mem_pair h.scale_operands hreads).resolve_left fun hinput => h.input_ne h' hinput.symm

include hextract

theorem reduceMean_of_add (heq : chain.add.idx = chain'.add.idx) : chain.reduceMean.idx = chain'.reduceMean.idx := by
  apply Eq.symm
  apply h'.reduceMean.at.idx_eq hnames h.reduceMean.at
  obtain ⟨epsilonName, weight, bits, hother, hweight, -⟩ := h.epsilon
  have hreads := h'.add.reads
  rw [← h.add.at.node_eq h'.add.at heq] at hreads
  refine (mem_pair (otherInput_eq_some hother) hreads).resolve_right fun hepsilon => ?_
  exact weight_notMem_output hnames hextract (hepsilon ▸ hweight) h'.reduceMean.node h'.reduceMean.at.mem_output

theorem scale_of_weigh (heq : chain.weigh.idx = chain'.weigh.idx) : chain.scale.idx = chain'.scale.idx := by
  apply Eq.symm
  apply h'.scale.at.idx_eq hnames h.scale.at
  obtain ⟨weight, hweight, -⟩ := h.weight
  have hreads := h'.weigh.reads
  rw [← h.weigh.at.node_eq h'.weigh.at heq] at hreads
  refine (mem_pair h.weigh_operands hreads).resolve_left fun hname => ?_
  exact weight_notMem_output hnames hextract (hname ▸ hweight) h'.scale.node h'.scale.at.mem_output

theorem scale_ne_weigh : chain.scale.idx ≠ chain'.weigh.idx := by
  intro heq
  obtain ⟨weight, hweight, -⟩ := h'.weight
  have hreads := h.scale.reads
  rw [h.scale.at.node_eq h'.weigh.at heq] at hreads
  rcases mem_pair h'.weigh_operands hreads with hname | hname
  · exact weight_notMem_output hnames hextract (hname ▸ hweight) h.reciprocal.node h.reciprocal.at.mem_output
  · exact h.reciprocal.at.idx_ne h'.scale.at (by decide) (h.reciprocal.at.idx_eq hnames h'.scale.at hname)

/-- Chains that start at different nodes share no node: a shared one would make the nodes before it shared too. -/
theorem links_disjoint (hne : chain.pow.idx ≠ chain'.pow.idx) :
    List.Disjoint (chain.links.map (·.idx)) (chain'.links.map (·.idx)) := by
  have hreduceMean : chain.reduceMean.idx ≠ chain'.reduceMean.idx := fun heq => hne (pow_of_reduceMean hnames h h' heq)
  have hadd : chain.add.idx ≠ chain'.add.idx := fun heq => hreduceMean (reduceMean_of_add hnames hextract h h' heq)
  have hsqrt : chain.sqrt.idx ≠ chain'.sqrt.idx := fun heq => hadd (add_of_sqrt hnames h h' heq)
  have hreciprocal : chain.reciprocal.idx ≠ chain'.reciprocal.idx := fun heq => hsqrt (sqrt_of_reciprocal hnames h h' heq)
  have hscale : chain.scale.idx ≠ chain'.scale.idx := fun heq => hreciprocal (reciprocal_of_scale hnames h h' heq)
  have hweigh : chain.weigh.idx ≠ chain'.weigh.idx := fun heq => hscale (scale_of_weigh hnames hextract h h' heq)
  have hcross : chain.scale.idx ≠ chain'.weigh.idx := scale_ne_weigh hnames hextract h h'
  have hcross' : chain'.scale.idx ≠ chain.weigh.idx := scale_ne_weigh hnames hextract h' h
  intro idx hidx hidx'
  obtain ⟨link, hlink, rfl⟩ := List.mem_map.mp hidx
  obtain ⟨link', hlink', heq⟩ := List.mem_map.mp hidx'
  have hpow := h.at_pow
  have hpow' := h'.at_pow
  have hreduceMeanAt := h.reduceMean.at
  have hreduceMeanAt' := h'.reduceMean.at
  have haddAt := h.add.at
  have haddAt' := h'.add.at
  have hsqrtAt := h.sqrt.at
  have hsqrtAt' := h'.sqrt.at
  have hreciprocalAt := h.reciprocal.at
  have hreciprocalAt' := h'.reciprocal.at
  have hscaleAt := h.scale.at
  have hscaleAt' := h'.scale.at
  have hweighAt := h.weigh.at
  have hweighAt' := h'.weigh.at
  simp only [Chain.links, List.mem_cons, List.not_mem_nil, or_false] at hlink hlink'
  rcases hlink with rfl | rfl | rfl | rfl | rfl | rfl | rfl <;>
    rcases hlink' with rfl | rfl | rfl | rfl | rfl | rfl | rfl <;>
    first
    | contradiction
    | exact absurd heq.symm (by assumption)
    | exact absurd heq (At.idx_ne (by assumption) (by assumption) (by decide))

end Disjoint

end Structure

section Compilation

variable {floats : FloatOps} {graph : GraphProto} {shapes : Shapes} {fusions : List RmsNormFusion}
  {state state' : CompileState} {idx : ℕ} {order : List ℕ} {name : String}

/-- The node is left out, for a fusion. -/
def Replaced (fusions : List RmsNormFusion) (idx : ℕ) : Prop :=
  ∃ fusion ∈ fusions, idx ∈ fusion.powNodeIdx :: fusion.consumedNodeIndices

/-- A name that gets a register while the nodes are compiled. -/
def Bound (graph : GraphProto) (fusions : List RmsNormFusion) (name : String) : Prop :=
  (∃ fusion ∈ fusions, name = fusion.outputName) ∨
    ∃ i node, graph.node[i]? = some node ∧ ¬Replaced fusions i ∧ name ∈ node.output

/-- The instruction of a fusion. -/
def Emitted (fusion : RmsNormFusion) (instructions : List CompiledInstruction) : Prop :=
  ∃ x w, ⟨.rmsNorm fusion.dim fusion.epsilonMilli, [x, w], fusion.outputName⟩ ∈ instructions

/-- What compiling some nodes adds. -/
structure Progress (graph : GraphProto) (fusions : List RmsNormFusion) (order : List ℕ) (state state' : CompileState) :
    Prop where
  instructions : ∀ instr ∈ state.instructions, instr ∈ state'.instructions
  registers : ∀ name, (state'.registers name).isSome → (state.registers name).isSome ∨ Bound graph fusions name
  emitted : ∀ fusion ∈ fusions, fusion.powNodeIdx ∈ order →
    (∀ fusion' ∈ fusions, fusion'.powNodeIdx = fusion.powNodeIdx → fusion' = fusion) → Emitted fusion state'.instructions

theorem compileNode_progress (h : compileNode floats graph shapes fusions state idx = .ok state') :
    Progress graph fusions [idx] state state' := by
  unfold compileNode at h
  cases hfind : fusions.find? fun fusion => fusion.powNodeIdx = idx with
  | some fusion =>
      have hmem := List.mem_of_find?_eq_some hfind
      have hfound := List.find?_some hfind
      have hidx : fusion.powNodeIdx = idx := of_decide_eq_true hfound
      simp only [hfind, bind_eq_ok] at h
      obtain ⟨x, -, w, -, h⟩ := h
      cases h
      refine ⟨fun instr hinstr => List.mem_append_left _ hinstr, fun name hname => ?_, fun fusion' hmem' hpow hunique => ?_⟩
      · simp only [push, insert_apply] at hname
        by_cases hout : name = fusion.outputName
        · exact .inr (.inl ⟨fusion, hmem, hout⟩)
        · rw [if_neg hout] at hname
          exact .inl hname
      · obtain rfl : fusion = fusion' := hunique fusion hmem (hidx.trans (List.mem_singleton.mp hpow).symm)
        exact ⟨x, w, List.mem_append_right _ (List.mem_singleton_self _)⟩
  | none =>
      have hnone : ∀ fusion ∈ fusions, fusion.powNodeIdx ≠ idx := fun fusion hmem hidx =>
        List.find?_eq_none.mp hfind fusion hmem (decide_eq_true hidx)
      have hnever : ∀ fusion ∈ fusions, fusion.powNodeIdx ∉ [idx] := fun fusion hmem hidx =>
        hnone fusion hmem (List.mem_singleton.mp hidx)
      simp only [hfind] at h
      split at h
      · cases h
        exact ⟨fun _ => id, fun _ => .inl, fun fusion hmem hidx => absurd hidx (hnever fusion hmem)⟩
      · rename_i hconsumed
        obtain ⟨node, hnode, h⟩ := bind_eq_ok.mp h
        obtain ⟨op, hop, h⟩ := bind_eq_ok.mp h
        have hreplaced : ¬Replaced fusions idx := by
          rintro ⟨fusion, hmem, hidx⟩
          rcases List.mem_cons.mp hidx with hpow | hin
          · exact hnone fusion hmem hpow.symm
          · exact hconsumed ⟨fusion, hmem, hin⟩
        obtain ⟨-, instruction, inputs, outputName, -, hout, -, rfl⟩ | ⟨-, source, register, -, -, -, rfl⟩ :=
          compileOp_ok (FixedPoint.mapError_eq_ok.mp hop) h
        · refine ⟨fun instr hinstr => List.mem_append_left _ hinstr, fun name hname => ?_,
            fun fusion hmem hidx => absurd hidx (hnever fusion hmem)⟩
          simp only [push, insert_apply] at hname
          by_cases heq : name = outputName
          · exact .inr (.inr ⟨idx, node, orElse_eq_ok.mp hnode, hreplaced, by rw [hout, heq]; exact List.mem_singleton_self _⟩)
          · rw [if_neg heq] at hname
            exact .inl hname
        · refine ⟨fun _ => id, fun name hname => ?_, fun fusion hmem hidx => absurd hidx (hnever fusion hmem)⟩
          simp only [foldl_insert] at hname
          by_cases hmem : name ∈ node.output
          · exact .inr (.inr ⟨idx, node, orElse_eq_ok.mp hnode, hreplaced, hmem⟩)
          · rw [if_neg hmem] at hname
            exact .inl hname

theorem run_progress (h : order.foldlM (compileNode floats graph shapes fusions) state = .ok state') :
    Progress graph fusions order state state' := by
  induction order generalizing state with
  | nil =>
      cases h
      exact ⟨fun _ => id, fun _ => .inl, fun _ _ hidx => absurd hidx List.not_mem_nil⟩
  | cons idx order ih =>
      rw [List.foldlM_cons] at h
      obtain ⟨next, hnext, h⟩ := bind_eq_ok.mp h
      have hstep := compileNode_progress hnext
      have hrest := ih h
      refine ⟨fun instr hinstr => hrest.instructions _ (hstep.instructions _ hinstr), fun name hname => ?_, ?_⟩
      · rcases hrest.registers name hname with hname | hbound
        · exact hstep.registers name hname
        · exact .inr hbound
      · intro fusion hmem hidx hunique
        rcases List.mem_cons.mp hidx with hhead | htail
        · obtain ⟨x, w, hinstr⟩ := hstep.emitted fusion hmem (hhead ▸ List.mem_singleton_self _) hunique
          exact ⟨x, w, hrest.instructions _ hinstr⟩
        · exact hrest.emitted fusion hmem htail hunique

theorem compileGraph_progress {program : CompiledProgram} (h : compileGraph floats graph = .ok program) :
    extractInitializers graph = .ok program.weights ∧ ∃ order state, topologicalOrder graph = .ok order ∧
      Progress graph (detectRmsNormFusions floats graph (NameMap.collect program.weights)) order ⟨initialRegisters graph, []⟩
        state ∧ program.instructions = state.instructions ∧
      ∀ output ∈ graph.output, (state.registers output.name).isSome := by
  unfold compileGraph at h
  simp only [bind_eq_ok, FixedPoint.mapError_eq_ok] at h
  obtain ⟨weights, hweights, order, horder, state, hrun, outputs, houtputs, h⟩ := h
  cases h
  refine ⟨hweights, order, state, horder, run_progress hrun, rfl, fun output houtput => ?_⟩
  obtain ⟨entry, -, hentry⟩ := forall₂_exists_of_mem (mapM_eq_ok.mp houtputs) houtput
  obtain ⟨register, hregister, -⟩ := bind_eq_ok.mp hentry
  rw [orElse_eq_ok.mp hregister]
  rfl

end Compilation

section Preservation

variable {floats : FloatOps} {graph : GraphProto} {weights : List (String × WeightTensor)} {fusion : RmsNormFusion}
  {chain : Chain} {ints : String → List ℤ} {s : List ℕ}

theorem linkAt_eq {opType : String} {link : Link} (h : At graph.node opType link) : linkAt graph.node link.idx = some link := by
  rw [linkAt, h.node, Option.bind_eq_bind, Option.bind_some, h.output]

theorem Matched.chainOf {known : NameMap WeightTensor} (h : Matched floats graph.node known fusion chain) :
    NormFusion.chainOf graph.node fusion = some chain := by
  have hlinks : (fusion.powNodeIdx :: fusion.consumedNodeIndices).mapM (linkAt graph.node) = some chain.links := by
    rw [h.powIdx, h.consumed]
    apply mapM_eq_some.mpr
    simp only [Chain.links, List.tail_cons, List.map_cons, List.map_nil, List.forall₂_cons, List.forall₂_nil_left_iff,
      linkAt_eq h.at_pow, linkAt_eq h.reduceMean.at, linkAt_eq h.add.at, linkAt_eq h.sqrt.at, linkAt_eq h.reciprocal.at,
      linkAt_eq h.scale.at, linkAt_eq h.weigh.at, and_self]
  rw [NormFusion.chainOf, hlinks]
  rfl

theorem Matched.replaced {known : NameMap WeightTensor} (h : Matched floats graph.node known fusion chain) :
    fusion.powNodeIdx :: fusion.consumedNodeIndices = chain.links.map (·.idx) := by
  rw [h.powIdx, h.consumed]
  rfl

theorem binary_eq {f : ℝ → ℝ → Option ℝ} (hf : ∀ u v, f u v = f v u) {link before : Link} {other : String} {t u : Tensor}
    (hinput : link.node.input = [other, before.output] ∨ link.node.input = [before.output, other])
    (hne : other ≠ before.output) : binary f link before t u = zipWith f t u := by
  rcases hinput with hinput | hinput
  · simp only [binary, hinput, List.map_cons, List.map_nil, if_neg hne, if_true]
    exact zipWith_comm hf u t
  · simp only [binary, hinput, List.map_cons, List.map_nil, if_neg hne, if_true]

theorem Matched.epsilon_operands (hnames : (definedNames graph).Nodup) (hextract : extractInitializers graph = .ok weights)
    (h : Matched floats graph.node (NameMap.collect weights) fusion chain) : ∃ epsilonName weight bits,
      (chain.add.node.input = [epsilonName, chain.reduceMean.output] ∨
        chain.add.node.input = [chain.reduceMean.output, epsilonName]) ∧ epsilonName ≠ chain.reduceMean.output ∧
      chain.epsilon (NameMap.collect weights) = some weight ∧ weight.data = [bits] ∧
      fusion.epsilonMilli = floats.milli bits := by
  obtain ⟨epsilonName, weight, bits, hother, hweight, hdata, hmilli⟩ := h.epsilon
  have hne : epsilonName ≠ chain.reduceMean.output := by
    rintro rfl
    exact weight_notMem_output hnames hextract hweight h.reduceMean.node h.reduceMean.at.mem_output
  refine ⟨epsilonName, weight, bits, (otherInput_eq_some hother).symm, hne, ?_, hdata, hmilli⟩
  rw [← hweight, Chain.epsilon]
  rcases otherInput_eq_some hother with hinput | hinput <;> simp [hinput, hne]

/-- The nodes compute a normalization. -/
theorem Matched.evaluate_eq_some (hnames : (definedNames graph).Nodup) (hextract : extractInitializers graph = .ok weights)
    (h : Matched floats graph.node (NameMap.collect weights) fusion chain) {x w out : Tensor} :
    chain.evaluate (NameMap.collect weights) ints x w = some out ↔ ∃ exponent epsilon,
      chain.exponent (NameMap.collect weights) >>= literal = some exponent ∧
      chain.epsilon (NameMap.collect weights) >>= literal = some epsilon ∧
      normalize (reducedAxes ints chain.reduceMean.node) (keepsDims chain.reduceMean.node) exponent epsilon x w = some out := by
  obtain ⟨epsilonName, weight, bits, hadd, hne, -⟩ := h.epsilon_operands hnames hextract
  have hplus : ∀ u v, plus u v = plus v u := fun u v => congrArg some (add_comm u v)
  have htimes : ∀ u v, times u v = times v u := fun u v => congrArg some (mul_comm u v)
  have hscale : ∀ t, binary times chain.scale chain.reciprocal t x = zipWith times x t := fun t =>
    (binary_eq htimes h.scale_operands (h.input_ne h)).trans (zipWith_comm htimes t x)
  have hweigh : ∀ t, binary times chain.weigh chain.scale t w = zipWith times t w := fun t =>
    binary_eq htimes h.weigh_operands h.weight_ne
  have hshift : ∀ t u, binary plus chain.add chain.reduceMean t u = zipWith plus t u := fun t u => binary_eq hplus hadd hne
  simp only [Chain.evaluate, hscale, hweigh, hshift]
  constructor
  · intro hvalue
    obtain ⟨exponent, hexponent, hvalue⟩ := Option.bind_eq_some_iff.mp hvalue
    obtain ⟨epsilon, hepsilon, hvalue⟩ := Option.bind_eq_some_iff.mp hvalue
    exact ⟨exponent, epsilon, hexponent, hepsilon, hvalue⟩
  · rintro ⟨exponent, epsilon, hexponent, hepsilon, hvalue⟩
    rw [hexponent, hepsilon]
    exact hvalue

/-- The tensor of an initializer with one number has one element. -/
theorem literal_single {weight : WeightTensor} {bits : UInt32} {t : Tensor} (h : literal weight = some t)
    (hdata : weight.data = [bits]) : t.shape = tensorShape weight ∧ t.shape.prod = 1 ∧
      t.entry 0 = (Binary32.value bits).map fun q : ℚ => (q : ℝ) := by
  obtain ⟨hprod, h⟩ := Option.ite_none_right_eq_some.mp h
  cases h
  rw [hdata, List.length_singleton] at hprod
  refine ⟨rfl, hprod.symm, ?_⟩
  simp only [hdata]
  rfl

/-- The chain has a value on some tensors of the shapes that the instruction takes. -/
def Chain.HasValue (chain : Chain) (weights : NameMap WeightTensor) (ints : String → List ℤ) (s : List ℕ) (dim : UInt64) :
    Prop :=
  ∃ x w out, chain.evaluate weights ints (reals s x) (reals [dim.toNat] w) = some out

/-- The numbers and axes of a chain are those of the instruction. -/
structure Exact (weights : NameMap WeightTensor) (fusion : RmsNormFusion) (chain : Chain) (ints : String → List ℤ)
    (s : List ℕ) : Prop where
  exponent : ∃ weight bits, chain.exponent weights = some weight ∧ weight.data = [bits] ∧ Binary32.value bits = some 2
  epsilon : ∃ weight bits, chain.epsilon weights = some weight ∧ weight.data = [bits] ∧
    Binary32.value bits = some ((fusion.epsilonMilli.toNat : ℚ) / 1000)
  last : fusion.dim.toNat = 1 ∨ s.getLast? = some fusion.dim.toNat
  reduced : ∀ weight squared axes, chain.exponent weights = some weight →
    Broadcasting.broadcastShape s (tensorShape weight) = some squared →
    reducedAxes ints chain.reduceMean.node squared.length = some axes → ∀ i d, squared[i]? = some d → d ≠ 1 → i ∈ axes

/-- A fusion is right for tensors of a shape. -/
structure Preserves (floats : FloatOps) (graph : GraphProto) (program : CompiledProgram) (fusion : RmsNormFusion)
    (s : List ℕ) : Prop where
  emitted : Emitted fusion program.instructions
  denotes : ∃ chain, chainOf graph.node fusion = some chain ∧ ∀ ints x w out,
    chain.evaluate (NameMap.collect program.weights) ints (reals s x) (reals [fusion.dim.toNat] w) = some out →
    out.shape.prod = fusion.dim.toNat ∧
      ∀ p < fusion.dim.toNat, out.entry p = rmsNorm fusion.dim.toNat (fusion.epsilonMilli.toNat / 1000) x w p
  hidden : ∀ chain, chainOf graph.node fusion = some chain → ∀ name ∈ chain.interior,
    name ∉ graph.output.map (·.name) ∧ ∃ reader ∈ fusion.consumedNodeIndices, ∀ (j : ℕ) node, graph.node[j]? = some node →
      name ∈ node.input → j = reader
  disjoint : ∀ fusion' ∈ detectRmsNormFusions floats graph (NameMap.collect program.weights), fusion' ≠ fusion →
    List.Disjoint (fusion.powNodeIdx :: fusion.consumedNodeIndices) (fusion'.powNodeIdx :: fusion'.consumedNodeIndices)

theorem Matched.sole_reader {known : NameMap WeightTensor} (h : Matched floats graph.node known fusion chain) {name : String}
    (hname : name ∈ chain.interior) : ∃ reader ∈ fusion.consumedNodeIndices, soleConsumer graph.node name = some reader := by
  rw [h.consumed]
  simp only [Chain.interior, Chain.links, List.dropLast_cons_cons, List.dropLast_singleton, List.map_cons, List.map_nil,
    List.mem_cons, List.not_mem_nil, or_false] at hname
  simp only [Chain.links, List.tail_cons, List.map_cons, List.map_nil]
  rcases hname with rfl | rfl | rfl | rfl | rfl | rfl
  · exact ⟨_, by simp, h.reduceMean.sole⟩
  · exact ⟨_, by simp, h.add.sole⟩
  · exact ⟨_, by simp, h.sqrt.sole⟩
  · exact ⟨_, by simp, h.reciprocal.sole⟩
  · exact ⟨_, by simp, h.scale.sole⟩
  · exact ⟨_, by simp, h.weigh.sole⟩

/-- The tensors inside a chain are outputs of its nodes and of no node that ends a chain. -/
theorem Matched.interior_output {fusion' : RmsNormFusion} {chain' : Chain} (hnames : (definedNames graph).Nodup)
    (hextract : extractInitializers graph = .ok weights)
    (h : Matched floats graph.node (NameMap.collect weights) fusion chain)
    (h' : Matched floats graph.node (NameMap.collect weights) fusion' chain') {name : String}
    (hname : name ∈ chain.interior) :
    (∃ i ∈ chain.links.map (·.idx), ∃ node, graph.node[i]? = some node ∧ name ∈ node.output) ∧ name ≠ chain'.weigh.output := by
  simp only [Chain.interior, Chain.links, List.dropLast_cons_cons, List.dropLast_singleton, List.map_cons, List.map_nil,
    List.mem_cons, List.not_mem_nil, or_false] at hname
  have hlink : ∀ {opType : String} {link : Link}, At graph.node opType link → link ∈ chain.links →
      (opType ≠ "Mul" ∨ link.idx ≠ chain'.weigh.idx) → (∃ i ∈ chain.links.map (·.idx), ∃ node, graph.node[i]? = some node ∧
        link.output ∈ node.output) ∧ link.output ≠ chain'.weigh.output := by
    intro opType link hat hmem hother
    refine ⟨⟨link.idx, List.mem_map_of_mem hmem, link.node, hat.node, hat.mem_output⟩, fun heq => ?_⟩
    have hidx := hat.idx_eq hnames h'.weigh.at heq
    rcases hother with htype | hne
    · exact hat.idx_ne h'.weigh.at htype hidx
    · exact hne hidx
  rcases hname with rfl | rfl | rfl | rfl | rfl | rfl
  · exact hlink h.at_pow (by simp [Chain.links]) (.inl (by decide))
  · exact hlink h.reduceMean.at (by simp [Chain.links]) (.inl (by decide))
  · exact hlink h.add.at (by simp [Chain.links]) (.inl (by decide))
  · exact hlink h.sqrt.at (by simp [Chain.links]) (.inl (by decide))
  · exact hlink h.reciprocal.at (by simp [Chain.links]) (.inl (by decide))
  · exact hlink h.scale.at (by simp [Chain.links]) (.inr (scale_ne_weigh hnames hextract h h'))

/-- The chain has the value of the instruction wherever it has one exactly if its numbers and axes are the
instruction's. -/
theorem Matched.denotes_iff (hnames : (definedNames graph).Nodup) (hextract : extractInitializers graph = .ok weights)
    (h : Matched floats graph.node (NameMap.collect weights) fusion chain) (hdim : fusion.dim.toNat ≠ 0)
    (hs : s.prod = fusion.dim.toNat) :
    (∀ ints x w out, chain.evaluate (NameMap.collect weights) ints (reals s x) (reals [fusion.dim.toNat] w) = some out →
      out.shape.prod = fusion.dim.toNat ∧
        ∀ p < fusion.dim.toNat, out.entry p = rmsNorm fusion.dim.toNat (fusion.epsilonMilli.toNat / 1000) x w p) ↔
      ∀ ints, chain.HasValue (NameMap.collect weights) ints s fusion.dim →
        Exact (NameMap.collect weights) fusion chain ints s := by
  obtain ⟨exponentName, eweight, ebits, hinput, hweight, hedata⟩ := h.exponent
  have hexponentWeight : chain.exponent (NameMap.collect weights) = some eweight := by
    rw [← hweight, Chain.exponent, hinput]
    rfl
  obtain ⟨-, weight, bits, -, -, hepsilonWeight, hdata, -⟩ := h.epsilon_operands hnames hextract
  constructor
  · rintro hall ints ⟨x, w, out, hvalue⟩
    obtain ⟨exponent, epsilon, hexponent, hepsilon, hnormalize⟩ := (h.evaluate_eq_some hnames hextract).mp hvalue
    have hexponent' := hexponent
    have hepsilon' := hepsilon
    rw [hexponentWeight] at hexponent'
    rw [hepsilonWeight] at hepsilon'
    obtain ⟨hshape, hone, hentry⟩ := literal_single hexponent' hedata
    obtain ⟨-, hone', hentry'⟩ := literal_single hepsilon' hdata
    obtain ⟨htwo, heps, hlast, hreduced⟩ := exact_of_normalize hone hone' hs hdim (by positivity) hnormalize
      fun f g out' hout' => hall ints f g out' ((h.evaluate_eq_some hnames hextract).mpr
        ⟨exponent, epsilon, hexponent, hepsilon, hout'⟩)
    rw [hentry] at htwo
    obtain ⟨q, hq, hcast⟩ := Option.map_eq_some_iff.mp htwo
    rw [hentry'] at heps
    obtain ⟨r, hr, hcast'⟩ := Option.map_eq_some_iff.mp heps
    refine ⟨⟨eweight, ebits, hexponentWeight, hedata, ?_⟩, ⟨weight, bits, hepsilonWeight, hdata, ?_⟩, hlast, ?_⟩
    · rw [hq, show q = 2 by exact_mod_cast hcast]
    · have hthousandths : (r : ℝ) = (((fusion.epsilonMilli.toNat : ℚ) / 1000 : ℚ) : ℝ) := by
        rw [hcast']
        push_cast
        rfl
      rw [hr, Rat.cast_injective hthousandths]
    · intro weight' squared axes hweight' hsquared haxes
      obtain rfl : eweight = weight' := Option.some.inj (hexponentWeight.symm.trans hweight')
      exact keptShape_prod_eq_one.mp (hreduced squared axes (hshape ▸ hsquared) haxes)
  · intro hexact ints x w out hvalue
    obtain ⟨exponent, epsilon, hexponent, hepsilon, hnormalize⟩ := (h.evaluate_eq_some hnames hextract).mp hvalue
    obtain ⟨⟨eweight', ebits', hweight', hedata', htwo⟩, ⟨weight', bits', hepsWeight', hdata', heps⟩, hlast, hreduced⟩ :=
      hexact ints ⟨x, w, out, hvalue⟩
    rw [hweight'] at hexponent
    rw [hepsWeight'] at hepsilon
    obtain ⟨hshape, hone, hentry⟩ := literal_single hexponent hedata'
    obtain ⟨-, hone', hentry'⟩ := literal_single hepsilon hdata'
    have htwo' : exponent.entry 0 = some 2 := by
      rw [hentry, htwo]
      norm_num
    have heps' : epsilon.entry 0 = some ((fusion.epsilonMilli.toNat : ℝ) / 1000) := by
      rw [hentry', heps]
      norm_num
    apply normalize_exact hone htwo' hone' heps' hs hdim hlast _ hnormalize
    intro squared axes hsquared haxes
    exact keptShape_prod_eq_one.mpr (hreduced eweight' squared axes hweight' (hshape ▸ hsquared) haxes)

end Preservation

section Main

/-- The assembler accepts the instruction on as many elements as it has, of which there is one at least. -/
theorem dim_of_accepted {config : Assembler.AssemblerConfig} {cs : Plonkish.ConstraintSystem ScalarField.Fr}
    {floats : RmsNorm.Floats} {known : Bool} {regs : Assembler.Registers} {xRef weightRef : RegisterRef}
    {x out : Assembler.RegisterCells} {dim epsilonMilli : UInt64} {n n' : ℕ} {es}
    (hinstalled : config.Installed cs) (hx : regs.get? xRef = some x)
    (h : config.assignInstruction floats regs ⟨.rmsNorm dim epsilonMilli, [xRef, weightRef]⟩ known n = .ok (out, es, n')) :
    x.values.length = dim.toNat ∧ dim.toNat ≠ 0 := by
  obtain ⟨⟨-, hsome⟩, -⟩ := (Assembler.AssemblerConfig.assignInstruction_decides hinstalled regs
    ⟨.rmsNorm dim epsilonMilli, [xRef, weightRef]⟩ n).1 _ _ _ h
  obtain ⟨values, hvalues⟩ := Option.isSome_iff_exists.mp hsome
  simp only [Assembler.AssemblerConfig.hostInstruction, Assembler.AssemblerConfig.hostOperands,
    Assembler.Registers.toValues_get?, hx, Option.map_some, Option.bind_eq_bind, Option.bind_some] at hvalues
  obtain ⟨w, -, hvalues⟩ := Option.bind_eq_some_iff.mp hvalues
  obtain ⟨⟨hlength, -⟩, hvalues⟩ := Option.ite_none_right_eq_some.mp hvalues
  obtain ⟨rms, hrms, -⟩ := Option.bind_eq_some_iff.mp hvalues
  obtain ⟨hconfig, hk⟩ := hinstalled.rmsNorm _ (Assembler.findKey_mem hrms)
  refine ⟨hlength, ?_⟩
  rw [← hk, ← hconfig.length]
  exact hconfig.reduceMean.sum.pos.ne'

/-- A normalization with an epsilon of a millionth. -/
def millionthGraph : GraphProto where
  node := [⟨"pow", "Pow", ["x", "two"], ["p"], []⟩, ⟨"mean", "ReduceMean", ["p"], ["m"], []⟩,
    ⟨"add", "Add", ["m", "eps"], ["a"], []⟩, ⟨"sqrt", "Sqrt", ["a"], ["s"], []⟩,
    ⟨"reciprocal", "Reciprocal", ["s"], ["r"], []⟩, ⟨"scale", "Mul", ["x", "r"], ["n"], []⟩,
    ⟨"weigh", "Mul", ["n", "w"], ["y"], []⟩]
  initializer := [⟨"two", [], 1, [0x40000000], []⟩, ⟨"eps", [], 1, [0x358637BD], []⟩, ⟨"w", [1], 1, [0x3F800000], []⟩]
  input := [⟨"x", some [some 1]⟩]
  output := [⟨"y", none⟩]
  valueInfo := []

/-- Two is not far from itself, and a thousandth of a thousandth is rounded to zero. -/
def millionthFloats : FloatOps := ⟨fun bits => bits ≠ 0x40000000, fun _ => 0⟩

def millionthFusion : RmsNormFusion := ⟨0, [1, 2, 3, 4, 5, 6], "x", "w", "y", 1, 0⟩

def millionthProgram : CompiledProgram where
  instructions := [⟨.rmsNorm 1 0, [.graphInput "x", .weight "w"], "y"⟩]
  weights := [("two", ⟨[], [0x40000000]⟩), ("eps", ⟨[], [0x358637BD]⟩), ("w", ⟨[1], [0x3F800000]⟩)]
  graphInputs := ["x"]
  graphOutputs := [("y", .virtual 0)]

theorem compileGraph_millionth : compileGraph millionthFloats millionthGraph = .ok millionthProgram := by decide +kernel

theorem millionthFusion_mem : millionthFusion ∈
    detectRmsNormFusions millionthFloats millionthGraph (NameMap.collect millionthProgram.weights) := by decide +kernel

end Main

end Zkie.NormFusion
