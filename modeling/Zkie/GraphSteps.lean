import Zkie.Checked
import Zkie.GraphCompiler

namespace Zkie.GraphCompiler

open Checked Isa Onnx
open FixedPoint (mapError_eq_ok)
open Satisfaction (exists_forall₂)

section Maps

variable {ε α β : Type}

theorem insert_apply (m : NameMap α) (name other : String) (a : α) :
    m.insert name a other = if other = name then some a else m other := by
  unfold NameMap.insert
  rw [Function.update_apply]

theorem foldl_insert (names : List String) (a : α) (m : NameMap α) (other : String) :
    (names.foldl (fun m name => m.insert name a) m) other = if other ∈ names then some a else m other := by
  induction names generalizing m with
  | nil => simp
  | cons name names ih =>
      rw [List.foldl_cons, ih, insert_apply]
      by_cases hmem : other ∈ names
      · simp [hmem]
      · by_cases hname : other = name <;> simp [hmem, hname]

theorem collect_append (entries : List (String × α)) (e : String × α) :
    NameMap.collect (entries ++ [e]) = (NameMap.collect entries).insert e.1 e.2 := by
  unfold NameMap.collect
  rw [List.foldl_append]
  rfl

theorem collect_isSome {entries : List (String × α)} {name : String} :
    (NameMap.collect entries name).isSome ↔ name ∈ entries.map Prod.fst := by
  induction entries using List.reverseRecOn with
  | nil => simp [NameMap.collect]
  | append_singleton entries e ih =>
      rw [collect_append, insert_apply]
      by_cases hname : name = e.1
      · simp [hname]
      · simp [hname, ih]

theorem mem_of_collect {entries : List (String × α)} {name : String} {a : α} (h : NameMap.collect entries name = some a) :
    (name, a) ∈ entries := by
  induction entries using List.reverseRecOn with
  | nil => cases h
  | append_singleton entries e ih =>
      rw [collect_append, insert_apply] at h
      by_cases hname : name = e.1
      · rw [if_pos hname] at h
        cases h
        exact List.mem_append_right _ (by simp [hname])
      · rw [if_neg hname] at h
        exact List.mem_append_left _ (ih h)

theorem collect_eq_some {entries : List (String × α)} (hnodup : (entries.map Prod.fst).Nodup) {name : String} {a : α} :
    NameMap.collect entries name = some a ↔ (name, a) ∈ entries := by
  induction entries using List.reverseRecOn with
  | nil => simp [NameMap.collect]
  | append_singleton entries e ih =>
      refine ⟨mem_of_collect, fun hmem => ?_⟩
      rw [List.map_append, List.nodup_append'] at hnodup
      rw [collect_append, insert_apply]
      rcases List.mem_append.mp hmem with hmem | hmem
      · have hname : name ≠ e.1 := by
          rintro rfl
          exact hnodup.2.2 (List.mem_map_of_mem hmem) (by simp)
        rw [if_neg hname, ih hnodup.1]
        exact hmem
      · rw [← List.mem_singleton.mp hmem, if_pos rfl]

end Maps

section Mapping

variable {floats : FloatOps} {node : NodeProto} {shapes : Shapes} {op : MappedOp}

theorem mapMatmulOrGemm_ok {transA transB allowBatchDims : Bool}
    (h : mapMatmulOrGemm node shapes transA transB allowBatchDims = .ok op) :
    ∃ instruction, op = instructionOp node instruction := by
  unfold mapMatmulOrGemm at h
  simp only [bind_eq_ok] at h
  obtain ⟨aName, -, bName, -, aShape, -, bShape, -, h⟩ := h
  split_ifs at h
  cases h
  exact ⟨_, rfl⟩

theorem mapGather_ok (h : mapGather node shapes = .ok op) : ∃ instruction, op = instructionOp node instruction := by
  unfold mapGather at h
  simp only [bind_eq_ok] at h
  obtain ⟨name, -, shape, -, h⟩ := h
  split at h
  · split_ifs at h
    cases h
    exact ⟨_, rfl⟩
  · cases h

theorem mapReduceMean_ok (h : mapReduceMean node shapes = .ok op) :
    ∃ instruction, op = instructionOp node instruction := by
  unfold mapReduceMean at h
  split at h
  · simp only [bind_eq_ok] at h
    obtain ⟨name, -, axis, -, h⟩ := h
    cases h
    exact ⟨_, rfl⟩
  · cases h

/-- A node is mapped to its instruction with its own inputs and outputs, or to a metadata op with them. -/
theorem mapNode_ok (h : mapNode floats node shapes = .ok op) :
    node.opType ∈ metadataTypes ∧ op = metadataOp node ∨
      node.opType ∉ metadataTypes ∧ ∃ instruction, op = instructionOp node instruction := by
  have hdim : ∀ {f : UInt64 → Instruction}, (axisDim node shapes >>= fun dim => pure (instructionOp node (f dim))) = .ok op →
      ∃ instruction, op = instructionOp node instruction := by
    intro f h
    obtain ⟨dim, -, h⟩ := bind_eq_ok.mp h
    cases h
    exact ⟨_, rfl⟩
  unfold mapNode at h
  by_cases hmeta : node.opType ∈ metadataTypes
  · refine .inl ⟨hmeta, ?_⟩
    simp only [metadataTypes, List.mem_cons, List.not_mem_nil, or_false] at hmeta
    have hother : ∀ name ∈ ["MatMul", "Gemm", "Add", "Mul", "Relu", "Softmax", "Gelu", "LayerNormalization", "ReduceMean",
        "Gather"], node.opType ≠ name := by
      rcases hmeta with hop | hop | hop | hop | hop <;> rw [hop] <;> decide
    simp only [List.forall_mem_cons, List.not_mem_nil, false_implies, implies_true, and_true] at hother
    obtain ⟨h₁, h₂, h₃, h₄, h₅, h₆, h₇, h₈, h₉, h₁₀⟩ := hother
    rw [if_neg h₁, if_neg h₂, if_neg h₃, if_neg h₄, if_neg h₅, if_neg h₆, if_neg h₇, if_neg h₈, if_neg h₉, if_neg h₁₀] at h
    rw [if_pos (by simpa [metadataTypes] using hmeta)] at h
    exact (Except.ok.inj h).symm
  · refine .inr ⟨hmeta, ?_⟩
    split_ifs at h
    · exact mapMatmulOrGemm_ok h
    · exact mapMatmulOrGemm_ok h
    · cases h
      exact ⟨_, rfl⟩
    · cases h
      exact ⟨_, rfl⟩
    · cases h
      exact ⟨_, rfl⟩
    · exact hdim h
    · cases h
      exact ⟨_, rfl⟩
    · exact hdim h
    · exact mapReduceMean_ok h
    · exact mapGather_ok h

end Mapping

section Ordering

variable {graph : GraphProto} {name : String} {i j p : ℕ}

theorem output_mem_definedNames {node : NodeProto} (hnode : graph.node[i]? = some node) (hname : name ∈ node.output) :
    name ∈ definedNames graph :=
  List.mem_append_right _ (List.mem_flatMap.mpr ⟨node, List.mem_of_getElem? hnode, hname⟩)

theorem producerOf_eq_some (hnames : (definedNames graph).Nodup) :
    producerOf graph name = some i ↔ ∃ node, graph.node[i]? = some node ∧ name ∈ node.output := by
  have hkeys : (graph.node.zipIdx.flatMap fun entry => entry.1.output.map fun name => (name, entry.2)).map Prod.fst =
      graph.node.flatMap (·.output) := by
    rw [List.map_flatMap]
    simp only [List.map_map, Function.comp_def, List.map_id']
    conv_rhs => rw [← List.zipIdx_map_fst 0 graph.node, List.flatMap_map]
  unfold producerOf
  rw [collect_eq_some (hkeys ▸ hnames.of_append_right)]
  simp only [List.mem_flatMap, List.mem_map, Prod.mk.injEq]
  constructor
  · rintro ⟨⟨node, idx⟩, hentry, _, hname, rfl, rfl⟩
    exact ⟨node, List.mk_mem_zipIdx_iff_getElem?.mp hentry, hname⟩
  · rintro ⟨node, hnode, hname⟩
    exact ⟨(node, i), List.mk_mem_zipIdx_iff_getElem?.mpr hnode, name, hname, rfl, rfl⟩

theorem countedProducers_spec (producers : NameMap ℕ) (idx : ℕ) (node : NodeProto) :
    (countedProducers producers idx node).Nodup ∧ ∀ p, p ∈ countedProducers producers idx node ↔
      p ≠ idx ∧ ∃ name ∈ node.input, producers name = some p := by
  unfold countedProducers
  induction node.input using List.reverseRecOn with
  | nil => simp
  | append_singleton names name ih =>
      rw [List.foldl_append, List.foldl_cons, List.foldl_nil]
      obtain ⟨hnodup, hmem⟩ := ih
      generalize names.foldl (countProducer producers idx) [] = counted at hnodup hmem ⊢
      have hnames : ∀ p, (∃ n ∈ names ++ [name], producers n = some p) ↔
          (∃ n ∈ names, producers n = some p) ∨ producers name = some p := by
        intro p
        simp [or_and_right, exists_or]
      unfold countProducer
      simp only [hnames]
      split
      · rename_i q hq
        split
        · rename_i hnew
          refine ⟨hnodup.append (List.nodup_singleton q) (by simpa using hnew.2), fun p => ?_⟩
          rw [List.mem_append, hmem, List.mem_singleton, hq, Option.some_inj]
          constructor
          · rintro (⟨hp, hold⟩ | rfl)
            · exact ⟨hp, .inl hold⟩
            · exact ⟨hnew.1, .inr rfl⟩
          · rintro ⟨hp, hold | rfl⟩
            · exact .inl ⟨hp, hold⟩
            · exact .inr rfl
        · rename_i hold
          refine ⟨hnodup, fun p => ?_⟩
          rw [hmem, hq, Option.some_inj]
          constructor
          · rintro ⟨hp, hname⟩
            exact ⟨hp, .inl hname⟩
          · rintro ⟨hp, hname | rfl⟩
            · exact ⟨hp, hname⟩
            · by_contra hnot
              exact hold ⟨hp, fun hin => hnot ((hmem _).mp hin)⟩
      · rename_i hnone
        refine ⟨hnodup, fun p => ?_⟩
        rw [hmem, hnone]
        simp

theorem mem_predecessors (hnames : (definedNames graph).Nodup) :
    p ∈ predecessors graph j ↔ p ≠ j ∧ Reads graph p j := by
  unfold predecessors Reads
  cases hnode : graph.node[j]? with
  | none => simp
  | some node =>
      rw [Option.elim_some, (countedProducers_spec _ _ _).2]
      apply and_congr_right
      intro _
      simp only [producerOf_eq_some hnames]
      constructor
      · rintro ⟨name, hname, a, ha, hout⟩
        exact ⟨a, node, ha, rfl, name, hname, hout⟩
      · rintro ⟨a, b, ha, hb, name, hname, hout⟩
        cases hb
        exact ⟨name, hname, a, ha, hout⟩

theorem predecessors_nodup (graph : GraphProto) (j : ℕ) : (predecessors graph j).Nodup := by
  unfold predecessors
  cases graph.node[j]? with
  | none => exact List.nodup_nil
  | some node => exact (countedProducers_spec _ _ _).1

theorem predecessors_lt (hnames : (definedNames graph).Nodup) (hp : p ∈ predecessors graph j) :
    p < graph.node.length := by
  obtain ⟨-, a, -, ha, -⟩ := (mem_predecessors hnames).mp hp
  exact (List.getElem?_eq_some_iff.mp ha).1

theorem topologicalOrder_spec (hnames : (definedNames graph).Nodup) :
    ((∃ order, topologicalOrder graph = .ok order) ↔ Kahn.Acyclic graph.node.length (predecessors graph)) ∧
      ∀ order, topologicalOrder graph = .ok order → IsDependencyOrder graph order := by
  have hspec : ((releaseOrder graph).length = graph.node.length ↔ Kahn.Acyclic graph.node.length (predecessors graph)) ∧
      ((releaseOrder graph).length = graph.node.length → (releaseOrder graph).Perm (List.range graph.node.length) ∧
        Kahn.Sorted (predecessors graph) (releaseOrder graph)) := by
    apply Kahn.sort_spec
    · intro j _
      exact predecessors_nodup graph j
    · intro j _ p hp
      exact predecessors_lt hnames hp
    · intro j _
      rfl
  unfold topologicalOrder
  refine ⟨?_, ?_⟩
  · rw [← hspec.1]
    split
    · rename_i hlength
      exact ⟨fun _ => hlength, fun _ => ⟨_, rfl⟩⟩
    · rename_i hlength
      constructor
      · rintro ⟨order, horder⟩
        cases horder
      · intro h
        exact absurd h hlength
  · intro order horder
    split at horder
    · rename_i hlength
      cases horder
      obtain ⟨hperm, hsorted⟩ := hspec.2 hlength
      refine ⟨hperm, ?_⟩
      intro done i rest hsplit p hp hreads
      exact hsorted done i rest hsplit p ((mem_predecessors hnames).mpr ⟨hp, hreads⟩)
    · cases horder

end Ordering

section Compile

variable {floats : FloatOps} {graph : GraphProto} {shapes : Shapes} {state state' : CompileState} {node : NodeProto}
  {op : MappedOp} {done : List ℕ} {idx : ℕ}

/-- A node that is compiled is an instruction node, whose inputs are all resolved, or a metadata node, whose first
input is. -/
theorem compileOp_ok (hmap : mapNode floats node shapes = .ok op) (h : compileOp state node op = .ok state') :
    (node.opType ∉ metadataTypes ∧ ∃ instruction inputs outputName, op = .instruction instruction node.input [outputName] ∧
      node.output = [outputName] ∧ List.Forall₂ (fun name r => state.registers name = some r) node.input inputs ∧
      state' = push state instruction inputs outputName) ∨
    (node.opType ∈ metadataTypes ∧ ∃ source register, op = metadataOp node ∧ node.input.head? = some source ∧
      state.registers source = some register ∧
      state' = { state with registers := node.output.foldl (fun m name => m.insert name register) state.registers }) := by
  obtain ⟨hmeta, rfl⟩ | ⟨hmeta, instruction, rfl⟩ := mapNode_ok hmap
  · apply Or.inr
    refine ⟨hmeta, ?_⟩
    simp only [metadataOp, compileOp, resolve, bind_eq_ok, orElse_eq_ok] at h
    obtain ⟨source, hsource, register, hregister, h⟩ := h
    cases h
    exact ⟨source, register, rfl, hsource, hregister, rfl⟩
  · apply Or.inl
    refine ⟨hmeta, ?_⟩
    simp only [instructionOp, compileOp, resolve, bind_eq_ok, mapM_eq_ok, orElse_eq_ok] at h
    obtain ⟨inputs, hinputs, h⟩ := h
    split at h
    · rename_i outputName hout
      cases h
      exact ⟨instruction, inputs, outputName, by rw [instructionOp, hout], hout, hinputs, rfl⟩
    · cases h

/-- A node whose needed inputs have registers is compiled. -/
theorem compileOp_exists (hmap : mapNode floats node shapes = .ok op)
    (hinputs : ∀ name ∈ neededInputs node, (state.registers name).isSome)
    (houtput : node.opType ∉ metadataTypes → node.output.length = 1)
    (hsource : node.opType ∈ metadataTypes → node.input ≠ []) : ∃ state', compileOp state node op = .ok state' := by
  obtain ⟨hmeta, rfl⟩ | ⟨hmeta, instruction, rfl⟩ := mapNode_ok hmap
  · obtain ⟨source, rest, hinput⟩ := List.exists_cons_of_ne_nil (hsource hmeta)
    have hsome : (state.registers source).isSome := hinputs source (by rw [neededInputs, if_pos hmeta, hinput]; simp)
    obtain ⟨register, hregister⟩ := Option.isSome_iff_exists.mp hsome
    refine ⟨{ state with registers := node.output.foldl (fun m name => m.insert name register) state.registers }, ?_⟩
    simp only [metadataOp, compileOp, resolve, bind_eq_ok, orElse_eq_ok]
    exact ⟨source, by rw [hinput]; rfl, register, hregister, rfl⟩
  · obtain ⟨outputName, hout⟩ := List.length_eq_one_iff.mp (houtput hmeta)
    have hforall : ∃ inputs, List.Forall₂ (fun name r => state.registers name = some r) node.input inputs := by
      apply exists_forall₂
      intro name hname
      exact Option.isSome_iff_exists.mp (hinputs name (by rwa [neededInputs, if_neg hmeta]))
    obtain ⟨inputs, hforall⟩ := hforall
    refine ⟨push state instruction inputs outputName, ?_⟩
    simp only [instructionOp, compileOp, resolve, bind_eq_ok, mapM_eq_ok, orElse_eq_ok, hout]
    exact ⟨inputs, hforall, rfl⟩

theorem compileNode_eq_ok : compileNode floats graph shapes [] state idx = .ok state' ↔
    ∃ node op, graph.node[idx]? = some node ∧ mapNode floats node shapes = .ok op ∧
      compileOp state node op = .ok state' := by
  unfold compileNode
  rw [List.find?_nil]
  simp only [List.not_mem_nil, false_and, exists_false, if_false, bind_eq_ok, orElse_eq_ok, mapError_eq_ok]
  constructor
  · rintro ⟨node, hnode, op, hop, h⟩
    exact ⟨node, op, hnode, hop, h⟩
  · rintro ⟨node, op, hnode, hop, h⟩
    exact ⟨node, hnode, op, hop, h⟩

/-- The names that are defined once the nodes in `done` have been visited. -/
def DefinedBy (graph : GraphProto) (done : List ℕ) (name : String) : Prop :=
  name ∈ graph.input.map (·.name) ++ graph.initializer.map (·.name) ∨
    ∃ i ∈ done, ∃ node, graph.node[i]? = some node ∧ name ∈ node.output

theorem definedBy_append (hnode : graph.node[idx]? = some node) (name : String) :
    DefinedBy graph (done ++ [idx]) name ↔ DefinedBy graph done name ∨ name ∈ node.output := by
  unfold DefinedBy
  constructor
  · rintro (hname | ⟨i, hi, a, ha, hout⟩)
    · exact .inl (.inl hname)
    · rcases List.mem_append.mp hi with hi | hi
      · exact .inl (.inr ⟨i, hi, a, ha, hout⟩)
      · rw [List.mem_singleton.mp hi, hnode] at ha
        cases ha
        exact .inr hout
  · rintro ((hname | ⟨i, hi, a, ha, hout⟩) | hout)
    · exact .inl hname
    · exact .inr ⟨i, List.mem_append_left _ hi, a, ha, hout⟩
    · exact .inr ⟨idx, by simp, node, hnode, hout⟩

end Compile

end Zkie.GraphCompiler
