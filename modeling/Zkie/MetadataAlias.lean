import Zkie.GraphSteps
import Zkie.OnnxMatMul
import Zkie.RowMajor

namespace Zkie.MetadataAlias

open FixedPoint Onnx GraphCompiler RowMajor
open OnnxMatMul (Tensor noOps spike)
open Checked (bind_eq_ok)

section Meaning

/-- The order in which a `Transpose` node takes the axes of its operand; without an attribute they are reversed. -/
def permOf (node : NodeProto) (rank : ℕ) : Option (List ℕ) :=
  match attrInts node "perm" with
  | none => some (List.range rank).reverse
  | some axes =>
      if (∀ a ∈ axes, 0 ≤ a) ∧ (axes.map Int.toNat).Perm (List.range rank) then some (axes.map Int.toNat) else none

/-- The axis along which a `Concat` node joins its operands. A negative axis counts from the back. -/
def axisOf (node : NodeProto) (rank : ℕ) : Option ℕ := do
  let attr ← getAttr node "axis"
  let axis := if 0 ≤ attr.i then attr.i else rank + attr.i
  if 0 ≤ axis ∧ axis < rank then some axis.toNat else none

/-- The operands have the same dimensions but along the axis. -/
def Concatenable (axis : ℕ) (s : List ℕ) (rest : List (List ℕ)) : Prop :=
  ∀ t ∈ rest, t.length = s.length ∧ t.eraseIdx axis = s.eraseIdx axis

instance (axis : ℕ) (s : List ℕ) (rest : List (List ℕ)) : Decidable (Concatenable axis s rest) :=
  inferInstanceAs (Decidable (∀ _ ∈ _, _))

def transposeData (perm : List ℕ) (x : Tensor) : List I18 :=
  (List.range x.shape.prod).map fun q => x.data.getD (transposeSource x.shape perm q) default

/-- An operand with the length of its blocks. -/
def part (axis : ℕ) (t : Tensor) : ℕ × List I18 := ((t.shape.drop axis).prod, t.data)

def concatData (axis : ℕ) (x : Tensor) (rest : List Tensor) : List I18 :=
  concatenated (x.shape.take axis).prod (part axis x :: rest.map (part axis))

/-- The row-major buffer of the output of a node, if it has a meaning for these operands. The further operands of
`Reshape`, `Squeeze` and `Unsqueeze` only say what the dimensions of the output are. -/
def onnxBuffer (node : NodeProto) : List Tensor → Option (List I18)
  | [] => none
  | x :: rest =>
      if node.opType = "Transpose" then
        if rest = [] then (permOf node x.shape.length).map fun perm => transposeData perm x else none
      else if node.opType = "Concat" then do
        let axis ← axisOf node x.shape.length
        if Concatenable axis x.shape (rest.map (·.shape)) then some (concatData axis x rest) else none
      else if node.opType ∈ metadataTypes then some x.data
      else none

end Meaning

section Buffers

variable {axis : ℕ} {s : List ℕ} {x : Tensor} {rest : List Tensor}

theorem take_of_concatenable {t : List ℕ} (h : t.eraseIdx axis = s.eraseIdx axis) : t.take axis = s.take axis := by
  have htake := congrArg (List.take axis) h
  rwa [List.take_eraseIdx_eq_take_of_le _ _ _ le_rfl, List.take_eraseIdx_eq_take_of_le _ _ _ le_rfl] at htake

theorem part_length {t : Tensor} (h : t.shape.take axis = s.take axis) :
    (part axis t).2.length = (s.take axis).prod * (part axis t).1 := by
  rw [part, t.size, ← h, ← List.prod_append, List.take_append_drop]

/-- A concatenation has the buffer of its first operand exactly if the others are empty. -/
theorem concatData_eq_iff (h : Concatenable axis x.shape (rest.map (·.shape))) :
    concatData axis x rest = x.data ↔ ∀ t ∈ rest, t.shape.prod = 0 := by
  have hparts : ∀ p ∈ rest.map (part axis), p.2.length = (x.shape.take axis).prod * p.1 := by
    intro p hp
    obtain ⟨t, ht, rfl⟩ := List.mem_map.mp hp
    exact part_length (take_of_concatenable (h _ (List.mem_map_of_mem ht)).2)
  have hhead : (part axis x).2.length = (x.shape.take axis).prod * (part axis x).1 := part_length rfl
  rw [concatData, show x.data = (part axis x).2 from rfl, concatenated_eq_head_iff hhead hparts, List.forall_mem_map]
  apply forall₂_congr
  intro t _
  rw [part, ← List.length_eq_zero_iff, t.size]

theorem transposeData_length (perm : List ℕ) (x : Tensor) : (transposeData perm x).length = x.shape.prod := by
  rw [transposeData, List.length_map, List.length_range]

theorem transposeData_getD (perm : List ℕ) {q : ℕ} (hq : q < x.shape.prod) :
    (transposeData perm x).getD q default = x.data.getD (transposeSource x.shape perm q) default := by
  simp [transposeData, hq]

theorem permOf_perm {node : NodeProto} {rank : ℕ} {perm : List ℕ} (h : permOf node rank = some perm) :
    perm.Perm (List.range rank) := by
  unfold permOf at h
  split at h
  · cases h
    exact List.reverse_perm _
  · split_ifs at h with hperm
    cases h
    exact hperm.2

/-- A tensor with a single element that is not zero. -/
def marked (shape : List ℕ) (q : ℕ) : Tensor :=
  ⟨shape, (List.range shape.prod).map fun i => if i = q then spike else default, by simp⟩

theorem marked_getD {shape : List ℕ} {q i : ℕ} (hq : q < shape.prod) :
    (marked shape q).data.getD i default = if i = q then spike else default := by
  by_cases hi : i < shape.prod
  · simp [marked, hi]
  · rw [List.getD_eq_default _ _ (by simpa [marked] using hi), if_neg (by omega)]

/-- A transposition keeps the buffers of all tensors of a shape exactly if it keeps the positions. -/
theorem transposeData_eq_iff {perm : List ℕ} : (∀ q < s.prod, transposeSource s perm q = q) ↔
    ∀ x : Tensor, x.shape = s → transposeData perm x = x.data := by
  constructor
  · rintro h x rfl
    apply List.ext_getElem
    · rw [transposeData_length, x.size]
    · intro q hq hq'
      have hread := transposeData_getD perm (x.size ▸ hq')
      rwa [h q (x.size ▸ hq'), List.getD_eq_getElem _ _ hq, List.getD_eq_getElem _ _ hq'] at hread
  · intro h q hq
    have hread := transposeData_getD (x := marked s q) perm hq
    rw [h (marked s q) rfl, marked_getD hq, marked_getD hq, if_pos rfl] at hread
    by_contra hne
    rw [show (marked s q).shape = s from rfl, if_neg hne] at hread
    exact absurd hread (by decide)

end Buffers

section Alias

/-- The registers that the code binds the outputs of a metadata node to hold the buffers that the node says, whatever
the tensors of its inputs are. -/
def AliasSound (node : NodeProto) (op : MetadataOp) (shapeOf : String → List ℕ) : Prop :=
  ∀ (state state' : CompileState) (contents : Register → List I18) (tensors : String → Tensor) (out : List I18),
    compileOp state node (.metadata op) = .ok state' →
    (∀ name ∈ node.input, (tensors name).shape = shapeOf name) →
    (∀ name ∈ node.input, ∀ register, state.registers name = some register → contents register = (tensors name).data) →
    onnxBuffer node (node.input.map tensors) = some out →
    ∀ name ∈ node.output, ∃ register, state'.registers name = some register ∧ contents register = out

/-- The transposition only moves axes of length one, and the concatenation only adds empty tensors. -/
def Harmless (node : NodeProto) : List (List ℕ) → Prop
  | [] => True
  | s :: rest =>
      (node.opType = "Transpose" → rest = [] → ∀ perm, permOf node s.length = some perm → s.prod = 0 ∨ OrderKept s perm) ∧
      (node.opType = "Concat" → ∀ axis, axisOf node s.length = some axis → Concatenable axis s rest →
        ∀ t ∈ rest, t.prod = 0)

variable {ops : FloatOps} {node : NodeProto} {op : MetadataOp} {shapes : Shapes} {shapeOf : String → List ℕ} {s : List ℕ}
  {rest : List (List ℕ)}

/-- The node says that its output has the buffer of its first input, for all tensors of the given dimensions. -/
def KeepsBuffer (node : NodeProto) (shapeOf : String → List ℕ) : Prop :=
  ∀ (tensors : String → Tensor) (out : List I18), (∀ n ∈ node.input, (tensors n).shape = shapeOf n) →
    onnxBuffer node (node.input.map tensors) = some out → ∀ first ∈ node.input.head?, (tensors first).data = out

theorem orderKept_iff_transposeData {perm : List ℕ} (hperm : permOf node s.length = some perm) :
    (s.prod = 0 ∨ OrderKept s perm) ↔ ∀ x : Tensor, x.shape = s → transposeData perm x = x.data := by
  rw [← transposeData_eq_iff]
  by_cases hs : s.prod = 0
  · simp [hs]
  · rw [transposeSource_eq_self_iff (permOf_perm hperm) hs]
    simp [hs]

theorem keepsBuffer_transpose_iff (htype : node.opType = "Transpose") :
    KeepsBuffer node shapeOf ↔ Harmless node (node.input.map shapeOf) := by
  have hconcat : node.opType ≠ "Concat" := by simp [htype]
  unfold KeepsBuffer
  cases hinput : node.input with
  | nil => simp [Harmless]
  | cons name names =>
      constructor
      · intro h
        refine ⟨fun _ hrest perm hperm => ?_, fun hc => absurd hc hconcat⟩
        obtain rfl := List.map_eq_nil_iff.mp hrest
        rw [orderKept_iff_transposeData hperm]
        intro x hx
        have hvalue : onnxBuffer node [x] = some (transposeData perm x) := by
          simp [onnxBuffer, htype, hx, hperm]
        exact (h (fun _ => x) _ (by simpa using hx) hvalue name rfl).symm
      · rintro h tensors out hshape hout first hfirst
        cases hfirst
        rw [List.map_cons, onnxBuffer, if_pos htype] at hout
        split_ifs at hout with hrest
        obtain rfl := List.map_eq_nil_iff.mp hrest
        have hdims := hshape name (.head _)
        obtain ⟨perm, hperm, rfl⟩ := Option.map_eq_some_iff.mp hout
        rw [hdims] at hperm
        exact ((orderKept_iff_transposeData hperm).mp (h.1 htype rfl perm hperm) _ hdims).symm

theorem keepsBuffer_concat_iff (htype : node.opType = "Concat") :
    KeepsBuffer node shapeOf ↔ Harmless node (node.input.map shapeOf) := by
  have htranspose : node.opType ≠ "Transpose" := by simp [htype]
  have hvalue : ∀ x rest, onnxBuffer node (x :: rest) = (do
      let axis ← axisOf node x.shape.length
      if Concatenable axis x.shape (rest.map (·.shape)) then some (concatData axis x rest) else none) := by
    intro x rest
    rw [onnxBuffer, if_neg htranspose, if_pos htype]
  have hdims : ∀ {tensors : String → Tensor} {names : List String}, (∀ n ∈ names, (tensors n).shape = shapeOf n) →
      (names.map tensors).map (·.shape) = names.map shapeOf := by
    intro tensors names hshape
    rw [List.map_map]
    exact List.map_congr_left hshape
  unfold KeepsBuffer
  cases hinput : node.input with
  | nil => simp [Harmless]
  | cons name names =>
      constructor
      · intro h
        refine ⟨fun hc => absurd hc htranspose, fun _ axis haxis hcat t ht => ?_⟩
        obtain ⟨n, hn, rfl⟩ := List.mem_map.mp ht
        let tensors : String → Tensor := fun n => marked (shapeOf n) 0
        have hshape : ∀ n ∈ names, (tensors n).shape = shapeOf n := fun _ _ => rfl
        have hcat' : Concatenable axis (tensors name).shape ((names.map tensors).map (·.shape)) := by
          rwa [hdims hshape]
        have hout : onnxBuffer node ((name :: names).map tensors) = some (concatData axis (tensors name) (names.map tensors)) := by
          rw [List.map_cons, hvalue, show (tensors name).shape.length = (shapeOf name).length from rfl, haxis,
            Option.bind_eq_bind, Option.bind_some, if_pos hcat']
        have hsame := h tensors _ (fun _ _ => rfl) hout name rfl
        exact (concatData_eq_iff hcat').mp hsame.symm _ (List.mem_map_of_mem hn)
      · rintro h tensors out hshape hout first hfirst
        cases hfirst
        obtain ⟨hhead, htail⟩ := List.forall_mem_cons.mp hshape
        rw [List.map_cons, hvalue] at hout
        obtain ⟨axis, haxis, hout⟩ := Option.bind_eq_some_iff.mp hout
        split_ifs at hout with hcat
        cases hout
        rw [hhead] at haxis
        have hempty := h.2 htype axis haxis (by rwa [hdims htail, hhead] at hcat)
        apply ((concatData_eq_iff hcat).mpr _).symm
        intro t ht
        obtain ⟨n, hn, rfl⟩ := List.mem_map.mp ht
        rw [htail n hn]
        exact hempty _ (List.mem_map_of_mem hn)

theorem keepsBuffer_iff (hmeta : node.opType ∈ metadataTypes) :
    KeepsBuffer node shapeOf ↔ Harmless node (node.input.map shapeOf) := by
  by_cases htranspose : node.opType = "Transpose"
  · exact keepsBuffer_transpose_iff htranspose
  · by_cases hconcat : node.opType = "Concat"
    · exact keepsBuffer_concat_iff hconcat
    · unfold KeepsBuffer
      cases hinput : node.input with
      | nil => simp [Harmless]
      | cons name names =>
          constructor
          · intro _
            exact ⟨fun hc => absurd hc htranspose, fun hc => absurd hc hconcat⟩
          · rintro - tensors out - hout first hfirst
            cases hfirst
            rw [List.map_cons, onnxBuffer, if_neg htranspose, if_neg hconcat, if_pos hmeta] at hout
            exact Option.some.inj hout

/-- The outputs of a metadata node are bound to the register of its first input. -/
theorem compileOp_metadata {state state' : CompileState} (hmap : mapNode ops node shapes = .ok (.metadata op))
    (h : compileOp state node (.metadata op) = .ok state') : node.opType ∈ metadataTypes ∧
      ∃ first register, node.input.head? = some first ∧ state.registers first = some register ∧
        ∀ name ∈ node.output, state'.registers name = some register := by
  obtain ⟨-, instruction, _, _, hop, -⟩ | ⟨hmeta, first, register, -, hfirst, hregister, rfl⟩ := compileOp_ok hmap h
  · cases hop
  · refine ⟨hmeta, first, register, hfirst, hregister, fun name hname => ?_⟩
    exact (foldl_insert node.output register state.registers name).trans (if_pos hname)

/-- A state in which every input has a register of its own. -/
def inputState : CompileState := ⟨fun name => some (.graphInput name), []⟩

/-- The tensors in these registers. -/
def inputContents (tensors : String → Tensor) : Register → List I18
  | .graphInput name => (tensors name).data
  | _ => []

/-- The alias is sound exactly if the node has no output or keeps the buffer. -/
theorem aliasSound_iff_keepsBuffer (hmap : mapNode ops node shapes = .ok (.metadata op)) :
    AliasSound node op shapeOf ↔ node.output = [] ∨ KeepsBuffer node shapeOf := by
  constructor
  · intro h
    by_cases hout : node.output = []
    · exact .inl hout
    · right
      intro tensors out hshape hvalue first hfirst
      obtain ⟨name, hname⟩ := List.exists_mem_of_ne_nil _ hout
      have hinput : node.input ≠ [] := fun hnil => by simp [hnil] at hfirst
      obtain ⟨hmeta, -⟩ | ⟨-, instruction, hop⟩ := mapNode_ok hmap
      · obtain ⟨state', hrun⟩ : ∃ state', compileOp inputState node (.metadata op) = .ok state' :=
          compileOp_exists hmap (fun _ _ => rfl) (absurd hmeta) (fun _ => hinput)
        obtain ⟨-, first', register, hfirst', hregister, hbound⟩ := compileOp_metadata hmap hrun
        obtain rfl : first = first' := Option.some.inj (hfirst.symm.trans hfirst')
        obtain rfl : register = .graphInput first := (Option.some.inj hregister).symm
        obtain ⟨register', hregister', hout⟩ := h inputState state' (inputContents tensors) tensors out hrun hshape
          (fun name _ register hregister => Option.some.inj hregister ▸ rfl) hvalue name hname
        rw [hbound name hname] at hregister'
        rwa [← Option.some.inj hregister'] at hout
      · cases hop
  · rintro (hout | h) state state' contents tensors out hrun hshape hcontents hvalue name hname
    · rw [hout] at hname
      cases hname
    · obtain ⟨-, first, register, hfirst, hregister, hbound⟩ := compileOp_metadata hmap hrun
      refine ⟨register, hbound name hname, ?_⟩
      rw [hcontents first (List.mem_of_mem_head? hfirst) register hregister]
      exact h tensors out hshape hvalue first hfirst

/-- The outputs of a metadata node may stand for its first input exactly if a transposition keeps the order of the axes
that are not of length one, and a concatenation joins only empty tensors to its first operand. -/
theorem aliasSound_iff (hmap : mapNode ops node shapes = .ok (.metadata op)) :
    AliasSound node op shapeOf ↔ node.output = [] ∨ Harmless node (node.input.map shapeOf) := by
  obtain ⟨hmeta, -⟩ | ⟨-, instruction, hop⟩ := mapNode_ok hmap
  · rw [aliasSound_iff_keepsBuffer hmap, keepsBuffer_iff hmeta]
  · cases hop

/-- A transposition without an attribute. -/
def turned : NodeProto := ⟨"t", "Transpose", ["a"], ["c"], []⟩

/-- A concatenation along the first axis. -/
def joined : NodeProto := ⟨"j", "Concat", ["a", "b"], ["c"], [⟨"axis", 0, 0, []⟩]⟩

/-- A square with a single element that is not zero, above the diagonal. -/
def square : Tensor := marked [2, 2] 1

theorem aliasSound_turned_joined :
    mapNode noOps turned (fun _ => none) = .ok (.metadata ⟨"Transpose", ["a"], ["c"]⟩) ∧
      onnxBuffer turned [square] = some [default, default, spike, default] ∧
      square.data = [default, spike, default, default] ∧
      ¬AliasSound turned ⟨"Transpose", ["a"], ["c"]⟩ (fun _ => [2, 2]) ∧
    mapNode noOps joined (fun _ => none) = .ok (.metadata ⟨"Concat", ["a", "b"], ["c"]⟩) ∧
      onnxBuffer joined [marked [1] 0, marked [1] 0] = some [spike, spike] ∧
      ¬AliasSound joined ⟨"Concat", ["a", "b"], ["c"]⟩ (fun _ => [1]) := by
  refine ⟨rfl, by decide +kernel, by decide +kernel, fun h => ?_, rfl, by decide +kernel, fun h => ?_⟩
  · obtain ⟨register, hregister, hout⟩ := h inputState _ (inputContents fun _ => square) (fun _ => square)
      [default, default, spike, default] rfl (fun _ _ => rfl) (fun _ _ _ hregister => Option.some.inj hregister ▸ rfl)
      (by decide +kernel) "c" (.head _)
    have hregister' : some (Register.graphInput "a") = some register := hregister
    cases hregister'
    exact absurd hout (by decide +kernel)
  · obtain ⟨register, hregister, hout⟩ := h inputState _ (inputContents fun _ => marked [1] 0) (fun _ => marked [1] 0)
      [spike, spike] rfl (fun _ _ => rfl) (fun _ _ _ hregister => Option.some.inj hregister ▸ rfl)
      (by decide +kernel) "c" (.head _)
    have hregister' : some (Register.graphInput "a") = some register := hregister
    cases hregister'
    exact absurd hout (by decide +kernel)

theorem aliasSound_iff_turned : AliasSound turned ⟨"Transpose", ["a"], ["c"]⟩ (fun _ => [2, 2]) ↔
    ["c"] = [] ∨ Harmless turned [[2, 2]] :=
  aliasSound_iff (show mapNode noOps turned (fun _ => none) = _ from rfl)

end Alias

end Zkie.MetadataAlias
