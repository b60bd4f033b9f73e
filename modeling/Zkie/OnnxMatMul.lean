import Zkie.AssemblerHost
import Zkie.Binary32
import Zkie.Broadcasting
import Zkie.Checked
import Zkie.Onnx

namespace Zkie.OnnxMatMul

open FixedPoint Isa Onnx Synthesis Plonkish HostRun RmsNorm ScalarField DotProduct
open Assembler Broadcasting Checked

section Meaning

/-- A tensor of fixed-point numbers, in row-major order. -/
structure Tensor where
  shape : List ℕ
  data : List I18
  size : data.length = shape.prod

namespace Tensor

def batch (t : Tensor) : List ℕ := t.shape.take (t.shape.length - 2)

def rows (t : Tensor) : ℕ := t.shape.getD (t.shape.length - 2) 0

def cols (t : Tensor) : ℕ := t.shape.getD (t.shape.length - 1) 0

/-- An element of one of the matrices that a tensor consists of, or of its transpose. -/
def entry (t : Tensor) (trans : Bool) (matrix i j : ℕ) : ℤ :=
  (t.data.getD (matrix * (t.rows * t.cols) + if trans then j * t.cols + i else i * t.cols + j) default).raw

/-- The number of rows of the matrices, or of their transposes. -/
def effRows (t : Tensor) (trans : Bool) : ℕ := if trans then t.cols else t.rows

def effCols (t : Tensor) (trans : Bool) : ℕ := if trans then t.rows else t.cols

end Tensor

/-- `alpha * A * B + beta * C` on matrices, and on stacks of matrices whose leading dimensions are broadcast. The exact
value of an element is rounded down. A number that is not finite has no value. -/
def product (alpha beta : Option ℚ) (transA transB : Bool) (a b : Tensor) (c : Option Tensor) : Option (List I18) :=
  if a.effCols transA ≠ b.effRows transB then none
  else do
    let batch ← broadcastShape a.batch b.batch
    (List.range batch.prod ×ˢ positions (a.effRows transA) (b.effCols transB)).mapM fun e => do
      let alpha ← alpha
      let bias ← c.elim (some 0) fun c => do
        let beta ← beta
        let _ ← broadcastShape c.shape [a.effRows transA, b.effCols transB]
        return beta * (c.data.getD (operandIndex c.shape [a.effRows transA, b.effCols transB]
          (e.2.1 * b.effCols transB + e.2.2)) default).raw
      let sum := ∑ l ∈ Finset.range (a.effCols transA), a.entry transA (operandIndex a.batch batch e.1) e.2.1 l *
        b.entry transB (operandIndex b.batch batch e.1) l e.2.2
      I18.ofInt? ⌊alpha * sum / scale18 + bias⌋

def alphaOf (node : NodeProto) : Option ℚ :=
  if node.opType = "Gemm" then Binary32.value (attrF32 node "alpha" Binary32.one) else some 1

def betaOf (node : NodeProto) : Option ℚ := Binary32.value (attrF32 node "beta" Binary32.one)

def transposes (node : NodeProto) (name : String) : Bool := node.opType = "Gemm" ∧ attrI64 node name 0 ≠ 0

/-- The value of a `MatMul` or `Gemm` node on tensors with at least two dimensions. -/
def onnxValue (node : NodeProto) : List Tensor → Option (List I18)
  | [a, b] => product (alphaOf node) (betaOf node) (transposes node "transA") (transposes node "transB") a b none
  | [a, b, c] => product (alphaOf node) (betaOf node) (transposes node "transA") (transposes node "transB") a b (some c)
  | _ => none

end Meaning

section Mapping

variable {ops : FloatOps} {node : NodeProto} {shapes : Shapes} {m n k : UInt64} {batchDims : List UInt64}
  {transA transB : Bool} {ins outs : List String}

/-- How the sizes of a matrix product come from the shapes of its operands. -/
structure Sizes (node : NodeProto) (shapes : Shapes) (m n k : UInt64) (batchDims : List UInt64) (transA transB : Bool)
    (aShape bShape : List UInt64) : Prop where
  transA_eq : transA = transposes node "transA"
  transB_eq : transB = transposes node "transB"
  aRank : 2 ≤ aShape.length
  bRank : 2 ≤ bShape.length
  aDims : lastTwoDims aShape transA = (m, k)
  bDims : lastTwoDims bShape transB = (k, n)
  batch : batchDims = aShape.take (aShape.length - 2)
  gemm : node.opType = "Gemm" → aShape.length = 2 ∧ bShape.length = 2

theorem mapMatmulOrGemm_sizes {allowBatchDims : Bool}
    (hA : transA = transposes node "transA") (hB : transB = transposes node "transB")
    (hgemm : node.opType = "Gemm" → allowBatchDims = false) {op : MappedOp}
    (h : mapMatmulOrGemm node shapes transA transB allowBatchDims = .ok op) : ∃ m n k batchDims aName bName aShape bShape,
      op = .instruction (.dotGeneral m n k batchDims transA transB) node.input node.output ∧
      node.input[0]? = some aName ∧ node.input[1]? = some bName ∧ shapes aName = some aShape ∧
      shapes bName = some bShape ∧ Sizes node shapes m n k batchDims transA transB aShape bShape := by
  unfold mapMatmulOrGemm at h
  simp only [bind_eq_ok] at h
  obtain ⟨aName, ha, bName, hb, aShape, hashape, bShape, hbshape, h⟩ := h
  split_ifs at h with ha2 hb2 haRank hbRank hk
  cases h
  rw [ne_eq, not_not] at hk
  refine ⟨_, _, _, _, aName, bName, aShape, bShape, rfl, orElse_eq_ok.mp ha, orElse_eq_ok.mp hb, orElse_eq_ok.mp hashape,
    orElse_eq_ok.mp hbshape, hA, hB, by omega, by omega, rfl, ?_, rfl, fun hg => ?_⟩
  · rw [hk]
  · have hflag := hgemm hg
    exact ⟨by_contra fun hne => haRank ⟨hflag, hne⟩, by_contra fun hne => hbRank ⟨hflag, hne⟩⟩

/-- Only two types of nodes are mapped to a matrix product. -/
theorem mapNode_other (hmat : node.opType ≠ "MatMul") (hgemm : node.opType ≠ "Gemm") :
    mapNode ops node shapes ≠ .ok (.instruction (.dotGeneral m n k batchDims transA transB) ins outs) := by
  intro h
  unfold mapNode at h
  rw [if_neg hmat, if_neg hgemm] at h
  have hdim : ∀ {f : UInt64 → Instruction}, (∀ dim, f dim ≠ .dotGeneral m n k batchDims transA transB) →
      (axisDim node shapes >>= fun dim => pure (instructionOp node (f dim))) ≠
        .ok (.instruction (.dotGeneral m n k batchDims transA transB) ins outs) := by
    intro f hf h
    obtain ⟨dim, -, h⟩ := bind_eq_ok.mp h
    exact hf dim (MappedOp.instruction.inj (Except.ok.inj h)).1
  split_ifs at h
  · cases h
  · cases h
  · cases h
  · exact hdim (f := .softmax) (fun _ => nofun) h
  · cases h
  · exact hdim (f := fun dim => .layerNorm dim (ops.milli (attrF32 node "epsilon" defaultEpsilon))) (fun _ => nofun) h
  · unfold mapReduceMean at h
    split at h
    · simp only [bind_eq_ok] at h
      obtain ⟨_, -, _, -, h⟩ := h
      cases h
    · cases h
  · unfold mapGather at h
    simp only [bind_eq_ok] at h
    obtain ⟨_, -, _, -, h⟩ := h
    split at h
    · split_ifs at h
      cases h
    · cases h
  · cases h

/-- A node that is mapped to a matrix product has its sizes from the shapes of its first two inputs. -/
theorem mapNode_dotGeneral
    (h : mapNode ops node shapes = .ok (.instruction (.dotGeneral m n k batchDims transA transB) ins outs)) :
    ∃ aName bName aShape bShape, node.input[0]? = some aName ∧ node.input[1]? = some bName ∧ shapes aName = some aShape ∧
      shapes bName = some bShape ∧ Sizes node shapes m n k batchDims transA transB aShape bShape := by
  by_cases hmat : node.opType = "MatMul"
  · rw [mapNode, if_pos hmat] at h
    obtain ⟨_, _, _, _, aName, bName, aShape, bShape, hop, ha, hb, hashape, hbshape, hsizes⟩ :=
      mapMatmulOrGemm_sizes (by simp [transposes, hmat]) (by simp [transposes, hmat]) (by simp [hmat]) h
    cases hop
    exact ⟨aName, bName, aShape, bShape, ha, hb, hashape, hbshape, hsizes⟩
  · by_cases hgemm : node.opType = "Gemm"
    · rw [mapNode, if_neg hmat, if_pos hgemm] at h
      obtain ⟨_, _, _, _, aName, bName, aShape, bShape, hop, ha, hb, hashape, hbshape, hsizes⟩ :=
        mapMatmulOrGemm_sizes (by simp [transposes, hgemm]) (by simp [transposes, hgemm]) (fun _ => rfl) h
      cases hop
      exact ⟨aName, bName, aShape, bShape, ha, hb, hashape, hbshape, hsizes⟩
    · exact absurd h (mapNode_other hmat hgemm)

end Mapping

section Values

variable {m n k : ℕ} {transA transB trans : Bool} {a b t : Tensor} {alpha beta : Option ℚ}

theorem Tensor.size_eq (h : 2 ≤ t.shape.length) : t.data.length = t.batch.prod * (t.rows * t.cols) := by
  have hdrop : t.shape.drop (t.shape.length - 2) = [t.rows, t.cols] := by
    rw [List.drop_eq_getElem_cons (by omega), List.drop_eq_getElem_cons (by omega), List.drop_eq_nil_of_le (by omega)]
    rw [Tensor.rows, Tensor.cols, List.getD_eq_getElem _ _ (by omega), List.getD_eq_getElem _ _ (by omega)]
    congr 3
    omega
  have hprod : t.shape.prod = t.batch.prod * [t.rows, t.cols].prod := by
    rw [← hdrop, Tensor.batch, ← List.prod_append, List.take_append_drop]
  rw [t.size, hprod]
  simp

theorem Tensor.effRows_mul_effCols (t : Tensor) (trans : Bool) : t.effRows trans * t.effCols trans = t.rows * t.cols := by
  cases trans with
  | true => exact Nat.mul_comm _ _
  | false => rfl

theorem Tensor.effDims {shape : List UInt64} {p q : UInt64} (hshape : t.shape = shape.map UInt64.toNat)
    (h : lastTwoDims shape trans = (p, q)) : t.effRows trans = p.toNat ∧ t.effCols trans = q.toNat := by
  have hget : ∀ i, (shape.map UInt64.toNat).getD i 0 = (shape.getD i 0).toNat := fun _ =>
    List.getD_map shape 0 UInt64.toNat
  rw [Tensor.effRows, Tensor.effCols, Tensor.rows, Tensor.cols, hshape, List.length_map, hget, hget]
  unfold lastTwoDims at h
  cases trans with
  | true =>
      obtain ⟨rfl, rfl⟩ := Prod.mk.inj h
      exact ⟨rfl, rfl⟩
  | false =>
      obtain ⟨rfl, rfl⟩ := Prod.mk.inj h
      exact ⟨rfl, rfl⟩

/-- The index maps of the node and of the assembler are the same. -/
theorem Tensor.entry_physA (hm : a.effRows transA = m) (hk : a.effCols transA = k) (i l : ℕ) :
    a.entry transA 0 i l = (a.data.getD (physA m k transA i l) default).raw := by
  subst hm hk
  cases transA <;> simp [Tensor.entry, physA, Tensor.effRows, Tensor.effCols]

theorem Tensor.entry_physB (hk : b.effRows transB = k) (hn : b.effCols transB = n) (l j : ℕ) :
    b.entry transB 0 l j = (b.data.getD (physB n k transB l j) default).raw := by
  subst hk hn
  cases transB <;> simp [Tensor.entry, physB, Tensor.effRows, Tensor.effCols]

theorem sum_entries (hm : a.effRows transA = m) (hka : a.effCols transA = k) (hkb : b.effRows transB = k)
    (hn : b.effCols transB = n) (i j : ℕ) :
    ∑ l ∈ Finset.range k, a.entry transA 0 i l * b.entry transB 0 l j =
      dotSum (pick a.data (rowA m k transA i)) (pick b.data (columnB n k transB j)) := by
  rw [pick, pick, rowA, columnB, List.map_map, List.map_map, DotProductConfig.dotSum_range]
  apply Finset.sum_congr rfl
  intro l _
  rw [Tensor.entry_physA hm hka, Tensor.entry_physB hkb hn]
  rfl

/-- The element at `(i, j)`. -/
def scaledDot (alpha : Option ℚ) (a b : List I18) : Option I18 := do
  let alpha ← alpha
  I18.ofInt? ⌊alpha * dotSum a b / scale18 + 0⌋

theorem scaledDot_one (a b : List I18) : scaledDot (some 1) a b = dotFloor a b := by
  have hfloor : ⌊(1 : ℚ) * dotSum a b / scale18 + 0⌋ = dotSum a b / scale18 := by
    rw [one_mul, add_zero]
    exact Rat.floor_intCast_div_natCast (dotSum a b) 1000000000000000000
  rw [scaledDot, Option.bind_eq_bind, Option.bind_some, hfloor, dotFloor]

theorem source_zero (s out : List ℕ) : source s out 0 = 0 := by
  induction s generalizing out with
  | nil => rfl
  | cons x s ih =>
      cases out with
      | nil => rfl
      | cons d out => rw [source_cons, Nat.zero_mod, Nat.zero_div, ih, ite_self, Nat.mul_zero]

theorem positions_eq_nil (h : m * n = 0) : positions m n = [] := by
  rcases Nat.mul_eq_zero.mp h with rfl | rfl
  · rfl
  · simp [positions]

/-- A product of two matrices, of which the second may be in a stack of one. -/
theorem product_eq (hm : a.effRows transA = m) (hka : a.effCols transA = k) (hkb : b.effRows transB = k)
    (hn : b.effCols transB = n) (ha : a.batch = []) (hb : b.batch.prod = 1 ∨ m * n = 0) :
    product alpha beta transA transB a b none = (positions m n).mapM fun e =>
      scaledDot alpha (pick a.data (rowA m k transA e.1)) (pick b.data (columnB n k transB e.2)) := by
  have hbatch : broadcastShape a.batch b.batch = some b.batch := by
    rw [ha, broadcastShape_eq_some]
    rfl
  rw [product, if_neg (by rw [hka, hkb]; simp), hbatch, Option.bind_eq_bind, Option.bind_some, hm, hn, hka]
  rcases hb with hb | hb
  · have hrange : List.range b.batch.prod ×ˢ positions m n = (positions m n).map (0, ·) := by
      rw [hb]
      simp [List.range_one]
    rw [hrange, List.mapM_map]
    apply mapM_congr
    intro e _
    have hzero : ∀ s out, operandIndex s out 0 = 0 := fun s out => source_zero _ _
    simp only [Function.comp_apply, hzero, sum_entries hm hka hkb hn, Option.elim_none, Option.bind_some, scaledDot,
      Option.bind_eq_bind]
  · rw [positions_eq_nil hb]
    simp

end Values

section Agreement

variable {ops : FloatOps} {floats : Floats} {domains : RmsNormDomains} {expose : Bool} {node : NodeProto} {shapes : Shapes}
  {config : AssemblerConfig} {cs : ConstraintSystem Fr} {m n k : UInt64} {batchDims : List UInt64} {transA transB : Bool}

/-- The tensors of the names have the shapes that are known for them. -/
def Shaped (node : NodeProto) (shapes : Shapes) (tensors : String → Tensor) : Prop :=
  ∀ name ∈ node.input, ∀ dims, shapes name = some dims → (tensors name).shape = dims.map UInt64.toNat

/-- The registers hold the tensors of the operands. -/
def Hold (regs : Registers) (refs : List RegisterRef) (operands : List Tensor) : Prop :=
  List.Forall₂ (fun ref t => ∃ x, regs.get? ref = some x ∧ x.values = t.data) refs operands

/-- What the assembler produces for the instruction of a node is the value of the node. -/
def MatchesOnnx (config : AssemblerConfig) (floats : Floats) (node : NodeProto) (shapes : Shapes)
    (instruction : Instruction) : Prop :=
  ∀ (known : Bool) (regs : Registers) (refs : List RegisterRef) (tensors : String → Tensor) (out : RegisterCells) i es i',
    Shaped node shapes tensors → Hold regs refs (node.input.map tensors) →
    config.assignInstruction floats regs ⟨instruction, refs⟩ known i = .ok (out, es, i') →
    onnxValue node (node.input.map tensors) = some out.values

/-- The sizes for which the assembler has no error of its own. -/
structure Accepts (node : NodeProto) (m n k : UInt64) (batchDims : List UInt64) : Prop where
  inputs : node.input.length = 2
  batch : batchDims = []
  left : m.toNat * k.toNat < 2 ^ 64
  right : k.toNat * n.toNat < 2 ^ 64
  output : m.toNat * n.toNat < 2 ^ 64

/-- What a run of the assembler says about its operands. -/
theorem run_dotGeneral (h : config.Installed cs) {known : Bool} {regs : Registers} {refs : List RegisterRef}
    {operands : List Tensor} {out : RegisterCells} {i i' : ℕ} {es : List (Event Fr)} (hhold : Hold regs refs operands)
    (hrun : config.assignInstruction floats regs ⟨.dotGeneral m n k batchDims transA transB, refs⟩ known i =
      .ok (out, es, i')) : ∃ a b, operands = [a, b] ∧ batchDims = [] ∧
      DotShape config m n k a.data.length b.data.length ∧
      ((positions m.toNat n.toNat).mapM fun p => hostDot known (pick a.data (rowA m.toNat k.toNat transA p.1))
        (pick b.data (columnB n.toNat k.toNat transB p.2))) = some out.values := by
  obtain ⟨-, hhost⟩ := (AssemblerConfig.assignInstruction_decides h regs
    ⟨.dotGeneral m n k batchDims transA transB, refs⟩ i).1 _ _ _ hrun
  unfold AssemblerConfig.hostInstruction AssemblerConfig.hostOperands at hhost
  split at hhost
  · rename_i aRef bRef heq
    obtain rfl : refs = [aRef, bRef] := heq
    obtain ⟨a, rest, ⟨x, hx, hxa⟩, hrest, rfl⟩ := List.forall₂_cons_left_iff.mp hhold
    obtain ⟨b, rest', ⟨y, hy, hyb⟩, hrest', rfl⟩ := List.forall₂_cons_left_iff.mp hrest
    obtain rfl := List.forall₂_nil_left_iff.mp hrest'
    simp only [Registers.toValues_get?, hx, hy, hxa, hyb, Option.map_some, Option.bind_eq_bind, Option.bind_some,
      AssemblerConfig.hostBinary] at hhost
    split at hhost
    · rename_i hshape
      exact ⟨a, b, rfl, hshape.1, hshape.2, hhost⟩
    · cases hhost
  · cases hhost

theorem dot_pos (h : config.Installed cs) (hk : (findKey k config.dot).isSome) : 0 < k.toNat := by
  obtain ⟨dot, hdot⟩ := Option.isSome_iff_exists.mp hk
  obtain ⟨hinst, hkeq⟩ := h.dot _ (findKey_mem hdot)
  exact hkeq ▸ hinst.pos

/-- Without a factor the product is that of the node. -/
theorem matchesOnnx_of_alpha (h : config.Installed cs)
    (hmap : mapNode ops node shapes = .ok (.instruction (.dotGeneral m n k batchDims transA transB) node.input node.output))
    (halpha : Accepts node m n k batchDims → alphaOf node = some 1 ∨ m.toNat * n.toNat = 0) :
    MatchesOnnx config floats node shapes (.dotGeneral m n k batchDims transA transB) := by
  intro known regs refs tensors out i es i' hshaped hhold hrun
  obtain ⟨a, b, hoperands, hbatch, hdot, hvalues⟩ := run_dotGeneral h hhold hrun
  have hinputs : node.input.length = 2 := by simpa using congrArg List.length hoperands
  obtain ⟨aName, bName, hinput⟩ := List.length_eq_two.mp hinputs
  rw [hinput, List.map_cons, List.map_cons, List.map_nil] at hoperands
  obtain ⟨rfl, hrest⟩ := List.cons.inj hoperands
  obtain ⟨rfl, -⟩ := List.cons.inj hrest
  obtain ⟨aName', bName', aShape, bShape, ha, hb, hashape, hbshape, hsizes⟩ := mapNode_dotGeneral hmap
  rw [hinput] at ha hb
  cases ha
  cases hb
  have haT := hshaped aName (by simp [hinput]) aShape hashape
  have hbT := hshaped bName (by simp [hinput]) bShape hbshape
  obtain ⟨hm, hka⟩ := Tensor.effDims haT hsizes.aDims
  obtain ⟨hkb, hn⟩ := Tensor.effDims hbT hsizes.bDims
  have habatch : (tensors aName).batch = [] := by
    rw [Tensor.batch, haT, List.length_map, ← List.map_take, ← hsizes.batch, hbatch, List.map_nil]
  have hbbatch : (tensors bName).batch.prod = 1 ∨ m.toNat * n.toNat = 0 := by
    rcases Nat.eq_zero_or_pos n.toNat with hzero | hpos
    · exact .inr (by rw [hzero, Nat.mul_zero])
    · left
      have hsize := Tensor.size_eq (t := tensors bName) (by rw [hbT, List.length_map]; exact hsizes.bRank)
      have hdims : (tensors bName).rows * (tensors bName).cols = k.toNat * n.toNat := by
        rw [← hkb, ← hn]
        exact (Tensor.effRows_mul_effCols _ _).symm
      have hkn : 0 < k.toNat * n.toNat := Nat.mul_pos (dot_pos h hdot.2.2.2.1) hpos
      rw [hdot.2.2.1.2, hdims] at hsize
      exact (Nat.eq_of_mul_eq_mul_right hkn (by rw [Nat.one_mul]; exact hsize)).symm
  have haccepts : Accepts node m n k batchDims := ⟨hinputs, hbatch, hdot.1, hdot.2.1, hdot.2.2.2.2⟩
  rw [hinput]
  change product (alphaOf node) (betaOf node) (transposes node "transA") (transposes node "transB") _ _ none = _
  rw [← hsizes.transA_eq, ← hsizes.transB_eq, product_eq hm hka hkb hn habatch hbbatch]
  rcases halpha haccepts with hone | hzero
  · rw [hone]
    refine mapM_imp (fun p z hz => ?_) hvalues
    rw [scaledDot_one]
    exact (AssemblerConfig.hostDot_eq_some.mp hz).2
  · rw [positions_eq_nil hzero] at hvalues ⊢
    exact hvalues

end Agreement

section Scaling

variable {m n k : ℕ} {transA transB : Bool} {a b : List I18}

/-- Its square is a power of two, after rescaling. -/
def spike : I18 := ⟨10 ^ 9 * 2 ^ 31, by norm_num [signedShift], by norm_num [signedShift]⟩

/-- A tensor with one number in front of zeros. -/
def spiked (shape : List ℕ) : Tensor :=
  ⟨shape, (List.range shape.prod).map fun i => if i = 0 then spike else default, by simp⟩

theorem spiked_getD {shape : List ℕ} (h : 0 < shape.prod) (i : ℕ) :
    (spiked shape).data.getD i default = if i = 0 then spike else default := by
  by_cases hi : i < shape.prod
  · simp [spiked, hi]
  · rw [List.getD_eq_default _ _ (by simpa [spiked] using hi), if_neg (by omega)]

theorem physA_eq_zero (hm : 0 < m) (hk : 0 < k) (i l : ℕ) : physA m k transA i l = 0 ↔ i = 0 ∧ l = 0 := by
  unfold physA
  split <;> simp only [Nat.add_eq_zero_iff, Nat.mul_eq_zero] <;> omega

theorem physB_eq_zero (hn : 0 < n) (hk : 0 < k) (l j : ℕ) : physB n k transB l j = 0 ↔ l = 0 ∧ j = 0 := by
  unfold physB
  split <;> simp only [Nat.add_eq_zero_iff, Nat.mul_eq_zero] <;> omega

theorem partialSum_of_tail (h : ∀ v ∈ (products a b).tail, v = 0) (t : ℕ) :
    partialSum a b (t + 1) = (products a b).headD 0 := by
  rw [partialSum]
  cases hlist : products a b with
  | nil => rfl
  | cons v vs =>
      rw [hlist] at h
      have hzero : (vs.take t).sum = 0 := List.sum_eq_zero fun w hw => h w (List.mem_of_mem_take hw)
      rw [List.take_succ_cons, List.sum_cons, List.headD_cons, hzero, add_zero]

/-- All partial sums of the product of two tensors with one number each. -/
theorem partialSum_spiked {s t : List ℕ} (hs : 0 < s.prod) (ht : 0 < t.prod) (hm : 0 < m) (hn : 0 < n) (hk : 0 < k)
    (i j c : ℕ) :
    partialSum (pick (spiked s).data (rowA m k transA i)) (pick (spiked t).data (columnB n k transB j)) (c + 1) =
      if i = 0 ∧ j = 0 then spike.raw * spike.raw else 0 := by
  have hproducts : products (pick (spiked s).data (rowA m k transA i)) (pick (spiked t).data (columnB n k transB j)) =
      (List.range k).map fun l => (if i = 0 ∧ l = 0 then spike else default : I18).raw *
        (if l = 0 ∧ j = 0 then spike else default : I18).raw := by
    simp only [products, pick, rowA, columnB, List.map_map, List.zipWith_map, List.zipWith_self, Function.comp_apply,
      spiked_getD hs, spiked_getD ht, physA_eq_zero hm hk, physB_eq_zero hn hk]
  obtain ⟨k, rfl⟩ := Nat.exists_eq_succ_of_ne_zero hk.ne'
  have hdefault : (default : I18).raw = 0 := rfl
  rw [partialSum_of_tail, hproducts, List.range_succ_eq_map, List.map_cons, List.headD_cons]
  · by_cases hi : i = 0 <;> by_cases hj : j = 0 <;> simp [hi, hj, hdefault]
  · rw [hproducts, List.range_succ_eq_map, List.map_cons, List.tail_cons]
    simp [hdefault]

theorem dotSum_spiked {s t : List ℕ} (hs : 0 < s.prod) (ht : 0 < t.prod) (hm : 0 < m) (hn : 0 < n) (hk : 0 < k) (i j : ℕ) :
    dotSum (pick (spiked s).data (rowA m k transA i)) (pick (spiked t).data (columnB n k transB j)) =
      if i = 0 ∧ j = 0 then spike.raw * spike.raw else 0 := by
  have hlength : (products (pick (spiked s).data (rowA m k transA i)) (pick (spiked t).data (columnB n k transB j))).length =
      k - 1 + 1 := by
    simp only [products, pick, rowA, columnB, List.length_zipWith, List.length_map, List.length_range, min_self]
    omega
  rw [← partialSum_spiked hs ht hm hn hk i j (k - 1), partialSum, ← hlength, List.take_length]
  rfl

/-- The product of two such tensors fits everywhere, and its first element is a power of two. -/
theorem hostDot_spiked {s t : List ℕ} (hs : 0 < s.prod) (ht : 0 < t.prod) (hm : 0 < m) (hn : 0 < n) (hk : 0 < k) (i j : ℕ) :
    hostDot false (pick (spiked s).data (rowA m k transA i)) (pick (spiked t).data (columnB n k transB j)) =
      some (if i = 0 ∧ j = 0 then ⟨2 ^ 62, by norm_num [signedShift], by norm_num [signedShift]⟩ else default) := by
  rw [AssemblerConfig.hostDot_eq_some, dotFloor, dotSum_spiked hs ht hm hn hk, ofInt?_eq_some]
  refine ⟨⟨fun c _ => ?_, fun hfalse => absurd hfalse Bool.false_ne_true⟩, ?_⟩
  · rw [partialSum_spiked hs ht hm hn hk]
    split
    · norm_num [InI128, spike, i128Min]
    · norm_num [InI128, i128Min]
  · split
    · norm_num [spike, scale18]
    · rfl

end Scaling

section Factor

variable {ops : FloatOps} {floats : Floats} {node : NodeProto} {shapes : Shapes} {config : AssemblerConfig}
  {cs : ConstraintSystem Fr} {m n k : UInt64} {batchDims : List UInt64}

/-- A factor that leaves a large number as it is, up to rounding, is one. -/
theorem eq_one_of_floor {bits : UInt32} {q : ℚ} (hq : Binary32.value bits = some q) (h : ⌊q * 2 ^ 62⌋ = 2 ^ 62) : q = 1 := by
  obtain ⟨hle, hlt⟩ := Int.floor_eq_iff.mp h
  push_cast at hle hlt
  rcases Binary32.value_gap hq with hone | hgap
  · apply le_antisymm hone
    linarith
  · linarith

theorem Tensor.matrix {t : Tensor} {trans : Bool} {p q : ℕ} (h : t.shape.length = 2) (hp : t.effRows trans = p)
    (hq : t.effCols trans = q) : t.batch = [] ∧ t.data.length = p * q := by
  have hbatch : t.batch = [] := by
    rw [Tensor.batch, h]
    rfl
  refine ⟨hbatch, ?_⟩
  rw [Tensor.size_eq h.ge, hbatch, List.prod_nil, Nat.one_mul, ← Tensor.effRows_mul_effCols t trans, hp, hq]

/-- An instruction on two inputs runs if it has a value on the host. -/
theorem exists_run (h : config.Installed cs) {known : Bool} {a b values : List I18} {instruction : Instruction}
    (hvalue : config.hostBinary floats known a b instruction = some values) :
    ∃ out es i, config.assignInstruction floats ⟨[⟨a, []⟩, ⟨b, []⟩], [], []⟩ ⟨instruction, [.input 0, .input 1]⟩ known 0 =
      .ok (out, es, i) := by
  have hhost : config.hostInstruction floats known (Registers.toValues ⟨[⟨a, []⟩, ⟨b, []⟩], [], []⟩)
      ⟨instruction, [.input 0, .input 1]⟩ = some values := hvalue
  obtain ⟨⟨out, es, i⟩, hrun⟩ := (AssemblerConfig.assignInstruction_decides h _ _ 0).2
    ⟨trivial, Option.isSome_iff_exists.mpr ⟨values, hhost⟩⟩
  exact ⟨out, es, i, hrun⟩

/-- Tensors with a single number show the factor of the node. -/
theorem alpha_of_product {m n k : ℕ} {transA transB : Bool} {s t : List ℕ} {bits : UInt32} {beta : Option ℚ}
    {values : List I18} (hm : 0 < m) (hn : 0 < n) (hk : 0 < k) (hs : 0 < s.prod) (ht : 0 < t.prod)
    (ham : (spiked s).effRows transA = m) (hak : (spiked s).effCols transA = k) (hbk : (spiked t).effRows transB = k)
    (hbn : (spiked t).effCols transB = n) (ha : (spiked s).batch = []) (hb : (spiked t).batch = [])
    (hproduct : product (Binary32.value bits) beta transA transB (spiked s) (spiked t) none = some values)
    (hvalues : ((positions m n).mapM fun e => hostDot false (pick (spiked s).data (rowA m k transA e.1))
      (pick (spiked t).data (columnB n k transB e.2))) = some values) : Binary32.value bits = some 1 := by
  rw [product_eq ham hak hbk hbn ha (.inl (by rw [hb, List.prod_nil]))] at hproduct
  have hmem : (0, 0) ∈ positions m n := by simp [positions, hm, hn]
  obtain ⟨z, hz, hscaled⟩ := mapM_both hvalues hproduct hmem
  rw [hostDot_spiked hs ht hm hn hk] at hz
  obtain ⟨q, hq, hfloor⟩ := Option.bind_eq_some_iff.mp hscaled
  rw [dotSum_spiked hs ht hm hn hk, ofInt?_eq_some, ← Option.some.inj hz] at hfloor
  have hpower : ⌊q * 2 ^ 62⌋ = 2 ^ 62 := by
    have hexact : q * ((spike.raw * spike.raw : ℤ) : ℚ) / (scale18 : ℚ) + 0 = q * 2 ^ 62 := by
      norm_num [spike, scale18]
      ring
    rw [← hexact]
    exact hfloor.symm
  rw [hq, eq_one_of_floor hq hpower]

/-- A node whose product is accepted and is its value has no factor. -/
theorem alpha_of_matchesOnnx (h : config.Installed cs) (hk : (findKey k config.dot).isSome)
    (hmap : mapNode ops node shapes = .ok (.instruction (.dotGeneral m n k batchDims transA transB) node.input node.output))
    (haccepts : Accepts node m n k batchDims) (hmn : m.toNat * n.toNat ≠ 0)
    (hmatches : MatchesOnnx config floats node shapes (.dotGeneral m n k batchDims transA transB)) :
    alphaOf node = some 1 := by
  by_cases hgemm : node.opType = "Gemm"
  · obtain ⟨aName, bName, aShape, bShape, ha, hb, hashape, hbshape, hsizes⟩ := mapNode_dotGeneral hmap
    obtain ⟨aName', bName', hinput⟩ := List.length_eq_two.mp haccepts.inputs
    rw [hinput] at ha hb
    cases ha
    cases hb
    obtain ⟨haRank, hbRank⟩ := hsizes.gemm hgemm
    have hshaped : Shaped node shapes fun name => spiked (((shapes name).getD []).map UInt64.toNat) := by
      intro name _ dims hdims
      dsimp only [spiked]
      rw [hdims, Option.getD_some]
    obtain ⟨hm, hka⟩ := Tensor.effDims (t := spiked (aShape.map UInt64.toNat)) rfl hsizes.aDims
    obtain ⟨hkb, hn⟩ := Tensor.effDims (t := spiked (bShape.map UInt64.toNat)) rfl hsizes.bDims
    obtain ⟨haBatch, haSize⟩ := Tensor.matrix (by simp [spiked, haRank]) hm hka
    obtain ⟨hbBatch, hbSize⟩ := Tensor.matrix (by simp [spiked, hbRank]) hkb hn
    have hk0 := dot_pos h hk
    have hm0 := Nat.pos_of_ne_zero (left_ne_zero_of_mul hmn)
    have hn0 := Nat.pos_of_ne_zero (right_ne_zero_of_mul hmn)
    have haPos : 0 < (aShape.map UInt64.toNat).prod := by
      rw [Tensor.size] at haSize
      exact haSize ▸ Nat.mul_pos hm0 hk0
    have hbPos : 0 < (bShape.map UInt64.toNat).prod := by
      rw [Tensor.size] at hbSize
      exact hbSize ▸ Nat.mul_pos hk0 hn0
    have hhost : ∃ values, config.hostBinary floats false (spiked (aShape.map UInt64.toNat)).data
        (spiked (bShape.map UInt64.toNat)).data (.dotGeneral m n k batchDims transA transB) = some values := by
      rw [AssemblerConfig.hostBinary, if_pos ⟨haccepts.batch, haccepts.left, haccepts.right, ⟨haSize, hbSize⟩, hk,
        haccepts.output⟩]
      exact ⟨_, mapM_eq_some_map fun e _ => hostDot_spiked haPos hbPos hm0 hn0 hk0 e.1 e.2⟩
    obtain ⟨out, es, i, hrun⟩ := exists_run h hhost.choose_spec
    have hoperands : node.input.map (fun name => spiked (((shapes name).getD []).map UInt64.toNat)) =
        [spiked (aShape.map UInt64.toNat), spiked (bShape.map UInt64.toNat)] := by
      simp [hinput, hashape, hbshape]
    have hhold : Hold ⟨[⟨(spiked (aShape.map UInt64.toNat)).data, []⟩, ⟨(spiked (bShape.map UInt64.toNat)).data, []⟩], [], []⟩
        [.input 0, .input 1] (node.input.map fun name => spiked (((shapes name).getD []).map UInt64.toNat)) := by
      rw [hoperands]
      exact .cons ⟨_, rfl, rfl⟩ (.cons ⟨_, rfl, rfl⟩ .nil)
    have hvalue := hmatches false _ _ _ out 0 es i hshaped hhold hrun
    obtain ⟨a, b, hab, -, -, hvalues⟩ := run_dotGeneral h hhold hrun
    rw [hoperands] at hab hvalue
    cases hab
    change product (alphaOf node) (betaOf node) (transposes node "transA") (transposes node "transB") _ _ none = _ at hvalue
    rw [← hsizes.transA_eq, ← hsizes.transB_eq, alphaOf, if_pos hgemm] at hvalue
    rw [alphaOf, if_pos hgemm]
    exact alpha_of_product hm0 hn0 hk0 haPos hbPos hm hka hkb hn haBatch hbBatch hvalue hvalues
  · rw [alphaOf, if_neg hgemm]

/-- The assembler computes the value of a node exactly if the node has no factor, or has no output, or is rejected. -/
theorem matchesOnnx_iff (ops : FloatOps) (floats : Floats) (domains : RmsNormDomains) (expose : Bool)
    (instructions : List AssemblerInstruction) (config : AssemblerConfig) (cs : ConstraintSystem Fr) (node : NodeProto)
    (shapes : Shapes) (m n k : UInt64) (batchDims : List UInt64) (transA transB : Bool)
    (hconfigure : AssemblerConfig.configureInternal floats instructions domains expose {} = .ok (config, cs))
    (hk : k ∈ dotKs instructions)
    (hmap : mapNode ops node shapes =
      .ok (.instruction (.dotGeneral m n k batchDims transA transB) node.input node.output)) :
    MatchesOnnx config floats node shapes (.dotGeneral m n k batchDims transA transB) ↔
      (Accepts node m n k batchDims → alphaOf node = some 1 ∨ m.toNat * n.toNat = 0) := by
  obtain ⟨-, -, hinstalled, -, hks, -⟩ := AssemblerConfig.configureInternal_installed instructions expose config cs hconfigure
  have hkey := findKey_isSome (hks ▸ hk)
  constructor
  · intro hmatches haccepts
    by_cases hmn : m.toNat * n.toNat = 0
    · exact .inr hmn
    · exact .inl (alpha_of_matchesOnnx hinstalled hkey hmap haccepts hmn hmatches)
  · exact matchesOnnx_of_alpha hinstalled hmap

def noConstants : Floats := ⟨fun _ => none, fun _ => none, fun _ _ _ => none, fun _ => none⟩

def dot111 : Instruction := .dotGeneral 1 1 1 [] false false

/-- A product with the factor two, of two numbers. -/
def doubled : NodeProto := ⟨"double", "Gemm", ["a", "b"], ["c"], [⟨"alpha", 0, 0x40000000, []⟩]⟩

def oneByOne : Shapes := fun _ => some [1, 1]

def noOps : FloatOps := ⟨fun _ => false, fun _ => 0⟩

def fixed (v : ℕ) : I18 := (I18.ofInt? (v * scale18)).getD default

def single (v : ℕ) : Tensor := ⟨[1, 1], [fixed v], rfl⟩

theorem configured_dot111 : ∃ config cs,
    AssemblerConfig.configureInternal noConstants [⟨dot111, [.input 0, .input 1]⟩] [] false {} = .ok (config, cs) := by
  have hok : (AssemblerConfig.configureInternal noConstants [⟨dot111, [.input 0, .input 1]⟩] [] false
    {}).toOption.isSome := by decide +kernel
  obtain ⟨⟨config, cs⟩, hsome⟩ := Option.isSome_iff_exists.mp hok
  exact ⟨config, cs, toOption_eq_some.mp hsome⟩

/-- The factor of a node is left out. -/
theorem matchesOnnx_doubled : mapNode noOps doubled oneByOne = .ok (.instruction dot111 ["a", "b"] ["c"]) ∧
    onnxValue doubled [single 1, single 1] = some [fixed 2] ∧ ∃ config cs,
    AssemblerConfig.configureInternal noConstants [⟨dot111, [.input 0, .input 1]⟩] [] false {} = .ok (config, cs) ∧
      config.hostBinary noConstants true [fixed 1] [fixed 1] dot111 = some [fixed 1] ∧
      ¬MatchesOnnx config noConstants doubled oneByOne dot111 := by
  obtain ⟨config, cs, hconfigure⟩ := configured_dot111
  obtain ⟨-, -, hinstalled, -, hks, -⟩ := AssemblerConfig.configureInternal_installed _ false config cs hconfigure
  have hkey : (findKey 1 config.dot).isSome := findKey_isSome (by rw [hks]; decide +kernel)
  have hdotted : ((positions 1 1).mapM fun p => hostDot true (pick [fixed 1] (rowA 1 1 false p.1))
      (pick [fixed 1] (columnB 1 1 false p.2))) = some [fixed 1] := by decide +kernel
  refine ⟨rfl, by decide +kernel, config, cs, hconfigure, ?_, fun hmatches => ?_⟩
  · rw [dot111, AssemblerConfig.hostBinary, if_pos ⟨rfl, by decide, by decide, ⟨rfl, rfl⟩, hkey, by decide⟩]
    exact hdotted
  · have hmap : mapNode noOps doubled oneByOne = .ok (.instruction dot111 ["a", "b"] ["c"]) := rfl
    have haccepts : Accepts doubled 1 1 1 [] := ⟨rfl, rfl, by decide, by decide, by decide⟩
    have hone : alphaOf doubled = some 1 := alpha_of_matchesOnnx hinstalled hkey hmap haccepts (by decide) hmatches
    exact absurd hone (by decide +kernel)

theorem matchesOnnx_iff_doubled : ∃ config cs,
    AssemblerConfig.configureInternal noConstants [⟨dot111, [.input 0, .input 1]⟩] [] false {} = .ok (config, cs) ∧
      (MatchesOnnx config noConstants doubled oneByOne dot111 ↔
        (Accepts doubled 1 1 1 [] → alphaOf doubled = some 1 ∨ (1 : UInt64).toNat * (1 : UInt64).toNat = 0)) := by
  obtain ⟨config, cs, hconfigure⟩ := configured_dot111
  exact ⟨config, cs, hconfigure, matchesOnnx_iff noOps _ _ _ _ config cs doubled oneByOne 1 1 1 [] false false hconfigure
    (by decide +kernel) rfl⟩

end Factor

end Zkie.OnnxMatMul
