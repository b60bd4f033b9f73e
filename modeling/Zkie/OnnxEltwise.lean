import Zkie.AssemblerHost
import Zkie.Broadcasting
import Zkie.Checked
import Zkie.Onnx

namespace Zkie.OnnxEltwise

open FixedPoint Isa Onnx Synthesis Plonkish HostRun RmsNorm ScalarField
open Assembler Broadcasting
open AssemblerConfig (hostOp hostOperands)

section Executor

/-- What a message about an overflow says. -/
inductive OverflowMessage where
  | text (message : String)
  | fixedPoint (error : FixedPointError)
  deriving DecidableEq, Repr

/-- The errors that an elementwise instruction can end with; the last one stands for a panic. -/
inductive BackendError where
  | shapeMismatch (instruction : ℕ) (message : String)
  | arithmeticOverflow (instruction : ℕ) (message : OverflowMessage)
  | panicked
  deriving DecidableEq, Repr

def expectOperands (index : ℕ) (name : String) (operands : List (List I18)) (expected : ℕ) : Except BackendError Unit :=
  if operands.length = expected then .ok ()
  else .error (.shapeMismatch index s!"{name} expected {expected} operands, got {operands.length}")

/-- One element of the output; the caller lets only additions and multiplications through. -/
def element (index : ℕ) (a b : I18) : EltwiseOp → Except BackendError I18
  | .add => orElse (.arithmeticOverflow index (.text "eltwise add")) (checkedAdd a b)
  | .mul => ((requantizeMul a b).map Prod.fst).mapError fun error => .arithmeticOverflow index (.fixedPoint error)
  | .relu => .error .panicked

def eltwise (index : ℕ) (operands : List (List I18)) (op : EltwiseOp) : Except BackendError (List I18) := do
  expectOperands index "Eltwise" operands 2
  let a := operands.getD 0 []
  let b := operands.getD 1 []
  if a.length = 0 ∨ b.length = 0 ∨ max a.length b.length % a.length ≠ 0 ∨ max a.length b.length % b.length ≠ 0 then
    .error (.shapeMismatch index s!"Eltwise operands are not broadcast-compatible: {a.length}, {b.length}")
  else
    (List.range (max a.length b.length)).mapM fun position =>
      element index (a.getD (position % a.length) default) (b.getD (position % b.length) default) op

theorem element_ok {index : ℕ} {a b c : I18} {op : EltwiseOp} : element index a b op = .ok c ↔ hostOp op a b = some c := by
  cases op with
  | add =>
      rw [element, hostOp, orElse]
      cases checkedAdd a b <;> simp
  | mul =>
      rw [element, hostOp, mulFloor]
      cases requantizeMul a b <;> simp [Except.map, Except.mapError, Except.toOption]
  | relu => simp [element, hostOp]

/-- The executor accepts the operands that the assembler accepts and computes the same values. -/
theorem eltwise_ok {index : ℕ} {a b out : List I18} {op : EltwiseOp} : eltwise index [a, b] op = .ok out ↔
    Broadcastable a.length b.length ∧ broadcast (hostOp op) a b = some out := by
  have hexpect : expectOperands index "Eltwise" [a, b] 2 = .ok () := rfl
  rw [eltwise, hexpect]
  change (if a.length = 0 ∨ b.length = 0 ∨ max a.length b.length % a.length ≠ 0 ∨ max a.length b.length % b.length ≠ 0 then
    Except.error _ else _) = _ ↔ _
  by_cases hb : Broadcastable a.length b.length
  · obtain ⟨ha0, ha, hb0, hb'⟩ := hb
    rw [if_neg (by tauto), Checked.mapM_eq_ok, broadcast, Checked.mapM_eq_some]
    simp only [element_ok]
    exact ⟨fun h => ⟨⟨ha0, ha, hb0, hb'⟩, h⟩, fun h => h.2⟩
  · rw [if_pos (by unfold Broadcastable at hb; tauto)]
    constructor
    · intro h
      cases h
    · intro h
      exact absurd h.1 hb

end Executor

section Agreement

/-- The operations of the nodes with two operands that are mapped to an elementwise instruction. -/
def binaryOp : String → Option EltwiseOp
  | "Add" => some .add
  | "Mul" => some .mul
  | _ => none

theorem mapNode_binaryOp (floats : FloatOps) {node : NodeProto} (shapes : Shapes) {op : EltwiseOp}
    (h : binaryOp node.opType = some op) : mapNode floats node shapes = .ok (.instruction (.eltwise op) node.input node.output) := by
  unfold binaryOp at h
  unfold mapNode
  split at h <;> simp_all [instructionOp]

/-- The value of a node: the operation on elements of its operands, after broadcasting. -/
def onnxValue (op : EltwiseOp) (s t : List ℕ) (a b : List I18) : Option (List I18) := broadcastWith (hostOp op) s t a b

/-- On operands of two shapes, what is accepted computes the value of the node. -/
structure AgreesWithOnnx (op : EltwiseOp) (s t : List ℕ) : Prop where
  executor : ∀ index a b out, a.length = s.prod → b.length = t.prod → eltwise index [a, b] op = .ok out →
    onnxValue op s t a b = some out
  assembler : ∀ (config : AssemblerConfig) (cs : ConstraintSystem Fr) (floats : Floats) (known : Bool) (regs : Registers)
    (aRef bRef : RegisterRef) (x y out : RegisterCells) n es n', config.Installed cs →
    regs.get? aRef = some x → regs.get? bRef = some y → x.values.length = s.prod → y.values.length = t.prod →
    config.assignInstruction floats regs ⟨.eltwise op, [aRef, bRef]⟩ known n = .ok (out, es, n') →
    onnxValue op s t x.values y.values = some out.values

variable {op : EltwiseOp} {s t : List ℕ} {a b out : List I18}

theorem onnxValue_of_periodic (h : Periodic s t) (ha : a.length = s.prod) (hb : b.length = t.prod) :
    onnxValue op s t a b = broadcast (hostOp op) a b := by
  obtain ⟨shape, hshape, hprod, hindex⟩ := h
  rw [onnxValue, broadcastWith, hshape, Option.bind_eq_bind, Option.bind_some, broadcast, ha, hb, ← hprod]
  apply Checked.mapM_congr
  intro p hp
  obtain ⟨hs, ht⟩ := hindex p (List.mem_range.mp hp)
  rw [hs, ht]

theorem scale18_lower : -signedShift ≤ scale18 := by decide

theorem scale18_upper : scale18 < signedShift := by decide

def one : I18 := ⟨scale18, scale18_lower, scale18_upper⟩

def bit (c : Bool) : I18 := if c then one else default

/-- On zeros and ones both operations have values, and that of two ones is another than the rest. -/
theorem exists_bitValues (h : op ≠ .relu) : ∃ z : Bool → Bool → I18, (∀ c d, hostOp op (bit c) (bit d) = some (z c d)) ∧
    ∀ c d, z c d = z true true → c = true ∧ d = true := by
  cases op with
  | add =>
      refine ⟨fun c d => (checkedAdd (bit c) (bit d)).getD default, ?_, ?_⟩
      · decide +kernel
      · decide +kernel
  | mul =>
      refine ⟨fun c d => (mulFloor (bit c) (bit d)).getD default, ?_, ?_⟩
      · decide +kernel
      · decide +kernel
  | relu => exact absurd rfl h

/-- A tensor of zeros and ones. -/
def bits (n : ℕ) (q : ℕ → Bool) : List I18 := (List.range n).map fun i => bit (q i)

@[simp]
theorem bits_length (n : ℕ) (q : ℕ → Bool) : (bits n q).length = n := by simp [bits]

theorem bits_getD (n : ℕ) (q : ℕ → Bool) (i : ℕ) : (bits n q).getD i default = bit (decide (i < n) && q i) := by
  by_cases hi : i < n
  · simp [bits, hi]
  · rw [List.getD_eq_default _ _ (by simpa using hi), decide_eq_false hi]
    rfl

section Bits

variable {z : Bool → Bool → I18} (hz : ∀ c d, hostOp op (bit c) (bit d) = some (z c d))

include hz

theorem broadcast_bits (m n : ℕ) (q r : ℕ → Bool) : broadcast (hostOp op) (bits m q) (bits n r) = some
    ((List.range (max m n)).map fun e => z (decide (e % m < m) && q (e % m)) (decide (e % n < n) && r (e % n))) := by
  simp only [broadcast, bits_length, bits_getD, hz]
  exact Checked.mapM_eq_some_map fun _ _ => rfl

theorem onnxValue_bits {m n : ℕ} {q r : ℕ → Bool} (h : onnxValue op s t (bits m q) (bits n r) = some out) :
    ∃ shape, broadcastShape s t = some shape ∧ out = (List.range shape.prod).map fun p =>
      z (decide (operandIndex s shape p < m) && q (operandIndex s shape p))
        (decide (operandIndex t shape p < n) && r (operandIndex t shape p)) := by
  obtain ⟨shape, hshape, h⟩ := Option.bind_eq_some_iff.mp h
  simp only [bits_getD, hz] at h
  rw [Checked.mapM_eq_some_map fun _ _ => rfl] at h
  exact ⟨shape, hshape, (Option.some.inj h).symm⟩

end Bits

/-- Tensors of zeros and ones tell from which elements the outputs come. -/
theorem periodic_of_agrees (hop : op ≠ .relu) (hs : s.prod ≠ 0) (ht : t.prod ≠ 0)
    (h : ∀ a b out, a.length = s.prod → b.length = t.prod → broadcast (hostOp op) a b = some out →
      onnxValue op s t a b = some out) : Periodic s t := by
  obtain ⟨z, hz, hones⟩ := exists_bitValues hop
  have hvalue := fun q r => onnxValue_bits hz
    (h _ _ _ (bits_length s.prod q) (bits_length t.prod r) (broadcast_bits hz s.prod t.prod q r))
  obtain ⟨shape, hshape, hall⟩ := hvalue (fun _ => true) (fun _ => true)
  have hprod : shape.prod = max s.prod t.prod := by
    have hlength := congrArg List.length hall
    simpa using hlength.symm
  refine ⟨shape, hshape, hprod, fun p hp => ?_⟩
  obtain ⟨shape', hshape', hmarked⟩ := hvalue (· = p % s.prod) (· = p % t.prod)
  rw [hshape] at hshape'
  cases hshape'
  have hget := congrArg (·[p]?) hmarked
  have hls := Nat.mod_lt p (Nat.pos_of_ne_zero hs)
  have hlt := Nat.mod_lt p (Nat.pos_of_ne_zero ht)
  simp only [List.getElem?_map, List.getElem?_range hp, List.getElem?_range (hprod ▸ hp), Option.map_some, hls, hlt,
    decide_true, Bool.and_self, Option.some.injEq] at hget
  have hread := hones _ _ hget.symm
  simp only [Bool.and_eq_true, decide_eq_true_eq] at hread
  exact ⟨hread.1.2, hread.2.2⟩

theorem hostInstruction_eltwise {config : AssemblerConfig} {floats : Floats} {known : Bool} {regs : Registers}
    {aRef bRef : RegisterRef} {x y : RegisterCells} (hop : op ≠ .relu) (hx : regs.get? aRef = some x)
    (hy : regs.get? bRef = some y) (h : config.hostInstruction floats known regs.toValues ⟨.eltwise op, [aRef, bRef]⟩ = some out) :
    Broadcastable x.values.length y.values.length ∧ broadcast (hostOp op) x.values y.values = some out := by
  simp only [AssemblerConfig.hostInstruction, hostOperands, Registers.toValues_get?, hx, hy, Option.map_some,
    Option.bind_eq_bind, Option.bind_some] at h
  cases op with
  | add | mul =>
      simp only [AssemblerConfig.hostBinary] at h
      split at h
      · rename_i hb
        exact ⟨hb, h⟩
      · cases h
  | relu => exact absurd rfl hop

/-- What is accepted is the value of the node exactly if one of the shapes is the end of the other. -/
theorem agreesWithOnnx_iff (hop : op ≠ .relu) :
    AgreesWithOnnx op s t ↔ (Broadcastable s.prod t.prod → Trailing s t ∨ Trailing t s) := by
  constructor
  · intro hagrees hb
    have hs := hb.1
    have ht := hb.2.2.1
    apply (periodic_iff_trailing hs ht).mp
    apply periodic_of_agrees hop hs ht
    intro a b out ha hb' hout
    exact hagrees.executor 0 a b out ha hb' (eltwise_ok.mpr ⟨by rwa [ha, hb'], hout⟩)
  · intro htrailing
    have hvalue : ∀ a b out, a.length = s.prod → b.length = t.prod → Broadcastable a.length b.length →
        broadcast (hostOp op) a b = some out → onnxValue op s t a b = some out := by
      intro a b out ha hb hbroadcast hout
      rw [ha, hb] at hbroadcast
      have hperiodic := (periodic_iff_trailing hbroadcast.1 hbroadcast.2.2.1).mpr (htrailing hbroadcast)
      rw [onnxValue_of_periodic hperiodic ha hb, hout]
    refine ⟨fun index a b out ha hb hrun => ?_, ?_⟩
    · obtain ⟨hbroadcast, hout⟩ := eltwise_ok.mp hrun
      exact hvalue a b out ha hb hbroadcast hout
    · intro config cs floats known regs aRef bRef x y out n es n' hinstalled hx hy hxs hys hrun
      obtain ⟨-, hout⟩ := (AssemblerConfig.assignInstruction_decides hinstalled regs ⟨.eltwise op, [aRef, bRef]⟩ n).1 _ _ _ hrun
      obtain ⟨hbroadcast, hout⟩ := hostInstruction_eltwise hop hx hy hout
      exact hvalue _ _ _ hxs hys hbroadcast hout

theorem binaryOp_ne_relu {opType : String} (h : binaryOp opType = some op) : op ≠ .relu := by
  rintro rfl
  unfold binaryOp at h
  split at h <;> cases h

/-- The nodes with two operands, and when what is accepted for them is their value. -/
theorem mapNode_agrees_iff (floats : FloatOps) (node : NodeProto) (shapes : Shapes) (op : EltwiseOp) (s t : List ℕ)
    (h : binaryOp node.opType = some op) :
    mapNode floats node shapes = .ok (.instruction (.eltwise op) node.input node.output) ∧
      (AgreesWithOnnx op s t ↔ (Broadcastable s.prod t.prod → Trailing s t ∨ Trailing t s)) :=
  ⟨mapNode_binaryOp floats shapes h, agreesWithOnnx_iff (binaryOp_ne_relu h)⟩

def addNode : NodeProto := ⟨"sum", "Add", ["a", "b"], ["c"], []⟩

theorem mapNode_agrees_iff_addNode : mapNode ⟨fun _ => false, fun _ => 0⟩ addNode (fun _ => none) =
    .ok (.instruction (.eltwise .add) ["a", "b"] ["c"]) ∧
      (AgreesWithOnnx .add [2, 3] [3] ↔ (Broadcastable 6 3 → Trailing [2, 3] [3] ∨ Trailing [3] [2, 3])) :=
  mapNode_agrees_iff _ addNode _ .add [2, 3] [3] rfl

def tensor (values : List ℕ) : List I18 := values.map fun v => (I18.ofInt? v).getD default

/-- A column is added as if it were a row, and shapes without a common shape are accepted. -/
theorem eltwise_column :
    eltwise 0 [tensor [0, 0, 0, 0], tensor [1, 2]] .add = .ok (tensor [1, 2, 1, 2]) ∧
      onnxValue .add [2, 2] [2, 1] (tensor [0, 0, 0, 0]) (tensor [1, 2]) = some (tensor [1, 1, 2, 2]) ∧
      eltwise 0 [tensor [0, 0, 0, 0, 0, 0], tensor [1, 2]] .add = .ok (tensor [1, 2, 1, 2, 1, 2]) ∧
      broadcastShape [2, 3] [2] = none ∧
      ¬AgreesWithOnnx .add [2, 2] [2, 1] ∧ ¬AgreesWithOnnx .add [2, 3] [2] := by
  have hcolumn : eltwise 0 [tensor [0, 0, 0, 0], tensor [1, 2]] .add = .ok (tensor [1, 2, 1, 2]) := by decide +kernel
  have hvalue : onnxValue .add [2, 2] [2, 1] (tensor [0, 0, 0, 0]) (tensor [1, 2]) = some (tensor [1, 1, 2, 2]) := by
    decide +kernel
  have hrow : eltwise 0 [tensor [0, 0, 0, 0, 0, 0], tensor [1, 2]] .add = .ok (tensor [1, 2, 1, 2, 1, 2]) := by
    decide +kernel
  refine ⟨hcolumn, hvalue, hrow, by decide, fun hagrees => ?_, fun hagrees => ?_⟩
  · have hout := hagrees.executor 0 _ _ _ rfl rfl hcolumn
    rw [hvalue] at hout
    exact absurd hout (by decide +kernel)
  · have hout := hagrees.executor 0 _ _ _ rfl rfl hrow
    have hnone : onnxValue .add [2, 3] [2] (tensor [0, 0, 0, 0, 0, 0]) (tensor [1, 2]) = none := rfl
    rw [hnone] at hout
    cases hout

end Agreement

end Zkie.OnnxEltwise
