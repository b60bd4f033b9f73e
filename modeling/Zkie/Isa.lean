import Zkie.DotProduct
import Zkie.RmsNorm

namespace Zkie.Isa

open FixedPoint HostRun DotProduct RmsNorm Lookup

inductive EltwiseOp where
  | add
  | mul
  | relu
  deriving DecidableEq, Repr

inductive ReduceOp where
  | sum
  | mean
  deriving DecidableEq, Repr

inductive Instruction where
  | dotGeneral (m n k : UInt64) (batchDims : List UInt64) (transA transB : Bool)
  | softmax (axisDim : UInt64)
  | gelu
  | layerNorm (dim epsilonMilli : UInt64)
  | rmsNorm (dim epsilonMilli : UInt64)
  | eltwise (op : EltwiseOp)
  | reduce (op : ReduceOp) (axis : UInt64)
  | embedLookup (tableSize embedDim : UInt64)
  | patchEmbed (patchLen embedDim : UInt64)
  deriving DecidableEq, Repr

/-- Where an operand comes from: a tensor of the program's inputs or weights, or the output of
an earlier instruction. -/
inductive RegisterRef where
  | input (index : UInt64)
  | weight (index : UInt64)
  | virtual (index : UInt64)
  deriving DecidableEq, Repr

structure AssemblerInstruction where
  instruction : Instruction
  inputs : List RegisterRef
  deriving DecidableEq, Repr

structure AssemblerProgram where
  instructions : List AssemblerInstruction
  inputValues : List (List I18)
  weightValues : List (List I18)
  deriving DecidableEq, Repr

/-- The flat index of `A[i, l]`. -/
def physA (m k : ℕ) (transA : Bool) (i l : ℕ) : ℕ := if transA then l * m + i else i * k + l

/-- The flat index of `B[l, j]`. -/
def physB (n k : ℕ) (transB : Bool) (l j : ℕ) : ℕ := if transB then j * k + l else l * n + j

theorem physA_lt {m k i l : ℕ} (transA : Bool) (hi : i < m) (hl : l < k) : physA m k transA i l < m * k := by
  unfold physA
  split
  · calc l * m + i < l * m + m := by omega
      _ = (l + 1) * m := by ring
      _ ≤ k * m := Nat.mul_le_mul_right m hl
      _ = m * k := Nat.mul_comm k m
  · calc i * k + l < i * k + k := by omega
      _ = (i + 1) * k := by ring
      _ ≤ m * k := Nat.mul_le_mul_right k hi

theorem physB_lt {n k l j : ℕ} (transB : Bool) (hl : l < k) (hj : j < n) : physB n k transB l j < k * n := by
  have h := physA_lt (!transB) hj hl
  cases transB <;> simpa [physA, physB, Nat.mul_comm] using h

/-- Every element of the left matrix is read. -/
theorem exists_physA {m k t : ℕ} (transA : Bool) (ht : t < m * k) :
    ∃ i < m, ∃ l < k, physA m k transA i l = t := by
  have hm : 0 < m := Nat.pos_of_ne_zero fun h => by simp [h] at ht
  have hk : 0 < k := Nat.pos_of_ne_zero fun h => by simp [h] at ht
  cases transA with
  | true =>
      refine ⟨t % m, Nat.mod_lt t hm, t / m, Nat.div_lt_of_lt_mul ht, ?_⟩
      simp only [physA, if_true]
      exact Nat.div_add_mod' t m
  | false =>
      refine ⟨t / k, Nat.div_lt_of_lt_mul (by rwa [Nat.mul_comm]), t % k, Nat.mod_lt t hk, ?_⟩
      simp only [physA, Bool.false_eq_true, if_false]
      exact Nat.div_add_mod' t k

theorem exists_physB {n k t : ℕ} (transB : Bool) (ht : t < k * n) :
    ∃ j < n, ∃ l < k, physB n k transB l j = t := by
  obtain ⟨j, hj, l, hl, h⟩ := exists_physA (m := n) (k := k) (!transB) (by rwa [Nat.mul_comm])
  refine ⟨j, hj, l, hl, ?_⟩
  rw [← h]
  cases transB <;> rfl

/-- The elements of a flat tensor at some indices. -/
def pick (values : List I18) (indices : List ℕ) : List I18 := indices.map (values.getD · default)

/-- The `(i, j)` pairs of a matrix, row by row. -/
def positions (m n : ℕ) : List (ℕ × ℕ) := List.range m ×ˢ List.range n

def rowA (m k : ℕ) (transA : Bool) (i : ℕ) : List ℕ := (List.range k).map (physA m k transA i)

def columnB (n k : ℕ) (transB : Bool) (j : ℕ) : List ℕ := (List.range k).map (physB n k transB · j)

/-- The floor of a dot product, when it fits. -/
def dotFloor (a b : List I18) : Option I18 := I18.ofInt? (dotSum a b / scale18)

/-- The host value of a matrix product. -/
def dotGeneral (m n k : ℕ) (transA transB : Bool) (a b : List I18) : Option (List I18) :=
  (positions m n).mapM fun p => dotFloor (pick a (rowA m k transA p.1)) (pick b (columnB n k transB p.2))

/-- The host value of an elementwise operation with broadcasting. -/
def broadcast (op : I18 → I18 → Option I18) (a b : List I18) : Option (List I18) :=
  (List.range (max a.length b.length)).mapM fun e =>
    op (a.getD (e % a.length) default) (b.getD (e % b.length) default)

/-- The constants of a normalisation. -/
structure RmsConstants where
  reciprocal : I18
  epsilon : I18
  domain : Domain

/-- The host value of an instruction on its two operands. -/
def evalInstruction (rms : RmsConstants) (a b : List I18) : Instruction → Option (List I18)
  | .dotGeneral m n k _ transA transB => dotGeneral m.toNat n.toNat k.toNat transA transB a b
  | .eltwise .add => broadcast checkedAdd a b
  | .eltwise .mul => broadcast mulFloor a b
  | .rmsNorm .. => rmsNorm rms.reciprocal rms.epsilon rms.domain a b
  | _ => none

end Zkie.Isa
