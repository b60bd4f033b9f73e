import Mathlib.Analysis.SpecialFunctions.Pow.Real
import Zkie.Broadcasting
import Zkie.Checked

namespace Zkie.RealTensor

open Broadcasting

section Tensors

/-- A tensor of real numbers in row-major order. An element is missing where it is no finite number. -/
structure Tensor where
  shape : List ℕ
  entry : ℕ → Option ℝ

namespace Tensor

def map (f : ℝ → Option ℝ) (t : Tensor) : Tensor := ⟨t.shape, fun p => (t.entry p).bind f⟩

/-- An elementwise operation after broadcasting. -/
def zipWith (f : ℝ → ℝ → Option ℝ) (a b : Tensor) : Option Tensor :=
  (broadcastShape a.shape b.shape).map fun out =>
    ⟨out, fun p => (a.entry (operandIndex a.shape out p)).bind fun u => (b.entry (operandIndex b.shape out p)).bind (f u)⟩

/-- The shape that is left of another when axes are reduced to length one. -/
def keptShape (axes shape : List ℕ) : List ℕ := shape.mapIdx fun i d => if i ∈ axes then 1 else d

/-- The shape that is left of another without some axes. -/
def droppedShape (axes shape : List ℕ) : List ℕ := (shape.zipIdx.filter fun entry => entry.2 ∉ axes).map Prod.fst

/-- The positions whose elements are reduced to the one at position `p`. -/
def group (axes shape : List ℕ) (p : ℕ) : List ℕ :=
  (List.range shape.prod).filter fun q => operandIndex (keptShape axes shape) shape q = p

noncomputable def average (values : List ℝ) : ℝ := values.sum / values.length

/-- The means along some axes. -/
noncomputable def mean (axes : List ℕ) (keepdims : Bool) (t : Tensor) : Tensor where
  shape := if keepdims then keptShape axes t.shape else droppedShape axes t.shape
  entry p := ((group axes t.shape p).mapM t.entry).map average

end Tensor

/-- The power of real numbers, where there is one. -/
noncomputable def power (x y : ℝ) : Option ℝ :=
  open Classical in if x = 0 ∧ y < 0 ∨ x < 0 ∧ ¬∃ n : ℤ, (n : ℝ) = y then none else some (x ^ y)

noncomputable def squareRoot (x : ℝ) : Option ℝ := if x < 0 then none else some √x

noncomputable def reciprocal (x : ℝ) : Option ℝ := if x = 0 then none else some x⁻¹

def plus (x y : ℝ) : Option ℝ := some (x + y)

def times (x y : ℝ) : Option ℝ := some (x * y)

end Tensors

section Numbers

theorem power_two (x : ℝ) : power x 2 = some (x ^ 2) := by
  rw [power, if_neg, Real.rpow_two]
  rintro (⟨-, hneg⟩ | ⟨-, hnone⟩)
  · norm_num at hneg
  · exact hnone ⟨2, by norm_num⟩

theorem power_of_pos {x : ℝ} (hx : 0 < x) (y : ℝ) : power x y = some (x ^ y) := by
  rw [power, if_neg]
  rintro (⟨hzero, -⟩ | ⟨hneg, -⟩)
  · exact hx.ne' hzero
  · exact hx.not_gt hneg

theorem squareRoot_reciprocal (x : ℝ) : (squareRoot x).bind reciprocal = if 0 < x then some (√x)⁻¹ else none := by
  unfold squareRoot reciprocal
  rcases lt_trichotomy x 0 with hneg | rfl | hpos
  · rw [if_pos hneg, if_neg hneg.not_gt]
    rfl
  · simp
  · rw [if_neg hpos.not_gt, if_pos hpos, Option.bind_some, if_neg (Real.sqrt_ne_zero'.mpr hpos)]

theorem average_replicate {n : ℕ} (hn : n ≠ 0) (c : ℝ) : Tensor.average (List.replicate n c) = c := by
  have hne : (n : ℝ) ≠ 0 := Nat.cast_ne_zero.mpr hn
  rw [Tensor.average, List.sum_replicate, List.length_replicate, nsmul_eq_mul]
  field_simp

end Numbers

namespace Tensor

variable {a b c t : Tensor} {f : ℝ → ℝ → Option ℝ} {axes s : List ℕ} {p : ℕ}

theorem zipWith_comm (hf : ∀ u v, f u v = f v u) (a b : Tensor) : zipWith f a b = zipWith f b a := by
  rw [zipWith, zipWith, broadcastShape_comm]
  congr 1
  funext out
  congr 1
  funext p
  cases a.entry (operandIndex a.shape out p) with
  | none => cases b.entry (operandIndex b.shape out p) <;> rfl
  | some u =>
      cases b.entry (operandIndex b.shape out p) with
      | none => rfl
      | some v => exact hf u v

theorem shape_of_zipWith (h : zipWith f a b = some c) : broadcastShape a.shape b.shape = some c.shape := by
  obtain ⟨out, hout, rfl⟩ := Option.map_eq_some_iff.mp h
  exact hout

/-- The shape of a result depends only on the shapes of the operands. -/
theorem zipWith_shape (h : zipWith f a b = some c) {a' b' : Tensor} (ha : a'.shape = a.shape) (hb : b'.shape = b.shape) :
    ∃ c', zipWith f a' b' = some c' ∧ c'.shape = c.shape := by
  obtain ⟨out, hout, rfl⟩ := Option.map_eq_some_iff.mp h
  rw [zipWith, ha, hb, hout, Option.map_some]
  exact ⟨_, rfl, rfl⟩

theorem zipWith_prod_ne_zero (h : zipWith f a b = some c) (ha : a.shape.prod ≠ 0) (hb : b.shape.prod ≠ 0) :
    c.shape.prod ≠ 0 := by
  obtain ⟨out, hout, rfl⟩ := Option.map_eq_some_iff.mp h
  have halign := broadcastShape_eq_some.mp hout
  rw [← List.prod_reverse] at ha hb ⊢
  exact (align_prod_le halign ha hb).2

theorem operandIndex_zero (s out : List ℕ) : operandIndex s out 0 = 0 := by
  unfold operandIndex
  generalize s.reverse = r
  generalize out.reverse = o
  induction r generalizing o with
  | nil => rfl
  | cons x r ih =>
      cases o with
      | nil => rfl
      | cons d o => simp [ih]

/-- The first element of a result is computed from the first elements of the operands. -/
theorem zipWith_first (h : zipWith f a b = some c) :
    c.entry 0 = (a.entry 0).bind fun u => (b.entry 0).bind (f u) := by
  obtain ⟨out, -, rfl⟩ := Option.map_eq_some_iff.mp h
  simp only [operandIndex_zero]

theorem operandIndex_of_prod_eq_one (hs : s.prod = 1) (out : List ℕ) (p : ℕ) : operandIndex s out p = 0 := by
  have hrev : s.reverse.prod = 1 := by rw [List.prod_reverse, hs]
  rw [operandIndex, eq_replicate_of_prod_eq_one hrev, source_ones]

/-- An operand with a single element only adds axes of length one in front. -/
theorem shape_of_zipWith_single (h : zipWith f a b = some c) (hb : b.shape.prod = 1) :
    ∃ n, c.shape = List.replicate n 1 ++ a.shape := by
  have hrev : b.shape.reverse.prod = 1 := by rw [List.prod_reverse, hb]
  have halign := broadcastShape_eq_some.mp (shape_of_zipWith h)
  rw [align_comm, eq_replicate_of_prod_eq_one hrev, align_replicate, Option.some_inj] at halign
  refine ⟨b.shape.reverse.length - a.shape.reverse.length, ?_⟩
  rw [← List.reverse_reverse c.shape, ← halign, List.reverse_append, List.reverse_replicate, List.reverse_reverse]

/-- An operand with a single element does not change the elements' places. -/
theorem zipWith_single (hb : b.shape.prod = 1) (ha : a.shape.prod ≠ 0) : ∃ c, zipWith f a b = some c ∧
    c.shape.prod = a.shape.prod ∧ ∀ p < c.shape.prod, c.entry p = (a.entry p).bind fun u => (b.entry 0).bind (f u) := by
  have hrev : b.shape.reverse.prod = 1 := by rw [List.prod_reverse, hb]
  have hrev' : a.shape.reverse.prod ≠ 0 := by rwa [List.prod_reverse]
  obtain ⟨out, halign, hprod⟩ := align_ones b.shape.reverse.length a.shape.reverse
  rw [← eq_replicate_of_prod_eq_one hrev] at halign
  have hout : broadcastShape a.shape b.shape = some out.reverse := by
    rw [broadcastShape_comm, broadcastShape_eq_some, List.reverse_reverse, halign]
  refine ⟨_, by rw [zipWith, hout, Option.map_some], ?_, fun p hp => ?_⟩
  · rw [List.prod_reverse, hprod, List.prod_reverse]
  · have hp' : p < out.prod := by rwa [List.prod_reverse] at hp
    have hself : operandIndex a.shape out.reverse p = p := by
      rw [operandIndex, List.reverse_reverse]
      exact source_eq_self halign (by rw [hrev]; exact one_ne_zero) hrev' hprod.symm hp'
    simp only [hself, operandIndex_of_prod_eq_one hb]

section Means

variable {d q : ℕ} {keepdims : Bool}

theorem keptShape_length : (keptShape axes s).length = s.length := List.length_mapIdx

theorem keptShape_prod_eq_one : (keptShape axes s).prod = 1 ↔ ∀ i d, s[i]? = some d → d ≠ 1 → i ∈ axes := by
  constructor
  · intro h i d hi hd
    by_contra hnot
    have hget : (keptShape axes s)[i]? = some d := by
      rw [keptShape, List.getElem?_mapIdx, hi, Option.map_some, if_neg hnot]
    rw [eq_replicate_of_prod_eq_one h] at hget
    exact hd (List.eq_of_mem_replicate (List.mem_of_getElem? hget))
  · intro h
    apply List.prod_eq_one
    intro x hx
    obtain ⟨i, hi, rfl⟩ := List.mem_mapIdx.mp hx
    by_cases hmem : i ∈ axes
    · rw [if_pos hmem]
    · rw [if_neg hmem]
      by_contra hne
      exact hmem (h i _ (List.getElem?_eq_getElem hi) hne)

theorem droppedShape_prod (h : (keptShape axes s).prod = 1) : (droppedShape axes s).prod = 1 := by
  apply List.prod_eq_one
  intro x hx
  obtain ⟨⟨d, i⟩, hmem, rfl⟩ := List.mem_map.mp hx
  obtain ⟨hget, hnot⟩ := List.mem_filter.mp hmem
  by_contra hne
  exact (of_decide_eq_true hnot) (keptShape_prod_eq_one.mp h i d (List.mem_zipIdx_iff_getElem?.mp hget) hne)

theorem mean_shape_prod (h : (keptShape axes t.shape).prod = 1) : (mean axes keepdims t).shape.prod = 1 := by
  cases keepdims with
  | false => exact droppedShape_prod h
  | true => exact h

theorem mem_group : q ∈ group axes s p ↔ q < s.prod ∧ operandIndex (keptShape axes s) s q = p := by
  rw [group, List.mem_filter, List.mem_range, decide_eq_true_iff]

theorem zero_mem_group (hs : s.prod ≠ 0) : 0 ∈ group axes s 0 :=
  mem_group.mpr ⟨Nat.pos_of_ne_zero hs, operandIndex_zero _ _⟩

theorem group_eq_range (h : (keptShape axes s).prod = 1) : group axes s 0 = List.range s.prod := by
  apply List.filter_eq_self.mpr
  intro q hq
  exact decide_eq_true (operandIndex_of_prod_eq_one h s q)

/-- Unless all elements are reduced to one, one of them does not go into the first mean. -/
theorem exists_notMem_group (hs : s.prod ≠ 0) (h : (keptShape axes s).prod ≠ 1) : ∃ q < s.prod, q ∉ group axes s 0 := by
  by_contra hall
  push Not at hall
  apply h
  rw [← List.prod_reverse]
  apply prod_eq_one_of_source
  · rw [List.forall₂_reverse_iff, List.forall₂_iff_get]
    refine ⟨keptShape_length, fun i hi hi' => ?_⟩
    simp only [keptShape, List.get_eq_getElem, List.getElem_mapIdx]
    split
    · exact .inl rfl
    · exact .inr rfl
  · rwa [List.prod_reverse]
  · intro p hp
    rw [List.prod_reverse] at hp
    exact (mem_group.mp (hall p hp)).2

theorem mean_entry {f : ℕ → ℝ} (h : ∀ q ∈ group axes t.shape p, t.entry q = some (f q)) :
    (mean axes keepdims t).entry p = some (average ((group axes t.shape p).map f)) := by
  have hvalues : (group axes t.shape p).mapM t.entry = some ((group axes t.shape p).map f) := Checked.mapM_eq_some_map h
  change ((group axes t.shape p).mapM t.entry).map average = _
  rw [hvalues, Option.map_some]

theorem mean_constant {c : ℝ} (hs : t.shape.prod ≠ 0) (h : ∀ q ∈ group axes t.shape 0, t.entry q = some c) :
    (mean axes keepdims t).entry 0 = some c := by
  have hne : (group axes t.shape 0).length ≠ 0 := by
    rw [ne_eq, List.length_eq_zero_iff]
    exact List.ne_nil_of_mem (zero_mem_group hs)
  rw [mean_entry h, List.map_const', average_replicate hne]

theorem mean_missing (hs : t.shape.prod ≠ 0) (h : t.entry 0 = none) : (mean axes keepdims t).entry 0 = none := by
  rw [mean, Option.map_eq_none_iff, Option.eq_none_iff_forall_ne_some]
  intro values hvalues
  obtain ⟨i, hi⟩ := List.mem_iff_get.mp (zero_mem_group hs)
  have hv := (Checked.mapM_eq_some.mp hvalues).get i.2 ((Checked.mapM_eq_some.mp hvalues).length_eq ▸ i.2)
  rw [hi, h] at hv
  cases hv

end Means

section Vectors

variable {d : ℕ}

/-- An operand with one axis is combined element by element with one that has as many elements, on its last axis. -/
theorem zipWith_vector (hb : b.shape = [d]) (ha : a.shape.prod = d) (hd : d ≠ 0)
    (hlast : d = 1 ∨ a.shape.getLast? = some d) : ∃ c, zipWith f a b = some c ∧ c.shape.prod = d ∧
      ∀ p < d, c.entry p = (a.entry p).bind fun u => (b.entry p).bind (f u) := by
  have htrailing : Trailing [d] a.shape := by
    rcases hlast with rfl | hlast
    · exact ⟨1, a.shape, [], rfl, (List.append_nil _).symm⟩
    · obtain ⟨outer, houter⟩ := List.getLast?_eq_some_iff.mp hlast
      exact ⟨0, outer, [d], rfl, houter⟩
  obtain ⟨out, hout, hprod, hindex⟩ := htrailing.periodic (by simpa using hd) (by rwa [ha])
  rw [List.prod_singleton, ha, max_self] at hprod
  rw [broadcastShape_comm] at hout
  refine ⟨_, by rw [zipWith, hb, hout, Option.map_some], hprod, fun p hp => ?_⟩
  obtain ⟨hindex_b, hindex_a⟩ := hindex p (hprod ▸ hp)
  rw [List.prod_singleton, Nat.mod_eq_of_lt hp] at hindex_b
  rw [ha, Nat.mod_eq_of_lt hp] at hindex_a
  simp only [hindex_a, hindex_b]

/-- Nowhere else do they give as many elements again. -/
theorem last_of_zipWith_vector (h : zipWith f a b = some c) (hb : b.shape = [d]) (ha : a.shape.prod = d) (hd : d ≠ 0)
    (hc : c.shape.prod = d) : d = 1 ∨ a.shape.getLast? = some d := by
  obtain ⟨out, hout, rfl⟩ := Option.map_eq_some_iff.mp h
  have halign := broadcastShape_eq_some.mp hout
  rw [hb, List.reverse_singleton] at halign
  by_cases hone : d = 1
  · exact .inl hone
  · right
    rw [← List.prod_reverse] at ha hc
    rw [List.getLast?_eq_head?_reverse]
    cases hrev : a.shape.reverse with
    | nil =>
        rw [hrev] at ha
        exact absurd ha.symm hone
    | cons l rest =>
        rw [hrev] at ha halign
        obtain ⟨e, out', hout', hrest, haxis⟩ := align_cons halign
        rw [align_nil_right, Option.some_inj] at hrest
        subst hrest
        rw [hout', List.prod_cons] at hc
        rw [List.prod_cons] at ha
        rcases haxis with ⟨rfl, rfl | hone'⟩ | ⟨rfl, rfl⟩
        · rfl
        · exact absurd hone' hone
        · rw [one_mul] at ha
          rw [ha] at hc
          exact absurd (Nat.eq_of_mul_eq_mul_right (Nat.pos_of_ne_zero hd) (hc.trans (one_mul d).symm)) hone

end Vectors

end Tensor

end Zkie.RealTensor
