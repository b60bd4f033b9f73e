import Mathlib.Algebra.BigOperators.Group.Finset.Basic
import Mathlib.Algebra.BigOperators.Group.List.Basic
import Mathlib.Algebra.BigOperators.Intervals
import Mathlib.Algebra.BigOperators.Ring.List
import Mathlib.Data.List.GetD
import Mathlib.Tactic.Linarith
import Mathlib.Tactic.Ring

namespace Zkie.RowMajor

open Finset

section Positions

/-- The position of an element in row-major order, for its coordinates along the outermost axis first. -/
def position : List ℕ → List ℕ → ℕ
  | _ :: s, c :: cs => c * s.prod + position s cs
  | _, _ => 0

/-- The coordinates of a position. -/
def coords : List ℕ → ℕ → List ℕ
  | [], _ => []
  | _ :: s, p => p / s.prod :: coords s (p % s.prod)

/-- How far apart the neighbours along an axis are. -/
def stride (s : List ℕ) (a : ℕ) : ℕ := (s.drop (a + 1)).prod

/-- The coordinates are in range. -/
def Within (s cs : List ℕ) : Prop := List.Forall₂ (· < ·) cs s

variable {s cs : List ℕ} {p a b : ℕ}

theorem coords_within (hp : p < s.prod) : Within s (coords s p) := by
  induction s generalizing p with
  | nil => exact .nil
  | cons d s ih =>
      rw [List.prod_cons] at hp
      have hs : 0 < s.prod := Nat.pos_of_ne_zero fun h => by simp [h] at hp
      exact .cons ((Nat.div_lt_iff_lt_mul hs).mpr hp) (ih (Nat.mod_lt p hs))

theorem within_getD (h : Within s cs) (ha : a < s.length) : cs.getD a 0 < s.getD a 0 := by
  have hlen := h.length_eq
  rw [List.getD_eq_getElem _ _ (by omega), List.getD_eq_getElem _ _ ha]
  exact h.get (by omega) ha

theorem position_coords (hp : p < s.prod) : position s (coords s p) = p := by
  induction s generalizing p with
  | nil =>
      rw [List.prod_nil] at hp
      rw [position]
      · omega
      · simp [coords]
  | cons d s ih =>
      rw [List.prod_cons] at hp
      have hs : 0 < s.prod := Nat.pos_of_ne_zero fun h => by simp [h] at hp
      rw [coords, position, ih (Nat.mod_lt p hs), Nat.div_add_mod']

theorem position_lt (h : Within s cs) : position s cs < s.prod := by
  induction h with
  | nil => simp [position]
  | @cons c d cs s hc _ ih =>
      rw [position, List.prod_cons]
      calc c * s.prod + position s cs < c * s.prod + s.prod := by omega
        _ = (c + 1) * s.prod := by ring
        _ ≤ d * s.prod := Nat.mul_le_mul_right _ hc

theorem coords_position (h : Within s cs) : coords s (position s cs) = cs := by
  induction h with
  | nil => rfl
  | @cons c d cs s hc hrest ih =>
      have hlt := position_lt hrest
      rw [position, coords, Nat.mul_comm c, Nat.mul_add_div (by omega), Nat.div_eq_of_lt hlt, Nat.mul_add_mod,
        Nat.mod_eq_of_lt hlt, ih, Nat.add_zero]

/-- Every coordinate counts as often as its stride says. -/
theorem position_eq_sum (h : cs.length = s.length) :
    position s cs = ∑ a ∈ range s.length, cs.getD a 0 * stride s a := by
  induction s generalizing cs with
  | nil => simp [position]
  | cons d s ih =>
      cases cs with
      | nil => cases h
      | cons c cs =>
          rw [List.length_cons, List.length_cons] at h
          rw [position, List.length_cons, sum_range_succ', ih (Nat.succ.inj h), Nat.add_comm]
          simp [stride]

theorem prod_range_getD (s : List ℕ) : ∏ b ∈ range s.length, s.getD b 0 = s.prod := by
  induction s with
  | nil => rfl
  | cons d s ih =>
      rw [List.length_cons, prod_range_succ', List.prod_cons, Nat.mul_comm]
      simp only [List.getD_cons_zero, List.getD_cons_succ, ih]

theorem stride_eq_prod (s : List ℕ) (a : ℕ) : stride s a = ∏ b ∈ range s.length, if a < b then s.getD b 0 else 1 := by
  induction s generalizing a with
  | nil => simp [stride]
  | cons d s ih =>
      rw [List.length_cons, prod_range_succ', if_neg (Nat.not_lt_zero a), mul_one]
      cases a with
      | zero => simp [stride, ← prod_range_getD]
      | succ a =>
          rw [stride, List.drop_succ_cons, ← stride, ih]
          simp

theorem stride_ne_zero (hs : s.prod ≠ 0) (a : ℕ) : stride s a ≠ 0 := by
  rw [← List.take_append_drop (a + 1) s, List.prod_append] at hs
  exact right_ne_zero_of_mul hs

theorem getD_ne_zero (hs : s.prod ≠ 0) (ha : a < s.length) : s.getD a 0 ≠ 0 := by
  rw [List.getD_eq_getElem _ _ ha]
  intro hzero
  exact hs (List.prod_eq_zero (hzero ▸ List.getElem_mem ha))

/-- Outer axes have larger strides. -/
theorem mul_stride_le (hs : s.prod ≠ 0) (hab : a < b) (hb : b < s.length) : s.getD b 0 * stride s b ≤ stride s a := by
  have hdrop : s.drop b = s.getD b 0 :: s.drop (b + 1) := by
    rw [List.drop_eq_getElem_cons hb, List.getD_eq_getElem _ _ hb]
  have hsplit : stride s a = ((s.drop (a + 1)).take (b - (a + 1))).prod * (s.getD b 0 * stride s b) := by
    have heq : (s.drop (a + 1)).drop (b - (a + 1)) = s.drop b := by
      rw [List.drop_drop]
      congr 1
      omega
    rw [stride, stride, ← List.prod_cons, ← hdrop, ← heq, ← List.prod_append, List.take_append_drop]
  have hne := stride_ne_zero hs a
  rw [hsplit] at hne ⊢
  exact Nat.le_mul_of_pos_left _ (Nat.pos_of_ne_zero (left_ne_zero_of_mul hne))

end Positions

section Transposition

/-- The dimensions after the axes are permuted: axis `i` of the output is axis `perm[i]` of the operand. -/
def transposed (s perm : List ℕ) : List ℕ := perm.map (s.getD · 0)

/-- The position in the operand that a position of the output is read from. -/
def transposeSource (s perm : List ℕ) (q : ℕ) : ℕ :=
  position s ((List.range s.length).map fun a => (coords (transposed s perm) q).getD (perm.idxOf a) 0)

/-- The axes that are not of length one keep their order. -/
def OrderKept (s perm : List ℕ) : Prop := (perm.filter fun a => s.getD a 0 ≠ 1).Pairwise (· < ·)

variable {s perm : List ℕ} {i i' q : ℕ}

theorem perm_getD_lt (hperm : perm.Perm (List.range s.length)) (hi : i < s.length) : perm.getD i 0 < s.length := by
  have hlen := hperm.length_eq
  rw [List.length_range] at hlen
  rw [List.getD_eq_getElem _ _ (by omega)]
  exact List.mem_range.mp (hperm.mem_iff.mp (List.getElem_mem _))

theorem perm_idxOf_lt (hperm : perm.Perm (List.range s.length)) (hi : i < s.length) : perm.idxOf i < s.length := by
  have hmem : i ∈ perm := hperm.mem_iff.mpr (List.mem_range.mpr hi)
  have hlt := List.idxOf_lt_length_iff.mpr hmem
  rwa [hperm.length_eq, List.length_range] at hlt

theorem perm_getD_idxOf (hperm : perm.Perm (List.range s.length)) (hi : i < s.length) : perm.getD (perm.idxOf i) 0 = i := by
  have hmem : i ∈ perm := hperm.mem_iff.mpr (List.mem_range.mpr hi)
  rw [List.getD_eq_getElem _ _ (List.idxOf_lt_length_iff.mpr hmem), List.getElem_idxOf]

theorem perm_idxOf_getD (hperm : perm.Perm (List.range s.length)) (hi : i < s.length) : perm.idxOf (perm.getD i 0) = i := by
  have hlen := hperm.length_eq
  rw [List.length_range] at hlen
  rw [List.getD_eq_getElem _ _ (by omega)]
  exact (hperm.nodup_iff.mpr List.nodup_range).idxOf_getElem _ _

theorem transposed_length (hperm : perm.Perm (List.range s.length)) : (transposed s perm).length = s.length := by
  rw [transposed, List.length_map, hperm.length_eq, List.length_range]

theorem transposed_getD (hperm : perm.Perm (List.range s.length)) (hi : i < s.length) :
    (transposed s perm).getD i 0 = s.getD (perm.getD i 0) 0 := by
  have hlen := hperm.length_eq
  rw [List.length_range] at hlen
  rw [transposed, List.getD_eq_getElem _ _ (by rw [List.length_map]; omega), List.getElem_map,
    List.getD_eq_getElem perm _ (by omega)]

theorem transposed_prod (hperm : perm.Perm (List.range s.length)) : (transposed s perm).prod = s.prod := by
  have hmap : (List.range s.length).map (s.getD · 0) = s := by
    apply List.ext_getElem
    · simp
    · intro i _ hi
      rw [List.getElem_map, List.getElem_range, List.getD_eq_getElem _ _ hi]
  rw [transposed, (hperm.map _).prod_eq, hmap]

/-- A sum over the axes of the operand as one over the axes of the output. -/
theorem sum_axes (hperm : perm.Perm (List.range s.length)) (f : ℕ → ℕ → ℕ) :
    ∑ a ∈ range s.length, f (perm.idxOf a) a = ∑ i ∈ range s.length, f i (perm.getD i 0) := by
  apply sum_nbij' (fun a => perm.idxOf a) (fun i => perm.getD i 0)
  · exact fun a ha => mem_range.mpr (perm_idxOf_lt hperm (mem_range.mp ha))
  · exact fun i hi => mem_range.mpr (perm_getD_lt hperm (mem_range.mp hi))
  · exact fun a ha => perm_getD_idxOf hperm (mem_range.mp ha)
  · exact fun i hi => perm_idxOf_getD hperm (mem_range.mp hi)
  · intro a ha
    rw [perm_getD_idxOf hperm (mem_range.mp ha)]

theorem prod_axes (hperm : perm.Perm (List.range s.length)) (f : ℕ → ℕ) :
    ∏ a ∈ range s.length, f a = ∏ i ∈ range s.length, f (perm.getD i 0) := by
  apply prod_nbij' (fun a => perm.idxOf a) (fun i => perm.getD i 0)
  · exact fun a ha => mem_range.mpr (perm_idxOf_lt hperm (mem_range.mp ha))
  · exact fun i hi => mem_range.mpr (perm_getD_lt hperm (mem_range.mp hi))
  · exact fun a ha => perm_getD_idxOf hperm (mem_range.mp ha)
  · exact fun i hi => perm_idxOf_getD hperm (mem_range.mp hi)
  · intro a ha
    rw [perm_getD_idxOf hperm (mem_range.mp ha)]

/-- The position that is read from, by the coordinates in the output and the strides of the operand. -/
theorem transposeSource_eq_sum (hperm : perm.Perm (List.range s.length)) (q : ℕ) :
    transposeSource s perm q =
      ∑ i ∈ range s.length, (coords (transposed s perm) q).getD i 0 * stride s (perm.getD i 0) := by
  rw [transposeSource, position_eq_sum (by simp)]
  rw [← sum_axes hperm fun i a => (coords (transposed s perm) q).getD i 0 * stride s a]
  apply sum_congr rfl
  intro a ha
  have hlt := mem_range.mp ha
  rw [List.getD_eq_getElem _ _ (by simpa using hlt), List.getElem_map, List.getElem_range]

theorem orderKept_iff (hperm : perm.Perm (List.range s.length)) : OrderKept s perm ↔
    ∀ i i', i < i' → i' < s.length → s.getD (perm.getD i 0) 0 ≠ 1 → s.getD (perm.getD i' 0) 0 ≠ 1 →
      perm.getD i 0 < perm.getD i' 0 := by
  have hlen := hperm.length_eq
  rw [List.length_range] at hlen
  rw [OrderKept, List.pairwise_filter, List.pairwise_iff_getElem]
  simp only [decide_eq_true_eq]
  constructor
  · intro h i i' hlt hi' hne hne'
    rw [List.getD_eq_getElem perm _ (by omega)] at hne hne' ⊢
    rw [List.getD_eq_getElem perm _ (by omega)]
    exact h i i' (by omega) (by omega) hlt hne hne'
  · intro h i i' hi hi' hlt hne hne'
    have hrel := h i i' hlt (by omega)
    rw [List.getD_eq_getElem perm _ hi, List.getD_eq_getElem perm _ hi'] at hrel
    exact hrel hne hne'

/-- Axes that keep their order keep their strides. -/
theorem stride_of_orderKept (hperm : perm.Perm (List.range s.length)) (h : OrderKept s perm) (hi : i < s.length)
    (hne : s.getD (perm.getD i 0) 0 ≠ 1) : stride s (perm.getD i 0) = stride (transposed s perm) i := by
  rw [orderKept_iff hperm] at h
  rw [stride_eq_prod, stride_eq_prod, transposed_length hperm, prod_axes hperm]
  apply prod_congr rfl
  intro i' hi'
  have hlt := mem_range.mp hi'
  rw [transposed_getD hperm hlt]
  by_cases hone : s.getD (perm.getD i' 0) 0 = 1
  · rw [hone, ite_self, ite_self]
  · rcases lt_trichotomy i i' with hlt' | rfl | hgt
    · rw [if_pos hlt', if_pos (h i i' hlt' hlt hne hone)]
    · rw [if_neg (lt_irrefl _), if_neg (lt_irrefl _)]
    · have hback := h i' i hgt hi hone hne
      rw [if_neg (by omega), if_neg (by omega)]

theorem transposeSource_of_orderKept (hperm : perm.Perm (List.range s.length)) (h : OrderKept s perm) (hq : q < s.prod) :
    transposeSource s perm q = q := by
  have hq' : q < (transposed s perm).prod := by rwa [transposed_prod hperm]
  have hwithin := coords_within hq'
  rw [transposeSource_eq_sum hperm]
  calc ∑ i ∈ range s.length, (coords (transposed s perm) q).getD i 0 * stride s (perm.getD i 0)
      = ∑ i ∈ range s.length, (coords (transposed s perm) q).getD i 0 * stride (transposed s perm) i := by
        apply sum_congr rfl
        intro i hi
        have hlt := mem_range.mp hi
        by_cases hone : s.getD (perm.getD i 0) 0 = 1
        · have hzero : (coords (transposed s perm) q).getD i 0 = 0 := by
            have hcoord := within_getD hwithin (by rwa [transposed_length hperm] : i < _)
            rw [transposed_getD hperm hlt] at hcoord
            omega
          rw [hzero, Nat.zero_mul, Nat.zero_mul]
        · rw [stride_of_orderKept hperm h hlt hone]
    _ = q := by
        rw [← transposed_length hperm, ← position_eq_sum hwithin.length_eq, position_coords hq']

/-- The neighbour of the first element along an axis. -/
def unitAt (n i : ℕ) : List ℕ := (List.range n).map fun a => if a = i then 1 else 0

theorem unitAt_getD {n a : ℕ} (ha : a < n) (i : ℕ) : (unitAt n i).getD a 0 = if a = i then 1 else 0 := by
  rw [List.getD_eq_getElem _ _ (by simpa [unitAt] using ha)]
  simp [unitAt]

theorem position_unitAt (hi : i < s.length) : position s (unitAt s.length i) = stride s i := by
  rw [position_eq_sum (by simp [unitAt]), sum_eq_single i]
  · rw [unitAt_getD hi, if_pos rfl, Nat.one_mul]
  · intro a ha hne
    rw [unitAt_getD (mem_range.mp ha), if_neg hne, Nat.zero_mul]
  · exact fun hnot => absurd (mem_range.mpr hi) hnot

theorem unitAt_within (hs : s.prod ≠ 0) (hi : i < s.length) (hne : s.getD i 0 ≠ 1) : Within s (unitAt s.length i) := by
  apply List.forall₂_iff_get.mpr
  refine ⟨by simp [unitAt], fun a ha ha' => ?_⟩
  have hpos := getD_ne_zero hs hi
  have hpos' := getD_ne_zero hs ha'
  rw [List.getD_eq_getElem _ _ ha'] at hpos'
  simp only [unitAt, List.get_eq_getElem, List.getElem_map, List.getElem_range]
  split
  · rename_i heq
    subst heq
    rw [List.getD_eq_getElem _ _ ha'] at hne
    omega
  · omega

/-- The first neighbours along the axes show the strides. -/
theorem transposeSource_stride (hperm : perm.Perm (List.range s.length)) (hs : s.prod ≠ 0) (hi : i < s.length)
    (hne : s.getD (perm.getD i 0) 0 ≠ 1) : stride (transposed s perm) i < s.prod ∧
      transposeSource s perm (stride (transposed s perm) i) = stride s (perm.getD i 0) := by
  have hlen := transposed_length hperm
  have hwithin : Within (transposed s perm) (unitAt s.length i) := by
    rw [← hlen]
    exact unitAt_within (by rwa [transposed_prod hperm]) (by omega) (by rwa [transposed_getD hperm hi])
  have hposition : position (transposed s perm) (unitAt s.length i) = stride (transposed s perm) i := by
    rw [← hlen]
    exact position_unitAt (by omega)
  rw [← hposition]
  refine ⟨transposed_prod hperm ▸ position_lt hwithin, ?_⟩
  rw [transposeSource_eq_sum hperm, coords_position hwithin, sum_eq_single i]
  · rw [unitAt_getD hi, if_pos rfl, Nat.one_mul]
  · intro a ha hne
    rw [unitAt_getD (mem_range.mp ha), if_neg hne, Nat.zero_mul]
  · exact fun hnot => absurd (mem_range.mpr hi) hnot

/-- A transposition leaves a tensor as it is exactly if the axes that are not of length one keep their order. -/
theorem transposeSource_eq_self_iff (hperm : perm.Perm (List.range s.length)) (hs : s.prod ≠ 0) :
    (∀ q < s.prod, transposeSource s perm q = q) ↔ OrderKept s perm := by
  constructor
  · intro h
    rw [orderKept_iff hperm]
    intro i i' hlt hi' hne hne'
    by_contra hback
    have hi : i < s.length := hlt.trans hi'
    obtain ⟨hbound, hsource⟩ := transposeSource_stride hperm hs hi hne
    obtain ⟨hbound', hsource'⟩ := transposeSource_stride hperm hs hi' hne'
    rw [h _ hbound] at hsource
    rw [h _ hbound'] at hsource'
    have hdistinct : perm.getD i 0 ≠ perm.getD i' 0 := by
      intro heq
      have hsame := congrArg perm.idxOf heq
      rw [perm_idxOf_getD hperm hi, perm_idxOf_getD hperm hi'] at hsame
      omega
    -- the outer axis of each side has the larger stride
    have hout := mul_stride_le (by rwa [transposed_prod hperm]) hlt (by rwa [transposed_length hperm] : i' < (transposed s perm).length)
    have hin := mul_stride_le hs (by omega : perm.getD i' 0 < perm.getD i 0) (perm_getD_lt hperm hi)
    rw [transposed_getD hperm hi'] at hout
    have hpos := getD_ne_zero hs (perm_getD_lt hperm hi)
    have hpos' := getD_ne_zero hs (perm_getD_lt hperm hi')
    have hstride := stride_ne_zero hs (perm.getD i 0)
    have hgrow := Nat.mul_le_mul_right (stride (transposed s perm) i') (by omega : 2 ≤ s.getD (perm.getD i' 0) 0)
    have hgrow' := Nat.mul_le_mul_right (stride s (perm.getD i 0)) (by omega : 2 ≤ s.getD (perm.getD i 0) 0)
    omega
  · intro h q hq
    exact transposeSource_of_orderKept hperm h hq

end Transposition

section Concatenation

variable {α : Type}

/-- The part of a buffer that belongs to one position along the axes before the one of the concatenation. -/
def block (n : ℕ) (l : List α) (o : ℕ) : List α := (l.drop (o * n)).take n

/-- The concatenation of buffers that consist of as many blocks each, given with the length of their blocks. -/
def concatenated (m : ℕ) (parts : List (ℕ × List α)) : List α :=
  (List.range m).flatMap fun o => parts.flatMap fun p => block p.1 p.2 o

variable {m n : ℕ} {l : List α} {parts : List (ℕ × List α)}

theorem flatMap_block (m n : ℕ) (l : List α) : (List.range m).flatMap (block n l) = l.take (m * n) := by
  induction m with
  | zero => simp
  | succ m ih => rw [List.range_succ, List.flatMap_append, ih, List.flatMap_singleton, block, Nat.succ_mul, List.take_add]

theorem block_length (h : l.length = m * n) {o : ℕ} (ho : o < m) : (block n l o).length = n := by
  have hle : (o + 1) * n ≤ m * n := Nat.mul_le_mul_right n ho
  rw [Nat.succ_mul] at hle
  rw [block, List.length_take, List.length_drop, h]
  omega

theorem concatenated_length (h : ∀ p ∈ parts, p.2.length = m * p.1) :
    (concatenated m parts).length = (parts.map fun p => p.2.length).sum := by
  have hblocks : ∀ o ∈ List.range m, (parts.flatMap fun p => block p.1 p.2 o).length = (parts.map Prod.fst).sum := by
    intro o ho
    rw [List.length_flatMap]
    congr 1
    apply List.map_congr_left
    intro p hp
    exact block_length (h p hp) (List.mem_range.mp ho)
  have hlengths : (parts.map fun p => p.2.length) = parts.map fun p => m * p.1 := List.map_congr_left h
  rw [concatenated, List.length_flatMap, List.map_congr_left hblocks, List.map_const', List.sum_replicate, hlengths,
    List.sum_map_mul_left, List.length_range, nsmul_eq_mul, Nat.cast_id]

/-- A concatenation is its first operand exactly if the others are empty. -/
theorem concatenated_eq_head_iff (hl : l.length = m * n) (h : ∀ p ∈ parts, p.2.length = m * p.1) :
    concatenated m ((n, l) :: parts) = l ↔ ∀ p ∈ parts, p.2 = [] := by
  constructor
  · intro heq p hp
    have hall : ∀ p ∈ (n, l) :: parts, p.2.length = m * p.1 := List.forall_mem_cons.mpr ⟨hl, h⟩
    have hlength := concatenated_length hall
    rw [heq, List.map_cons, List.sum_cons, Nat.left_eq_add, List.sum_eq_zero_iff_forall_eq_nat] at hlength
    exact List.length_eq_zero_iff.mp (hlength _ (List.mem_map_of_mem hp))
  · intro hempty
    have hblocks : ∀ o, (((n, l) :: parts).flatMap fun p => block p.1 p.2 o) = block n l o := by
      intro o
      rw [List.flatMap_cons, List.append_right_eq_self, List.flatMap_eq_nil_iff]
      intro p hp
      rw [block, hempty p hp, List.drop_nil, List.take_nil]
    rw [concatenated, funext hblocks, flatMap_block, List.take_of_length_le hl.le]

end Concatenation

end Zkie.RowMajor
