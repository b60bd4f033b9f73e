import Mathlib

namespace Zkie.Kahn

section Loop

/-- One edge is taken out; its end joins the worklist when it was the last one. -/
def release (s : (ℕ → ℕ) × List ℕ) (next : ℕ) : (ℕ → ℕ) × List ℕ :=
  (Function.update s.1 next (s.1 next - 1), if s.1 next - 1 = 0 then s.2 ++ [next] else s.2)

/-- The worklist loop, for at most `fuel` nodes. -/
def loop (adjacency : ℕ → List ℕ) : ℕ → (ℕ → ℕ) → List ℕ → List ℕ → List ℕ
  | 0, _, _, order => order
  | _ + 1, _, [], order => order
  | fuel + 1, degree, i :: worklist, order =>
      loop adjacency fuel ((adjacency i).foldl release (degree, worklist)).1
        ((adjacency i).foldl release (degree, worklist)).2 (order ++ [i])

/-- The order in which the nodes below `n` lose their last incoming edge. -/
def sort (n : ℕ) (adjacency : ℕ → List ℕ) (degree : ℕ → ℕ) : List ℕ :=
  loop adjacency n degree ((List.range n).filter fun i => degree i = 0) []

theorem foldl_release {l : List ℕ} (hl : l.Nodup) (degree : ℕ → ℕ) (worklist : List ℕ) :
    l.foldl release (degree, worklist) = (fun j => if j ∈ l then degree j - 1 else degree j,
      worklist ++ l.filter fun j => degree j - 1 = 0) := by
  induction l generalizing degree worklist with
  | nil => simp
  | cons i l ih =>
      obtain ⟨hi, hl⟩ := List.nodup_cons.mp hl
      have hother : ∀ j ∈ l, Function.update degree i (degree i - 1) j = degree j := by
        intro j hj
        apply Function.update_of_ne
        rintro rfl
        exact hi hj
      rw [List.foldl_cons, release, ih hl]
      congr 1
      · funext j
        by_cases hj : j = i
        · subst hj
          simp [hi]
        · simp [hj]
      · have hfilter : (l.filter fun j => Function.update degree i (degree i - 1) j - 1 = 0) =
            l.filter fun j => degree j - 1 = 0 := by
          apply List.filter_congr
          intro j hj
          rw [hother j hj]
        rw [hfilter, List.filter_cons]
        by_cases hzero : degree i - 1 = 0
        · simp [hzero]
        · simp [hzero]

end Loop

section Correctness

variable (n : ℕ) (preds : ℕ → List ℕ)

/-- The edges of a graph that is given by the predecessors of its nodes. -/
def Edge (i j : ℕ) : Prop := j < n ∧ i ∈ preds j

def Acyclic : Prop := ∀ i, ¬Relation.TransGen (Edge n preds) i i

/-- Predecessors come first. -/
def Sorted (order : List ℕ) : Prop := ∀ done i rest, order = done ++ i :: rest → ∀ p ∈ preds i, p ∈ done

def adjacencyOf (i : ℕ) : List ℕ := (List.range n).filter fun j => i ∈ preds j

/-- The nodes in `order` are done, those in `worklist` are left without a predecessor that is not. -/
structure Invariant (degree : ℕ → ℕ) (worklist order : List ℕ) : Prop where
  nodup : (order ++ worklist).Nodup
  bound : ∀ i ∈ order ++ worklist, i < n
  counts : ∀ j < n, degree j = ((preds j).filter fun p => p ∉ order).length
  zero : ∀ j < n, degree j = 0 ↔ j ∈ order ++ worklist
  sorted : Sorted preds order

variable {n preds} {degree : ℕ → ℕ} {worklist order : List ℕ}

theorem Sorted.append {i : ℕ} (h : Sorted preds order) (hi : ∀ p ∈ preds i, p ∈ order) : Sorted preds (order ++ [i]) := by
  intro done j rest hsplit p hp
  rcases List.append_eq_append_iff.mp hsplit with ⟨l, hdone, hl⟩ | ⟨l, horder, hl⟩
  · cases l with
    | nil =>
        simp only [List.nil_append, List.cons.injEq] at hl
        rw [hdone, List.append_nil]
        exact hi p (hl.1 ▸ hp)
    | cons k l => simp at hl
  · cases l with
    | nil =>
        simp only [List.nil_append, List.cons.injEq] at hl
        rw [horder, List.append_nil] at hi
        exact hi p (hl.1 ▸ hp)
    | cons k l =>
        rw [List.cons_append, List.cons.injEq] at hl
        exact h done j l (by rw [horder, hl.1]) p hp

theorem filter_notMem_append {l : List ℕ} (hl : l.Nodup) {i : ℕ} (hi : i ∉ order) :
    (l.filter fun p => p ∉ order ++ [i]).length = (l.filter fun p => p ∉ order).length - if i ∈ l then 1 else 0 := by
  have hfilter : (l.filter fun p => p ∉ order ++ [i]) = (l.filter fun p => p ∉ order).erase i := by
    rw [(hl.filter _).erase_eq_filter, List.filter_filter]
    apply List.filter_congr
    intro p _
    by_cases hp : p ∈ order <;> by_cases hpi : p = i <;> simp [hp, hpi]
  rw [hfilter, List.length_erase]
  simp [List.mem_filter, hi]
  split <;> rfl

theorem Invariant.step {i : ℕ} (hnodup : ∀ j < n, (preds j).Nodup) (h : Invariant n preds degree (i :: worklist) order) :
    Invariant n preds ((adjacencyOf n preds i).foldl release (degree, worklist)).1
      ((adjacencyOf n preds i).foldl release (degree, worklist)).2 (order ++ [i]) := by
  have hadjacent : ∀ j, j ∈ adjacencyOf n preds i ↔ j < n ∧ i ∈ preds j := by
    intro j
    simp [adjacencyOf]
  have hi : i ∉ order := by
    intro hmem
    exact (List.disjoint_of_nodup_append h.nodup) hmem (.head _)
  have hin : i < n := h.bound i (by simp)
  have hadjacency : (adjacencyOf n preds i).Nodup := List.nodup_range.filter _
  rw [foldl_release hadjacency]
  have hdegree : ∀ j < n, (if j ∈ adjacencyOf n preds i then degree j - 1 else degree j) =
      ((preds j).filter fun p => p ∉ order ++ [i]).length := by
    intro j hj
    rw [filter_notMem_append (hnodup j hj) hi, ← h.counts j hj]
    by_cases hmem : i ∈ preds j
    · simp [hadjacent, hj, hmem]
    · simp [hadjacent, hmem]
  -- a successor of the node still waits for it
  have hwaits : ∀ j ∈ adjacencyOf n preds i, j ∉ order ++ i :: worklist := by
    intro j hj hmem
    obtain ⟨hjn, hpred⟩ := (hadjacent j).mp hj
    have hzero := (h.zero j hjn).mpr hmem
    rw [h.counts j hjn, List.length_eq_zero_iff] at hzero
    exact absurd (List.mem_filter.mpr ⟨hpred, decide_eq_true hi⟩) (hzero ▸ List.not_mem_nil)
  have hmem : ∀ j, j ∈ order ++ [i] ++ (worklist ++ (adjacencyOf n preds i).filter fun j => degree j - 1 = 0) ↔
      j ∈ order ++ i :: worklist ∨ j ∈ adjacencyOf n preds i ∧ degree j - 1 = 0 := by
    intro j
    simp only [List.mem_append, List.mem_cons, List.not_mem_nil, or_false, List.mem_filter, decide_eq_true_eq]
    tauto
  refine ⟨?_, ?_, hdegree, ?_, ?_⟩
  · rw [← List.append_assoc, List.append_assoc order, List.singleton_append]
    apply h.nodup.append (hadjacency.filter _)
    intro j hold hnew
    exact hwaits j (List.mem_of_mem_filter hnew) hold
  · intro j hj
    rcases (hmem j).mp hj with hold | hnew
    · exact h.bound j hold
    · exact ((hadjacent j).mp hnew.1).1
  · intro j hj
    rw [hmem]
    by_cases hadj : j ∈ adjacencyOf n preds i
    · simp [hadj, hwaits j hadj]
    · simp only [hadj, if_false, false_and, or_false]
      exact h.zero j hj
  · apply h.sorted.append
    intro p hp
    have hzero := (h.zero i hin).mpr (by simp)
    rw [h.counts i hin, List.length_eq_zero_iff] at hzero
    by_contra hout
    exact absurd (List.mem_filter.mpr ⟨hp, decide_eq_true hout⟩) (hzero ▸ List.not_mem_nil)

theorem Invariant.length_le (h : Invariant n preds degree worklist order) : order.length + worklist.length ≤ n := by
  have hsub : (order ++ worklist).length ≤ (List.range n).length :=
    (h.nodup.subperm fun i hi => List.mem_range.mpr (h.bound i hi)).length_le
  simpa using hsub

/-- The loop runs until the worklist is empty. -/
theorem loop_invariant {fuel : ℕ} (hnodup : ∀ j < n, (preds j).Nodup) (h : Invariant n preds degree worklist order)
    (hfuel : n ≤ order.length + fuel) :
    ∃ degree', Invariant n preds degree' [] (loop (adjacencyOf n preds) fuel degree worklist order) := by
  induction fuel generalizing degree worklist order with
  | zero =>
      have hlength := h.length_le
      obtain rfl : worklist = [] := List.length_eq_zero_iff.mp (by omega)
      exact ⟨degree, h⟩
  | succ fuel ih =>
      cases worklist with
      | nil => exact ⟨degree, h⟩
      | cons i worklist => exact ih (h.step hnodup) (by simp; omega)

theorem initial_invariant (hdegree : ∀ j < n, degree j = (preds j).length) :
    Invariant n preds degree ((List.range n).filter fun i => degree i = 0) [] where
  nodup := List.nodup_range.filter _
  bound i hi := List.mem_range.mp (List.mem_of_mem_filter hi)
  counts j hj := by simp [hdegree j hj]
  zero j hj := by simp [hj]
  sorted := by
    intro done i rest hsplit
    simp at hsplit

/-- A sorted list has no cycle. -/
theorem Sorted.not_transGen (h : Sorted preds order) (hnodup : order.Nodup) {i j : ℕ}
    (hpath : Relation.TransGen (Edge n preds) i j) (hj : j ∈ order) : order.idxOf i < order.idxOf j := by
  have hstep : ∀ {p j}, Edge n preds p j → j ∈ order → p ∈ order ∧ order.idxOf p < order.idxOf j := by
    intro p j hedge hj
    obtain ⟨done, rest, hsplit⟩ := List.append_of_mem hj
    have hp := h done j rest hsplit p hedge.2
    have hdone : j ∉ done := by
      intro hmem
      rw [hsplit] at hnodup
      exact (List.disjoint_of_nodup_append hnodup) hmem (.head _)
    refine ⟨hsplit ▸ List.mem_append_left _ hp, ?_⟩
    rw [hsplit, List.idxOf_append_of_mem hp, List.idxOf_append_of_notMem hdone, List.idxOf_cons_self]
    exact Nat.lt_add_right _ (List.idxOf_lt_length_of_mem hp)
  induction hpath with
  | single hedge => exact (hstep hedge hj).2
  | tail _ hedge ih =>
      obtain ⟨hp, hlt⟩ := hstep hedge hj
      exact (ih hp).trans hlt

/-- The sort is complete exactly for acyclic graphs, and it is then a topological order of all nodes. -/
theorem sort_spec (hnodup : ∀ j < n, (preds j).Nodup) (hbound : ∀ j < n, ∀ p ∈ preds j, p < n)
    (hdegree : ∀ j < n, degree j = (preds j).length) :
    ((sort n (adjacencyOf n preds) degree).length = n ↔ Acyclic n preds) ∧
      ((sort n (adjacencyOf n preds) degree).length = n →
        (sort n (adjacencyOf n preds) degree).Perm (List.range n) ∧ Sorted preds (sort n (adjacencyOf n preds) degree)) := by
  have hinvariant : ∃ degree', Invariant n preds degree' [] (sort n (adjacencyOf n preds) degree) :=
    loop_invariant hnodup (initial_invariant hdegree) (by simp)
  obtain ⟨degree', h⟩ := hinvariant
  generalize sort n (adjacencyOf n preds) degree = order at h ⊢
  have hnodup' : order.Nodup := by simpa using h.nodup
  have hsub : order.Subperm (List.range n) :=
    hnodup'.subperm fun i hi => List.mem_range.mpr (h.bound i (by simpa using hi))
  have hperm : order.length = n → order.Perm (List.range n) := fun hlength =>
    hsub.perm_of_length_le (by simp [hlength])
  refine ⟨⟨?_, ?_⟩, fun hlength => ⟨hperm hlength, h.sorted⟩⟩
  · intro hlength i hcycle
    have hi : i < n := by
      cases hcycle with
      | single hedge => exact hedge.1
      | tail _ hedge => exact hedge.1
    have hmem : i ∈ order := (hperm hlength).mem_iff.mpr (List.mem_range.mpr hi)
    exact absurd (h.sorted.not_transGen hnodup' hcycle hmem) (lt_irrefl _)
  · intro hacyclic
    have hall : ∀ j < n, j ∈ order := by
      -- otherwise, of the nodes that are left, take one that comes after no other
      have hwf : WellFounded fun a b : Fin n => Relation.TransGen (Edge n preds) a b := by
        have htrans : IsTrans (Fin n) fun a b => Relation.TransGen (Edge n preds) a b := ⟨fun _ _ _ => .trans⟩
        have hirrefl : Std.Irrefl fun a b : Fin n => Relation.TransGen (Edge n preds) a b := ⟨fun a => hacyclic a⟩
        exact Finite.wellFounded_of_trans_of_irrefl _
      intro j hj
      induction hjn : (⟨j, hj⟩ : Fin n) using hwf.induction generalizing j with
      | _ k ih =>
          subst hjn
          have hzero : degree' j = 0 := by
            rw [h.counts j hj, List.length_eq_zero_iff, List.filter_eq_nil_iff]
            intro p hp
            have hedge : Edge n preds p j := ⟨hj, hp⟩
            have hmem := ih ⟨p, hbound j hj p hp⟩ (.single hedge) p (hbound j hj p hp) rfl
            simpa using hmem
          simpa using (h.zero j hj).mp hzero
    have hle : (List.range n).Subperm order := List.nodup_range.subperm fun i hi => hall i (List.mem_range.mp hi)
    have hlength := (hsub.antisymm hle).length_eq
    simpa using hlength

end Correctness

end Zkie.Kahn
