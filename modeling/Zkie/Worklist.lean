import Mathlib.Data.List.Nodup
import Mathlib.Logic.Relation
import Mathlib.Tactic.Set

namespace Zkie.Worklist

variable {α : Type} [DecidableEq α] (edges : List (α × α))

/-- The ends of the edges that start at a node, in the order of the edges. -/
def next (x : α) : List α := (edges.filter fun e => e.1 = x).map Prod.snd

/-- The nodes that were visited, and those that are still to visit. -/
structure State (α : Type) where
  visited : List α
  stack : List α

/-- The top of the stack is visited unless it was before; then the ends of its edges come on the stack, the last one on
the top. An empty stack ends the search. -/
def step : State α → Option (State α)
  | ⟨_, []⟩ => none
  | ⟨visited, x :: stack⟩ => some (if x ∈ visited then ⟨visited, stack⟩ else ⟨x :: visited, (next edges x).reverse ++ stack⟩)

def run : ℕ → State α → Option (List α)
  | 0, _ => none
  | fuel + 1, s => (step edges s).elim (some s.visited) (run fuel)

def Reachable (roots : List α) (x : α) : Prop := ∃ root ∈ roots, Relation.ReflTransGen (fun a b => b ∈ next edges a) root x

section Invariant

variable {edges} {roots : List α} {s s' : State α}

structure Searching (edges : List (α × α)) (roots : List α) (s : State α) : Prop where
  nodup : s.visited.Nodup
  sound : ∀ x, x ∈ s.visited ∨ x ∈ s.stack → Reachable edges roots x
  rooted : ∀ x ∈ roots, x ∈ s.visited ∨ x ∈ s.stack
  closed : ∀ x ∈ s.visited, ∀ y ∈ next edges x, y ∈ s.visited ∨ y ∈ s.stack

theorem searching_start (edges : List (α × α)) {stack : List α} (h : ∀ x, x ∈ stack ↔ x ∈ roots) :
    Searching edges roots ⟨[], stack⟩ where
  nodup := List.nodup_nil
  sound x hx := ⟨x, (h x).mp (hx.resolve_left List.not_mem_nil), .refl⟩
  rooted x hx := .inr ((h x).mpr hx)
  closed _ h := nomatch h

theorem Searching.step (h : Searching edges roots s) (hstep : step edges s = some s') : Searching edges roots s' := by
  obtain ⟨visited, _ | ⟨x, stack⟩⟩ := s
  · cases hstep
  · rw [Worklist.step] at hstep
    by_cases hx : x ∈ visited
    · rw [if_pos hx] at hstep
      cases hstep
      have hdrop : ∀ y, y ∈ visited ∨ y ∈ x :: stack → y ∈ visited ∨ y ∈ stack := by
        rintro y (hy | hy)
        · exact .inl hy
        · rcases List.mem_cons.mp hy with rfl | hy
          · exact .inl hx
          · exact .inr hy
      refine ⟨h.nodup, fun y hy => h.sound y ?_, fun y hy => hdrop y (h.rooted y hy),
        fun y hy z hz => hdrop z (h.closed y hy z hz)⟩
      exact hy.imp_right (List.mem_cons_of_mem x)
    · rw [if_neg hx] at hstep
      cases hstep
      have hmove : ∀ y, y ∈ visited ∨ y ∈ x :: stack → y ∈ x :: visited ∨ y ∈ (next edges x).reverse ++ stack := by
        rintro y (hy | hy)
        · exact .inl (List.mem_cons_of_mem x hy)
        · rcases List.mem_cons.mp hy with rfl | hy
          · exact .inl List.mem_cons_self
          · exact .inr (List.mem_append_right _ hy)
      have hreach := h.sound x (.inr List.mem_cons_self)
      refine ⟨List.nodup_cons.mpr ⟨hx, h.nodup⟩, fun y hy => ?_, fun y hy => hmove y (h.rooted y hy), fun y hy z hz => ?_⟩
      · rcases hy with hy | hy
        · rcases List.mem_cons.mp hy with rfl | hy
          · exact hreach
          · exact h.sound y (.inl hy)
        · rcases List.mem_append.mp hy with hy | hy
          · obtain ⟨root, hroot, hpath⟩ := hreach
            exact ⟨root, hroot, hpath.tail (List.mem_reverse.mp hy)⟩
          · exact h.sound y (.inr (List.mem_cons_of_mem x hy))
      · rcases List.mem_cons.mp hy with rfl | hy
        · exact .inr (List.mem_append_left _ (List.mem_reverse.mpr hz))
        · exact hmove z (h.closed y hy z hz)

/-- With nothing left to visit, the visited nodes are the reachable ones. -/
theorem Searching.finished (h : Searching edges roots s) (hstack : s.stack = []) (x : α) :
    x ∈ s.visited ↔ Reachable edges roots x := by
  have hleft : ∀ y, y ∈ s.visited ∨ y ∈ s.stack → y ∈ s.visited := by
    intro y hy
    rw [hstack] at hy
    exact hy.resolve_right List.not_mem_nil
  constructor
  · exact fun hx => h.sound x (.inl hx)
  · rintro ⟨root, hroot, hpath⟩
    induction hpath with
    | refl => exact hleft root (h.rooted root hroot)
    | tail _ hedge ih => exact hleft _ (h.closed _ ih _ hedge)

theorem run_visits {fuel : ℕ} {visited : List α} (h : Searching edges roots s) (hrun : run edges fuel s = some visited) :
    visited.Nodup ∧ ∀ x, x ∈ visited ↔ Reachable edges roots x := by
  induction fuel generalizing s with
  | zero => cases hrun
  | succ fuel ih =>
      rw [run] at hrun
      cases hstep : step edges s with
      | none =>
          rw [hstep] at hrun
          cases hrun
          obtain ⟨visited, _ | ⟨x, stack⟩⟩ := s
          · exact ⟨h.nodup, h.finished rfl⟩
          · cases hstep
      | some s' =>
          rw [hstep] at hrun
          exact ih (h.step hstep) hrun

end Invariant

section Termination

/-- The steps that are left: the stack, and the edges that can still come on it. -/
def remaining (s : State α) : ℕ := s.stack.length + (edges.filter fun e => e.1 ∉ s.visited).length

variable {edges} {s s' : State α}

/-- Every step takes one of them. -/
theorem remaining_step (hstep : step edges s = some s') : remaining edges s' + 1 = remaining edges s := by
  obtain ⟨visited, _ | ⟨x, stack⟩⟩ := s
  · cases hstep
  · rw [step] at hstep
    by_cases hx : x ∈ visited
    · rw [if_pos hx] at hstep
      cases hstep
      simp only [remaining, List.length_cons]
      omega
    · rw [if_neg hx] at hstep
      cases hstep
      have hsplit := List.length_eq_length_filter_add (l := edges.filter fun e => e.1 ∉ visited) fun e => e.1 = x
      have hfrom : ((edges.filter fun e => e.1 ∉ visited).filter fun e => e.1 = x) = edges.filter fun e => e.1 = x := by
        rw [List.filter_filter]
        apply List.filter_congr
        intro e _
        by_cases he : e.1 = x
        · simp [he, hx]
        · simp [he]
      have hother : ((edges.filter fun e => e.1 ∉ visited).filter fun e => !decide (e.1 = x)) =
          edges.filter fun e => e.1 ∉ x :: visited := by
        rw [List.filter_filter]
        apply List.filter_congr
        intro e _
        simp
      rw [hfrom, hother] at hsplit
      rw [remaining, remaining, List.length_append, List.length_reverse, next, List.length_map]
      simp only [List.length_cons]
      omega

theorem run_total {fuel : ℕ} (h : remaining edges s < fuel) : ∃ visited, run edges fuel s = some visited := by
  induction fuel generalizing s with
  | zero => exact absurd h (Nat.not_lt_zero _)
  | succ fuel ih =>
      rw [run]
      cases hstep : step edges s with
      | none => exact ⟨s.visited, rfl⟩
      | some s' =>
          have hless := remaining_step hstep
          exact ih (by omega)

end Termination

end Zkie.Worklist
