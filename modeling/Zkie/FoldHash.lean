import Mathlib.Data.List.Basic
import Mathlib.Data.List.Induction

namespace Zkie.FoldHash

variable {α : Type} (compress : α → α → α)

/-- The pairs that folding the items into a state compresses, in order. -/
def inputs : α → List α → List (α × α)
  | _, [] => []
  | state, x :: xs => (state, x) :: inputs (compress state x) xs

/-- Two different pairs, one of each fold, that are compressed to one value. -/
def Collision (start : α) (xs ys : List α) : Prop :=
  ∃ p ∈ inputs compress start xs, ∃ q ∈ inputs compress start ys, p ≠ q ∧ compress p.1 p.2 = compress q.1 q.2

/-- A pair of one of the folds that is compressed to the start. -/
def ReachesStart (start : α) (xs ys : List α) : Prop :=
  ∃ p ∈ inputs compress start xs ++ inputs compress start ys, compress p.1 p.2 = start

variable {compress}

theorem inputs_append (start : α) (xs ys : List α) :
    inputs compress start (xs ++ ys) = inputs compress start xs ++ inputs compress (xs.foldl compress start) ys := by
  induction xs generalizing start with
  | nil => rfl
  | cons x xs ih => simp [inputs, ih]

theorem mem_inputs_append {start : α} {xs : List α} {p : α × α} (x : α) (h : p ∈ inputs compress start xs) :
    p ∈ inputs compress start (xs ++ [x]) := by
  rw [inputs_append]
  exact List.mem_append_left _ h

theorem last_mem_inputs (start : α) (xs : List α) (x : α) :
    (xs.foldl compress start, x) ∈ inputs compress start (xs ++ [x]) := by
  rw [inputs_append]
  exact List.mem_append_right _ (List.mem_cons_self ..)

theorem Collision.append {start : α} {xs ys : List α} (x y : α) (h : Collision compress start xs ys) :
    Collision compress start (xs ++ [x]) (ys ++ [y]) := by
  obtain ⟨p, hp, q, hq, hne, heq⟩ := h
  exact ⟨p, mem_inputs_append x hp, q, mem_inputs_append y hq, hne, heq⟩

theorem ReachesStart.append {start : α} {xs ys : List α} (x y : α) (h : ReachesStart compress start xs ys) :
    ReachesStart compress start (xs ++ [x]) (ys ++ [y]) := by
  obtain ⟨p, hp, heq⟩ := h
  refine ⟨p, ?_, heq⟩
  rcases List.mem_append.mp hp with hp | hp
  · exact List.mem_append_left _ (mem_inputs_append x hp)
  · exact List.mem_append_right _ (mem_inputs_append y hp)

/-- A fold without a final tag still binds its items: chains of different lengths are compared from
their ends, and the longer one passes through the start or collides before. -/
theorem binding (start : α) (xs ys : List α) (h : xs.foldl compress start = ys.foldl compress start) :
    xs = ys ∨ Collision compress start xs ys ∨ ReachesStart compress start xs ys := by
  induction xs using List.reverseRecOn generalizing ys with
  | nil =>
      rcases List.eq_nil_or_concat ys with rfl | ⟨ys, y, rfl⟩
      · exact Or.inl rfl
      · rw [List.concat_eq_append, List.foldl_concat] at h
        rw [List.concat_eq_append]
        exact Or.inr (Or.inr ⟨_, List.mem_append_right _ (last_mem_inputs start ys y), h.symm⟩)
  | append_singleton xs x ih =>
      rw [List.foldl_concat] at h
      rcases List.eq_nil_or_concat ys with rfl | ⟨ys, y, rfl⟩
      · exact Or.inr (Or.inr ⟨_, List.mem_append_left _ (last_mem_inputs start xs x), h⟩)
      · rw [List.concat_eq_append, List.foldl_concat] at h
        rw [List.concat_eq_append]
        by_cases hpair : (xs.foldl compress start, x) = (ys.foldl compress start, y)
        · obtain ⟨hstate, hitem⟩ := Prod.ext_iff.mp hpair
          rcases ih ys hstate with heq | hcollision | hstart
          · exact Or.inl (by rw [heq, show x = y from hitem])
          · exact Or.inr (Or.inl (hcollision.append x y))
          · exact Or.inr (Or.inr (hstart.append x y))
        · exact Or.inr (Or.inl ⟨_, last_mem_inputs start xs x, _, last_mem_inputs start ys y, hpair, h⟩)

end Zkie.FoldHash
