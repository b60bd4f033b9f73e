import Mathlib.Algebra.BigOperators.Group.List.Basic
import Mathlib.Algebra.BigOperators.Group.List.Lemmas
import Mathlib.Algebra.Order.BigOperators.Group.List
import Mathlib.Data.Nat.Basic
import Mathlib.Tactic.Linarith

namespace Zkie.Broadcasting

section Axes

/-- The common shape of two shapes, whose innermost axes come first here: axes are aligned from the innermost one, and an
axis of length one, or one that is missing, is stretched. -/
def align : List ℕ → List ℕ → Option (List ℕ)
  | [], t => some t
  | x :: s, [] => some (x :: s)
  | x :: s, y :: t =>
      if x = y ∨ y = 1 then (align s t).map (x :: ·)
      else if x = 1 then (align s t).map (y :: ·)
      else none

/-- The coordinates of a position, along the innermost axis first. -/
def coords : List ℕ → ℕ → List ℕ
  | [], _ => []
  | d :: ds, p => p % d :: coords ds (p / d)

/-- The position of an element. -/
def flat : List ℕ → List ℕ → ℕ
  | d :: ds, c :: cs => c + d * flat ds cs
  | _, _ => 0

/-- The coordinates of an element in an operand: those of axes that the operand lacks are dropped, and those of stretched
axes are zero. -/
def clamp (s cs : List ℕ) : List ℕ := List.zipWith (fun d c => if d = 1 then 0 else c) s cs

/-- The position that an operand of shape `s` is read at for a position of the output. -/
def source (s out : List ℕ) (p : ℕ) : ℕ := flat s (clamp s (coords out p))

variable {s t out : List ℕ} {p x d : ℕ}

@[simp]
theorem source_nil : source [] out p = 0 := rfl

@[simp]
theorem source_cons : source (x :: s) (d :: out) p = (if x = 1 then 0 else p % d) + x * source s out (p / d) := rfl

theorem source_cons_nil : source (x :: s) [] p = 0 := rfl

@[simp]
theorem align_nil_right : align s [] = some s := by cases s <;> rfl

theorem align_comm (s t : List ℕ) : align s t = align t s := by
  fun_induction align s t with
  | case1 t => rw [align_nil_right]
  | case2 x s => rfl
  | case3 x s y t hxy ih =>
      rw [ih, align]
      split
      · rename_i hyx
        obtain rfl : x = y := by omega
        rfl
      · rename_i hyx
        rw [if_pos (by omega)]
  | case4 s y t hxy ih => rw [ih, align, if_pos (.inr rfl)]
  | case5 x s y t hxy hx => rw [align, if_neg (by omega), if_neg (by omega)]

/-- An aligned pair of axes and the rest of them. -/
theorem align_cons (h : align (x :: s) (d :: t) = some out) : ∃ e out', out = e :: out' ∧ align s t = some out' ∧
    (x = e ∧ (d = e ∨ d = 1) ∨ x = 1 ∧ d = e) := by
  rw [align] at h
  split at h
  · rename_i hxd
    obtain ⟨out', halign, rfl⟩ := Option.map_eq_some_iff.mp h
    exact ⟨x, out', rfl, halign, .inl ⟨rfl, by omega⟩⟩
  · split at h
    · rename_i hx
      obtain ⟨out', halign, rfl⟩ := Option.map_eq_some_iff.mp h
      exact ⟨d, out', rfl, halign, .inr ⟨hx, rfl⟩⟩
    · cases h

theorem align_prod_le (h : align s t = some out) (hs : s.prod ≠ 0) (ht : t.prod ≠ 0) : t.prod ≤ out.prod ∧ out.prod ≠ 0 := by
  induction s generalizing t out with
  | nil =>
      cases h
      exact ⟨le_refl _, ht⟩
  | cons x s ih =>
      cases t with
      | nil =>
          rw [align_nil_right] at h
          cases h
          exact ⟨Nat.one_le_iff_ne_zero.mpr hs, hs⟩
      | cons y t =>
          obtain ⟨e, out', rfl, halign, haxis⟩ := align_cons h
          rw [List.prod_cons] at hs ht
          have hx := left_ne_zero_of_mul hs
          have hy := left_ne_zero_of_mul ht
          obtain ⟨hle, hne⟩ := ih halign (right_ne_zero_of_mul hs) (right_ne_zero_of_mul ht)
          rw [List.prod_cons, List.prod_cons]
          exact ⟨Nat.mul_le_mul (by omega) hle, Nat.mul_ne_zero (by omega) hne⟩

/-- Factors that do not exceed others with the same product are the others. -/
theorem eq_of_mul_eq {a b a' b' : ℕ} (ha : a ≤ a') (hb : b ≤ b') (hne : a' ≠ 0) (hne' : b' ≠ 0) (h : a * b = a' * b') :
    a = a' ∧ b = b' := by
  have haeq : a = a' := by
    by_contra hlt
    have hstrict := Nat.mul_lt_mul_of_lt_of_le (lt_of_le_of_ne ha hlt) hb (Nat.pos_of_ne_zero hne')
    omega
  subst haeq
  exact ⟨rfl, Nat.eq_of_mul_eq_mul_left (Nat.pos_of_ne_zero hne) h⟩

theorem mod_self_axis (d p : ℕ) : (if d = 1 then 0 else p % d) = p % d := by
  split
  · rename_i hd
    rw [hd, Nat.mod_one]
  · rfl

theorem source_self (hp : p < t.prod) : source t t p = p := by
  induction t generalizing p with
  | nil =>
      rw [List.prod_nil] at hp
      rw [source_nil]
      omega
  | cons d t ih =>
      rw [List.prod_cons] at hp
      rw [source_cons, mod_self_axis, ih (Nat.div_lt_of_lt_mul hp)]
      exact Nat.mod_add_div p d

/-- An operand that is not stretched is read in order. -/
theorem source_eq_self (h : align s t = some out) (hs : s.prod ≠ 0) (ht : t.prod ≠ 0) (heq : t.prod = out.prod)
    (hp : p < out.prod) : source t out p = p := by
  induction s generalizing t out p with
  | nil =>
      cases h
      exact source_self hp
  | cons x s ih =>
      cases t with
      | nil =>
          rw [← heq, List.prod_nil] at hp
          rw [source_nil]
          omega
      | cons y t =>
          obtain ⟨e, out', rfl, halign, haxis⟩ := align_cons h
          rw [List.prod_cons] at hs ht heq hp
          have hx := left_ne_zero_of_mul hs
          have hy := left_ne_zero_of_mul ht
          obtain ⟨hle, hne⟩ := align_prod_le halign (right_ne_zero_of_mul hs) (right_ne_zero_of_mul ht)
          rw [List.prod_cons] at heq
          obtain ⟨rfl, hrest⟩ := eq_of_mul_eq (by omega) hle (by omega) hne heq
          rw [source_cons, mod_self_axis, ih halign (right_ne_zero_of_mul hs) (right_ne_zero_of_mul ht) hrest
            (Nat.div_lt_of_lt_mul hp)]
          exact Nat.mod_add_div p y

/-- After its innermost axes `s` is made of axes of length one. -/
def Stem (s t : List ℕ) : Prop := ∃ z n r, s = z ++ List.replicate n 1 ∧ t = z ++ r

theorem align_replicate (n : ℕ) (t : List ℕ) :
    align (List.replicate n 1) t = some (t ++ List.replicate (n - t.length) 1) := by
  induction n generalizing t with
  | zero => simp [align]
  | succ n ih =>
      cases t with
      | nil => rfl
      | cons y t =>
          rw [List.replicate_succ, align, ih, Option.map_some, Option.map_some, List.length_cons, Nat.add_sub_add_right]
          by_cases hy : y = 1
          · rw [if_pos (.inr hy), hy]
            rfl
          · rw [if_neg (by omega), if_pos rfl]
            rfl

theorem align_ones (n : ℕ) (t : List ℕ) : ∃ out, align (List.replicate n 1) t = some out ∧ out.prod = t.prod :=
  ⟨_, align_replicate n t, by rw [List.prod_append, List.prod_replicate, one_pow, mul_one]⟩

theorem source_ones (n p : ℕ) (out : List ℕ) : source (List.replicate n 1) out p = 0 := by
  induction n generalizing out p with
  | zero => rfl
  | succ n ih =>
      cases out with
      | nil => rfl
      | cons d out => rw [List.replicate_succ, source_cons, if_pos rfl, ih]

/-- Every element is read off the first one of an operand only if that operand has no other. -/
theorem prod_eq_one_of_source (h : List.Forall₂ (fun x d => x = 1 ∨ x = d) s out) (hout : out.prod ≠ 0)
    (hzero : ∀ p < out.prod, source s out p = 0) : s.prod = 1 := by
  induction h with
  | nil => rfl
  | @cons x d s out haxis _ ih =>
      rw [List.prod_cons] at hout hzero ⊢
      have hd : 0 < d := Nat.pos_of_ne_zero (left_ne_zero_of_mul hout)
      have hrest : 0 < out.prod := Nat.pos_of_ne_zero (right_ne_zero_of_mul hout)
      by_cases hx : x = 1
      · rw [hx, one_mul]
        apply ih hrest.ne'
        intro p hp
        have hsource := hzero (d * p) (Nat.mul_lt_mul_of_pos_left hp hd)
        rwa [source_cons, if_pos hx, hx, zero_add, one_mul, Nat.mul_div_cancel_left p hd] at hsource
      · obtain rfl : x = d := haxis.resolve_left hx
        have htwo : 1 < x := by omega
        have hsource := hzero 1 (htwo.trans_le (Nat.le_mul_of_pos_right x hrest))
        rw [source_cons, if_neg hx, Nat.mod_eq_of_lt htwo] at hsource
        omega

/-- An operand that is stretched along outer axes only is read over and over again. -/
theorem Stem.source_eq_mod (h : Stem s t) (ht : t.prod ≠ 0) :
    ∃ out, align s t = some out ∧ out.prod = t.prod ∧ ∀ p, source s out p = p % s.prod := by
  obtain ⟨z, n, r, rfl, rfl⟩ := h
  induction z with
  | nil =>
      obtain ⟨out, halign, hprod⟩ := align_ones n r
      refine ⟨out, halign, hprod, fun p => ?_⟩
      rw [List.nil_append, source_ones, List.prod_replicate, one_pow, Nat.mod_one]
  | cons d z ih =>
      rw [List.cons_append, List.prod_cons] at ht
      obtain ⟨out, halign, hprod, hsource⟩ := ih (right_ne_zero_of_mul ht)
      refine ⟨d :: out, ?_, ?_, fun p => ?_⟩
      · rw [List.cons_append, List.cons_append, align, if_pos (.inl rfl), halign]
        rfl
      · rw [List.cons_append, List.prod_cons, List.prod_cons, hprod]
      · rw [List.cons_append, source_cons, mod_self_axis, hsource, List.prod_cons, Nat.mod_mul]

theorem eq_replicate_of_prod_eq_one (h : s.prod = 1) : s = List.replicate s.length 1 := by
  rw [List.eq_replicate_iff]
  exact ⟨rfl, fun d hd => Nat.eq_one_of_dvd_one (h ▸ List.dvd_prod hd)⟩

theorem stem_of_prod_eq_one (h : s.prod = 1) (t : List ℕ) : Stem s t :=
  ⟨[], s.length, t, eq_replicate_of_prod_eq_one h, rfl⟩

/-- An operand that is read over and over again is stretched along outer axes only. -/
theorem stem_of_source_eq_mod (h : align s t = some out) (hs : s.prod ≠ 0) (ht : t.prod ≠ 0) (heq : t.prod = out.prod)
    (hsource : ∀ p < out.prod, source s out p = p % s.prod) : Stem s t := by
  induction s generalizing t out with
  | nil => exact ⟨[], 0, t, rfl, rfl⟩
  | cons x s ih =>
      cases t with
      | nil =>
          rw [align_nil_right] at h
          cases h
          exact stem_of_prod_eq_one heq.symm []
      | cons y t =>
          obtain ⟨e, out', rfl, halign, haxis⟩ := align_cons h
          rw [List.prod_cons] at hs ht heq
          have hx := left_ne_zero_of_mul hs
          have hy := left_ne_zero_of_mul ht
          have hs' := right_ne_zero_of_mul hs
          have ht' := right_ne_zero_of_mul ht
          obtain ⟨hle, hne⟩ := align_prod_le halign hs' ht'
          rw [List.prod_cons] at heq
          obtain ⟨rfl, hrest⟩ := eq_of_mul_eq (by omega) hle (by omega) hne heq
          by_cases hxy : x = y
          · -- an axis that is not stretched: the axes outside it are read over and over again
            subst hxy
            have hrec : Stem s t := by
              apply ih halign hs' ht' hrest
              intro q hq
              have hlt : x * q < (x :: out').prod := by
                rw [List.prod_cons]
                exact Nat.mul_lt_mul_of_pos_left hq (Nat.pos_of_ne_zero hx)
              have hq' := hsource (x * q) hlt
              rw [source_cons, mod_self_axis, Nat.mul_mod_right, Nat.mul_div_cancel_left q (Nat.pos_of_ne_zero hx),
                List.prod_cons, Nat.mul_mod_mul_left, Nat.zero_add] at hq'
              exact Nat.eq_of_mul_eq_mul_left (Nat.pos_of_ne_zero hx) hq'
            obtain ⟨z, n, r, rfl, rfl⟩ := hrec
            exact ⟨x :: z, n, r, rfl, rfl⟩
          · -- a stretched axis: the second position is read from the first element, so there is only one
            obtain rfl : x = 1 := by omega
            have hlt : 1 < (y :: out').prod := by
              rw [List.prod_cons]
              have hy : 2 ≤ y := by omega
              calc 1 < 2 * 1 := by omega
                _ ≤ y * out'.prod := Nat.mul_le_mul hy (Nat.pos_of_ne_zero hne)
            have hone := hsource 1 hlt
            have hzero := hsource 0 (by omega)
            rw [source_cons, if_pos rfl, Nat.div_eq_of_lt (by omega)] at hone
            rw [source_cons, if_pos rfl, Nat.zero_div, Nat.zero_mod] at hzero
            rw [hzero] at hone
            have hprod := Nat.eq_one_of_dvd_one (Nat.dvd_of_mod_eq_zero hone.symm)
            exact stem_of_prod_eq_one hprod (y :: t)

end Axes

section Shapes

/-- The common shape of two shapes, with the outermost axes first. -/
def broadcastShape (s t : List ℕ) : Option (List ℕ) := (align s.reverse t.reverse).map List.reverse

/-- The flat position that an operand of shape `s` is read at for a flat position of the output, both in row-major order. -/
def operandIndex (s out : List ℕ) (p : ℕ) : ℕ := source s.reverse out.reverse p

/-- An elementwise operation on flat tensors of two shapes, after broadcasting. -/
def broadcastWith {α β : Type} [Inhabited α] (f : α → α → Option β) (s t : List ℕ) (a b : List α) : Option (List β) := do
  let out ← broadcastShape s t
  (List.range out.prod).mapM fun p =>
    f (a.getD (operandIndex s out p) default) (b.getD (operandIndex t out p) default)

/-- Behind leading axes of length one, `s` is the end of `t`. -/
def Trailing (s t : List ℕ) : Prop := ∃ n outer z, s = List.replicate n 1 ++ z ∧ t = outer ++ z

/-- Broadcasting reads both operands over and over again. -/
def Periodic (s t : List ℕ) : Prop := ∃ out, broadcastShape s t = some out ∧ out.prod = max s.prod t.prod ∧
  ∀ p < out.prod, operandIndex s out p = p % s.prod ∧ operandIndex t out p = p % t.prod

variable {s t out : List ℕ}

theorem broadcastShape_eq_some : broadcastShape s t = some out ↔ align s.reverse t.reverse = some out.reverse := by
  rw [broadcastShape, Option.map_eq_some_iff]
  constructor
  · rintro ⟨out', halign, rfl⟩
    rw [List.reverse_reverse]
    exact halign
  · intro halign
    exact ⟨out.reverse, halign, List.reverse_reverse out⟩

theorem broadcastShape_comm (s t : List ℕ) : broadcastShape s t = broadcastShape t s := by
  rw [broadcastShape, broadcastShape, align_comm]

theorem Periodic.symm (h : Periodic s t) : Periodic t s := by
  obtain ⟨out, hout, hprod, hindex⟩ := h
  refine ⟨out, by rw [broadcastShape_comm, hout], by rw [hprod, max_comm], fun p hp => ?_⟩
  exact (hindex p hp).symm

theorem trailing_iff_stem : Trailing s t ↔ Stem s.reverse t.reverse := by
  constructor
  · rintro ⟨n, outer, z, rfl, rfl⟩
    exact ⟨z.reverse, n, outer.reverse, by rw [List.reverse_append, List.reverse_replicate], List.reverse_append⟩
  · rintro ⟨z, n, r, hs, ht⟩
    refine ⟨n, r.reverse, z.reverse, ?_, ?_⟩
    · rw [← List.reverse_reverse s, hs, List.reverse_append, List.reverse_replicate]
    · rw [← List.reverse_reverse t, ht, List.reverse_append]

theorem Trailing.dvd (h : Trailing s t) : s.prod ∣ t.prod := by
  obtain ⟨n, outer, z, rfl, rfl⟩ := h
  rw [List.prod_append, List.prod_append, List.prod_replicate, one_pow, one_mul]
  exact Dvd.intro_left _ rfl

theorem Trailing.periodic (h : Trailing s t) (hs : s.prod ≠ 0) (ht : t.prod ≠ 0) : Periodic s t := by
  rw [← List.prod_reverse] at hs ht
  obtain ⟨out, halign, hprod, hsource⟩ := (trailing_iff_stem.mp h).source_eq_mod ht
  have hle := Nat.le_of_dvd (Nat.pos_of_ne_zero (by rwa [List.prod_reverse] at ht)) h.dvd
  refine ⟨out.reverse, broadcastShape_eq_some.mpr (by rwa [List.reverse_reverse]), ?_, fun p hp => ?_⟩
  · rw [List.prod_reverse, hprod, List.prod_reverse, max_eq_right hle]
  · rw [List.prod_reverse] at hp
    rw [operandIndex, operandIndex, List.reverse_reverse, hsource, source_eq_self halign hs ht hprod.symm hp,
      List.prod_reverse]
    refine ⟨rfl, (Nat.mod_eq_of_lt ?_).symm⟩
    rwa [hprod, List.prod_reverse] at hp

theorem Periodic.trailing (h : Periodic s t) (hs : s.prod ≠ 0) (ht : t.prod ≠ 0) (hle : s.prod ≤ t.prod) : Trailing s t := by
  obtain ⟨out, hout, hprod, hindex⟩ := h
  rw [max_eq_right hle] at hprod
  apply trailing_iff_stem.mpr
  apply stem_of_source_eq_mod (broadcastShape_eq_some.mp hout)
  · rwa [List.prod_reverse]
  · rwa [List.prod_reverse]
  · rw [List.prod_reverse, List.prod_reverse, hprod]
  · intro p hp
    rw [List.prod_reverse] at hp ⊢
    exact (hindex p hp).1

/-- Operands are read over and over again if one of the shapes is the end of the other. -/
theorem periodic_iff_trailing (hs : s.prod ≠ 0) (ht : t.prod ≠ 0) : Periodic s t ↔ Trailing s t ∨ Trailing t s := by
  constructor
  · intro h
    rcases le_total s.prod t.prod with hle | hle
    · exact .inl (h.trailing hs ht hle)
    · exact .inr (h.symm.trailing ht hs hle)
  · rintro (h | h)
    · exact h.periodic hs ht
    · exact (h.periodic ht hs).symm

end Shapes

end Zkie.Broadcasting
