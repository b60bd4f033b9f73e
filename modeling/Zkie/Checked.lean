import Mathlib.Data.List.Forall2

namespace Zkie.Checked

variable {ε α β : Type}

theorem bind_eq_ok {x : Except ε α} {f : α → Except ε β} {b : β} : x >>= f = .ok b ↔ ∃ a, x = .ok a ∧ f a = .ok b := by
  cases x with
  | error e =>
      constructor
      · intro h
        cases h
      · rintro ⟨a, ha, -⟩
        cases ha
  | ok a =>
      constructor
      · intro h
        exact ⟨a, rfl, h⟩
      · rintro ⟨_, ha, h⟩
        cases ha
        exact h

theorem bind_ne_error {x : Except ε α} {f : α → Except ε β} {e : ε} (hx : x ≠ .error e)
    (hf : ∀ a, x = .ok a → f a ≠ .error e) : (x >>= f) ≠ .error e := by
  cases x with
  | error e' => simpa [bind, Except.bind] using hx
  | ok a => exact hf a rfl

/-- A fold succeeds if every step does, from what the steps before it have established. -/
theorem foldlM_total {I : List α → β → Prop} {f : β → α → Except ε β} {xs : List α}
    (h : ∀ done x rest b, xs = done ++ x :: rest → I done b → ∃ b', f b x = .ok b' ∧ I (done ++ [x]) b') {b : β}
    (hb : I [] b) : ∃ b', xs.foldlM f b = .ok b' ∧ I xs b' := by
  have hsuffix : ∀ rest done b, xs = done ++ rest → I done b → ∃ b', rest.foldlM f b = .ok b' ∧ I xs b' := by
    intro rest
    induction rest with
    | nil =>
        intro done b hxs hdone
        rw [List.append_nil] at hxs
        exact ⟨b, rfl, hxs ▸ hdone⟩
    | cons x rest ih =>
        intro done b hxs hdone
        obtain ⟨b', hstep, hdone'⟩ := h done x rest b hxs hdone
        obtain ⟨b'', hrest, hall⟩ := ih (done ++ [x]) b' (by rw [hxs, List.append_assoc]; rfl) hdone'
        exact ⟨b'', by rw [List.foldlM_cons]; exact bind_eq_ok.mpr ⟨b', hstep, hrest⟩, hall⟩
  exact hsuffix xs [] b rfl hb

theorem foldlM_ne_error {f : β → α → Except ε β} {xs : List α} {e : ε} (h : ∀ b, ∀ x ∈ xs, f b x ≠ .error e) (b : β) :
    xs.foldlM f b ≠ .error e := by
  induction xs generalizing b with
  | nil => exact fun hnil => nomatch hnil
  | cons x xs ih =>
      rw [List.foldlM_cons]
      apply bind_ne_error (h b x (.head _))
      intro b' _
      exact ih (fun b x hx => h b x (.tail _ hx)) b'

/-- Every step of a fold that succeeds does. -/
theorem foldlM_ok_step {f : β → α → Except ε β} {xs : List α} {b b' : β} (h : xs.foldlM f b = .ok b') {x : α}
    (hx : x ∈ xs) : ∃ c c', f c x = .ok c' := by
  induction xs generalizing b with
  | nil => cases hx
  | cons y xs ih =>
      rw [List.foldlM_cons] at h
      obtain ⟨c, hstep, hrest⟩ := bind_eq_ok.mp h
      rcases List.mem_cons.mp hx with rfl | hx
      · exact ⟨b, c, hstep⟩
      · exact ih hrest hx

/-- What a step establishes of the elements up to its own, a fold that succeeds establishes of all. -/
theorem foldlM_builds {I : List α → β → Prop} {f : β → α → Except ε β}
    (hf : ∀ done b x b', I done b → f b x = .ok b' → I (done ++ [x]) b') (done : List α) {xs : List α} {b b' : β}
    (hb : I done b) (h : xs.foldlM f b = .ok b') : I (done ++ xs) b' := by
  induction xs generalizing done b with
  | nil =>
      cases h
      rwa [List.append_nil]
  | cons x xs ih =>
      rw [List.foldlM_cons] at h
      obtain ⟨c, hstep, hrest⟩ := bind_eq_ok.mp h
      rw [List.append_cons]
      exact ih (done ++ [x]) (hf done b x c hb hstep) hrest

/-- What every step keeps, a fold that succeeds keeps. -/
theorem foldlM_keeps {I : β → Prop} {f : β → α → Except ε β} (hf : ∀ b x b', I b → f b x = .ok b' → I b') {xs : List α}
    {b b' : β} (hb : I b) (h : xs.foldlM f b = .ok b') : I b' :=
  foldlM_builds (I := fun _ => I) (fun _ => hf) [] hb h

/-- A fold over something ends with a step. -/
theorem foldlM_last {f : β → α → Except ε β} {x : α} {xs : List α} {b b' : β} (h : (x :: xs).foldlM f b = .ok b') :
    ∃ c y, f c y = .ok b' := by
  induction xs generalizing x b with
  | nil =>
      rw [List.foldlM_cons] at h
      obtain ⟨c, hstep, hnil⟩ := bind_eq_ok.mp h
      cases hnil
      exact ⟨b, x, hstep⟩
  | cons y xs ih =>
      rw [List.foldlM_cons] at h
      obtain ⟨c, -, hrest⟩ := bind_eq_ok.mp h
      exact ih hrest

theorem forM_ok {f : α → Except ε Unit} {xs : List α} : xs.forM f = .ok () ↔ ∀ x ∈ xs, f x = .ok () := by
  induction xs with
  | nil =>
      constructor
      · intro _ x hx
        cases hx
      · intro _
        rfl
  | cons x xs ih =>
      change (f x >>= fun _ => xs.forM f) = .ok () ↔ _
      rw [bind_eq_ok, List.forall_mem_cons, ← ih]
      constructor
      · rintro ⟨_, hx, hxs⟩
        exact ⟨hx, hxs⟩
      · rintro ⟨hx, hxs⟩
        exact ⟨(), hx, hxs⟩

theorem mapM_eq_ok {f : α → Except ε β} {xs : List α} {ys : List β} :
    xs.mapM f = .ok ys ↔ List.Forall₂ (fun x y => f x = .ok y) xs ys := by
  induction xs generalizing ys with
  | nil =>
      rw [List.mapM_nil, List.forall₂_nil_left_iff]
      constructor
      · intro h
        cases h
        rfl
      · rintro rfl
        rfl
  | cons x xs ih =>
      rw [List.mapM_cons, List.forall₂_cons_left_iff]
      simp only [bind_eq_ok, ih]
      constructor
      · rintro ⟨y, hy, ys', hys, h⟩
        cases h
        exact ⟨y, ys', hy, hys, rfl⟩
      · rintro ⟨y, ys', hy, hys, rfl⟩
        exact ⟨y, hy, ys', hys, rfl⟩

theorem mapM_eq_some {f : α → Option β} {xs : List α} {ys : List β} :
    xs.mapM f = some ys ↔ List.Forall₂ (fun x y => f x = some y) xs ys := by
  induction xs generalizing ys with
  | nil => simp [List.forall₂_nil_left_iff, eq_comm]
  | cons x xs ih =>
      rw [List.mapM_cons, List.forall₂_cons_left_iff]
      simp only [Option.bind_eq_bind, Option.bind_eq_some_iff, ih]
      constructor
      · rintro ⟨y, hy, ys', hys, h⟩
        cases h
        exact ⟨y, ys', hy, hys, rfl⟩
      · rintro ⟨y, ys', hy, hys, rfl⟩
        exact ⟨y, hy, ys', hys, rfl⟩

theorem mapM_eq_some_map {f : α → Option β} {g : α → β} {xs : List α} (h : ∀ x ∈ xs, f x = some (g x)) :
    xs.mapM f = some (xs.map g) := by
  rw [mapM_eq_some, List.forall₂_map_right_iff, List.forall₂_same]
  exact h

theorem mapM_imp {f g : α → Option β} {xs : List α} {ys : List β} (hfg : ∀ x y, f x = some y → g x = some y)
    (h : xs.mapM f = some ys) : xs.mapM g = some ys :=
  mapM_eq_some.mpr ((mapM_eq_some.mp h).imp fun x y => hfg x y)

/-- Two passes over a list with the same results. -/
theorem mapM_both {f g : α → Option β} {xs : List α} {ys : List β} (hf : xs.mapM f = some ys) (hg : xs.mapM g = some ys)
    {x : α} (hx : x ∈ xs) : ∃ y, f x = some y ∧ g x = some y := by
  rw [mapM_eq_some] at hf hg
  induction hf with
  | nil => cases hx
  | @cons x' y xs ys hxy _ ih =>
      rw [List.forall₂_cons] at hg
      rcases List.mem_cons.mp hx with rfl | hx
      · exact ⟨y, hxy, hg.1⟩
      · exact ih hg.2 hx

theorem mapM_congr {m : Type → Type} [Monad m] [LawfulMonad m] {f g : α → m β} {xs : List α} (h : ∀ x ∈ xs, f x = g x) :
    xs.mapM f = xs.mapM g := by
  induction xs with
  | nil => rfl
  | cons x xs ih => rw [List.mapM_cons, List.mapM_cons, h x (.head _), ih fun y hy => h y (.tail _ hy)]

/-- A pass over a list whose steps all succeed. -/
theorem mapM_eq_map {f : α → Except ε β} {g : α → β} {xs : List α} (h : ∀ x ∈ xs, f x = .ok (g x)) :
    xs.mapM f = .ok (xs.map g) := by
  rw [mapM_eq_ok, List.forall₂_map_right_iff, List.forall₂_same]
  exact h

end Zkie.Checked
