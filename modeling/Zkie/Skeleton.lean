import Zkie.Satisfaction

namespace Zkie.Skeleton

open Synthesis Satisfaction

variable {F ε ε' α α' β β' : Type}

/-- What key generation sees of an action: everything but the advice value. -/
def skeleton : Event F → Event F
  | .advice cell _ => .advice cell none
  | e => e

/-- Two programs that both succeed lay down the same skeleton and return related results. -/
def Agree (p : Synth F ε α) (q : Synth F ε' β) (R : α → β → Prop) : Prop :=
  ∀ n a es m b fs m', p n = .ok (a, es, m) → q n = .ok (b, fs, m') →
    es.map skeleton = fs.map skeleton ∧ m = m' ∧ R a b

/-- Two lists of assigned cells with the same positions. -/
def SameCells (cells cells' : List (AssignedCell F)) : Prop :=
  List.Forall₂ (fun c c' => c.cell = c'.cell) cells cells'

theorem forall₂_of_length {xs : List α} {ys : List β} (h : xs.length = ys.length) :
    List.Forall₂ (fun _ _ => True) xs ys :=
  List.forall₂_of_length_eq_of_get h fun _ _ _ => trivial

theorem forall₂_zip_zip {P : α → β → Prop} {R : α' → β' → Prop} {as : List α} {bs : List β}
    {as' : List α'} {bs' : List β'} (h : List.Forall₂ P as bs) (h' : List.Forall₂ R as' bs') :
    List.Forall₂ (fun p q => P p.1 q.1 ∧ R p.2 q.2) (as.zip as') (bs.zip bs') := by
  induction h generalizing as' bs' with
  | nil => exact .nil
  | cons hp _ ih =>
      cases h' with
      | nil => exact .nil
      | cons hr hrs => exact .cons ⟨hp, hr⟩ (ih hrs)

theorem SameCells.zip {as as' bs bs' : List (AssignedCell F)} (ha : SameCells as as') (hb : SameCells bs bs') :
    List.Forall₂ (fun p q => p.1.cell = q.1.cell ∧ p.2.cell = q.2.cell) (as.zip bs) (as'.zip bs') :=
  forall₂_zip_zip ha hb

theorem SameCells.getD {cells cells' : List (AssignedCell F)} (h : SameCells cells cells') (t : ℕ)
    (c : AssignedCell F) : (cells.getD t c).cell = (cells'.getD t c).cell := by
  induction h generalizing t with
  | nil => rfl
  | cons hc _ ih =>
      cases t with
      | zero => exact hc
      | succ t => exact ih t

namespace Agree

variable {p : Synth F ε α} {q : Synth F ε' β} {R : α → β → Prop}

theorem pure {a : α} {b : β} (h : R a b) :
    Agree (Pure.pure a : Synth F ε α) (Pure.pure b : Synth F ε' β) R := by
  intro n a' es m b' fs m' ha hb
  obtain ⟨rfl, rfl, rfl⟩ := Synth.pure_eq_ok.mp ha
  obtain ⟨rfl, rfl, rfl⟩ := Synth.pure_eq_ok.mp hb
  exact ⟨rfl, rfl, h⟩

theorem bind {f : α → Synth F ε α'} {g : β → Synth F ε' β'} {S : α' → β' → Prop}
    (hp : Agree p q R) (hf : ∀ a b, R a b → Agree (f a) (g b) S) : Agree (p >>= f) (q >>= g) S := by
  intro n a es m b fs m' ha hb
  obtain ⟨a₁, es₁, n₁, es₂, ha₁, ha₂, rfl⟩ := Synth.bind_eq_ok.mp ha
  obtain ⟨b₁, fs₁, k₁, fs₂, hb₁, hb₂, rfl⟩ := Synth.bind_eq_ok.mp hb
  obtain ⟨hes, rfl, hr⟩ := hp n a₁ es₁ n₁ b₁ fs₁ k₁ ha₁ hb₁
  obtain ⟨hes', hm, hs⟩ := hf a₁ b₁ hr n₁ a es₂ m b fs₂ m' ha₂ hb₂
  exact ⟨by rw [List.map_append, List.map_append, hes, hes'], hm, hs⟩

theorem mono {R' : α → β → Prop} (hp : Agree p q R) (h : ∀ a b, R a b → R' a b) : Agree p q R' :=
  fun n a es m b fs m' ha hb =>
    have ⟨hes, hm, hr⟩ := hp n a es m b fs m' ha hb
    ⟨hes, hm, h a b hr⟩

theorem fail_left {e : ε} : Agree (Synth.fail e : Synth F ε α) q R := fun _ _ _ _ _ _ _ h => by cases h

theorem fail_right {e : ε'} : Agree p (Synth.fail e : Synth F ε' β) R := fun _ _ _ _ _ _ _ _ h => by
  cases h

theorem panic_left {m : String} : Agree (Synth.panic m : Synth F ε α) q R :=
  fun _ _ _ _ _ _ _ h => by cases h

theorem panic_right {m : String} : Agree p (Synth.panic m : Synth F ε' β) R :=
  fun _ _ _ _ _ _ _ _ h => by cases h

theorem check {c d : Prop} [Decidable c] [Decidable d] {m m' : String} :
    Agree (Synth.check c m : Synth F ε Unit) (Synth.check d m' : Synth F ε' Unit) fun _ _ => c ∧ d := by
  by_cases hc : c
  · by_cases hd : d
    · rw [Synth.check, if_pos hc, Synth.check, if_pos hd]
      exact pure ⟨hc, hd⟩
    · rw [Synth.check, Synth.check, if_neg hd]
      exact panic_right
  · rw [Synth.check, if_neg hc]
    exact panic_left

theorem ensure {c d : Prop} [Decidable c] [Decidable d] {e : ε} {e' : ε'} :
    Agree (Synth.ensure c e : Synth F ε Unit) (Synth.ensure d e' : Synth F ε' Unit) fun _ _ => c ∧ d := by
  by_cases hc : c
  · by_cases hd : d
    · rw [Synth.ensure, if_pos hc, Synth.ensure, if_pos hd]
      exact pure ⟨hc, hd⟩
    · rw [Synth.ensure, Synth.ensure, if_neg hd]
      exact fail_right
  · rw [Synth.ensure, if_neg hc]
    exact fail_left

theorem ofExcept {x : Except ε α} {y : Except ε' β} (h : ∀ a b, x = .ok a → y = .ok b → R a b) :
    Agree (Synth.ofExcept x : Synth F ε α) (Synth.ofExcept y : Synth F ε' β) R := by
  cases x with
  | error e => exact fail_left
  | ok a =>
      cases y with
      | error e => exact fail_right
      | ok b => exact pure (h a b rfl rfl)

theorem unwrap {x : Option α} {y : Option β} {m m' : String}
    (h : ∀ a b, x = some a → y = some b → R a b) :
    Agree (Synth.unwrap m x : Synth F ε α) (Synth.unwrap m' y : Synth F ε' β) R := by
  cases x with
  | none => exact panic_left
  | some a =>
      cases y with
      | none => exact panic_right
      | some b => exact pure (h a b rfl rfl)

theorem mapError {ε₁ ε₂ : Type} {g : ε → ε₁} {g' : ε' → ε₂} (hp : Agree p q R) :
    Agree (p.mapError g) (q.mapError g') R :=
  fun n a es m b fs m' ha hb => hp n a es m b fs m' (Synth.mapError_eq_ok.mp ha) (Synth.mapError_eq_ok.mp hb)

theorem forEach {f : α → Synth F ε α'} {g : β → Synth F ε' β'} {S : α' → β' → Prop}
    {xs : List α} {ys : List β} (hxy : List.Forall₂ R xs ys)
    (h : ∀ x y, R x y → Agree (f x) (g y) S) :
    Agree (Synth.forEach f xs) (Synth.forEach g ys) (List.Forall₂ S) := by
  induction hxy with
  | nil => exact pure .nil
  | cons hr _ ih =>
      exact (h _ _ hr).bind fun a b hab => ih.bind fun as bs habs => pure (.cons hab habs)

theorem foldEach {f : α' → α → Synth F ε α'} {g : β' → β → Synth F ε' β'} {S : α' → β' → Prop}
    {xs : List α} {ys : List β} (hxy : List.Forall₂ R xs ys)
    (h : ∀ s t x y, S s t → R x y → Agree (f s x) (g t y) S) {s : α'} {t : β'} (hst : S s t) :
    Agree (Synth.foldEach f s xs) (Synth.foldEach g t ys) S := by
  induction hxy generalizing s t with
  | nil => exact pure hst
  | cons hr _ ih => exact (h _ _ _ _ hst hr).bind fun s' t' hst' => ih hst'

theorem of_fails_left (h : Fails p) : Agree p q R := fun n _ _ _ _ _ _ ha => absurd ha (h n _)

theorem of_fails_right (h : Fails q) : Agree p q R := fun n _ _ _ _ _ _ _ hb => absurd hb (h n _)

theorem of_emits {a : α} {b : β} {es fs : List (Event F)} (hp : Emits p a es) (hq : Emits q b fs)
    (hes : es.map skeleton = fs.map skeleton) (hR : R a b) : Agree p q R := by
  intro n a' es' m b' fs' m' ha hb
  rw [hp n] at ha
  rw [hq n] at hb
  cases ha
  cases hb
  exact ⟨hes, rfl, hR⟩

theorem of_lays {a : ℕ → α} {b : ℕ → β} {es fs : ℕ → List (Event F)} (hp : Lays p a es)
    (hq : Lays q b fs) (hes : ∀ r, (es r).map skeleton = (fs r).map skeleton)
    (hR : ∀ r, R (a r) (b r)) : Agree p q R := by
  intro n a' es' m b' fs' m' ha hb
  rw [hp n] at ha
  rw [hq n] at hb
  cases ha
  cases hb
  exact ⟨hes n, rfl, hR n⟩

theorem refl (p : Synth F ε α) : Agree p p (· = ·) := by
  intro n a es m b fs m' ha hb
  rw [ha] at hb
  cases hb
  exact ⟨rfl, rfl, rfl⟩

theorem emit {e e' : Event F} (h : skeleton e = skeleton e') :
    Agree (Synth.emit (ε := ε) e) (Synth.emit (ε := ε') e') fun _ _ => True := by
  have hemit : Emits (Synth.emit (ε := ε) e) () [e] := fun _ => rfl
  have hemit' : Emits (Synth.emit (ε := ε') e') () [e'] := fun _ => rfl
  exact .of_emits hemit hemit' (by rw [List.map_singleton, List.map_singleton, h]) trivial

theorem assignAdvice (region : ℕ) (column : Plonkish.Column) (offset : ℕ) (value value' : Option F) :
    Agree (Synth.assignAdvice (ε := ε) region column offset value) (Synth.assignAdvice (ε := ε') region column offset value')
      fun c c' => c.cell = c'.cell := by
  have hemit : Agree (Synth.emit (ε := ε) (.advice ⟨region, column, offset⟩ value))
      (Synth.emit (ε := ε') (.advice ⟨region, column, offset⟩ value')) fun _ _ => True := emit rfl
  apply hemit.bind
  intro _ _ _
  exact pure rfl

theorem assignRegion {name : String} {f : ℕ → Synth F ε α} {g : ℕ → Synth F ε' β} (h : ∀ r, Agree (f r) (g r) R) :
    Agree (Synth.assignRegion name f) (Synth.assignRegion name g) R := by
  intro n
  have hname : Agree (Synth.emit (ε := ε) (.region name n)) (Synth.emit (F := F) (ε := ε') (.region name n))
      fun _ _ => True := emit rfl
  exact (hname.bind fun _ _ _ => h n) (n + 1)

theorem linkCells {name : String} {ps qs : List (AssignedCell F × AssignedCell F)}
    (h : List.Forall₂ (fun p q => p.1.cell = q.1.cell ∧ p.2.cell = q.2.cell) ps qs) :
    Agree (Synth.linkCells (ε := ε) name ps) (Synth.linkCells (ε := ε') name qs) fun _ _ => True := by
  refine of_lays (linkCells_lays name ps) (linkCells_lays name qs) (fun r => ?_) fun _ => trivial
  have hcopies : ps.map (fun p => Event.copy (F := F) p.1.cell p.2.cell) =
      qs.map fun q => Event.copy q.1.cell q.2.cell := by
    induction h with
    | nil => rfl
    | cons hpq _ ih => simp only [List.map_cons, hpq.1, hpq.2, ih]
  simp only [hcopies]

end Agree

end Zkie.Skeleton
