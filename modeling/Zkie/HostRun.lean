import Zkie.Checked
import Zkie.Satisfaction

namespace Zkie.HostRun

open Synthesis Satisfaction

variable {F ε ε' α β : Type}

theorem exists_mapM {γ : Type} {v : α → Option γ} {Q : β → γ → Prop} {xs : List α} {ys : List β}
    (h : List.Forall₂ (fun x y => ∃ z, Q y z ∧ v x = some z) xs ys) :
    ∃ zs, List.Forall₂ Q ys zs ∧ xs.mapM v = some zs := by
  obtain ⟨xs', zs, hxs, hzs, hv⟩ := forall₂_choose (P := fun x x' => x = x') (Q := Q) (R := fun x z => v x = some z)
    (h.imp fun x y ⟨z, hq, hz⟩ => ⟨x, z, rfl, hq, hz⟩)
  rw [List.forall₂_eq_eq_eq] at hxs
  exact ⟨zs, hzs, Checked.mapM_eq_some.mpr (hxs ▸ hv)⟩

theorem mapM_zip_fst {γ : Type} (v : α → Option γ) {xs : List α} {ys : List β} (h : xs.length ≤ ys.length) :
    ((xs.zip ys).mapM fun p => v p.1) = xs.mapM v := by
  conv_rhs => rw [← List.map_fst_zip h, List.mapM_map]
  rfl

/-- The program succeeds exactly when `c` holds, and then its result satisfies `P`. Neither may
depend on the number of regions laid down before. -/
def Decides (p : Synth F ε α) (c : Prop) (P : α → Prop) : Prop :=
  ∀ n, (∀ a es n', p n = .ok (a, es, n') → c ∧ P a) ∧ (c → ∃ r, p n = .ok r)

namespace Decides

variable {p : Synth F ε α} {f : α → Synth F ε β} {c d : Prop} {P : α → Prop} {Q : β → Prop}

theorem bind (hp : Decides p c P) (hf : ∀ a, P a → Decides (f a) d Q) :
    Decides (p >>= f) (c ∧ d) Q := by
  intro n
  constructor
  · intro b es n'' hrun
    obtain ⟨a, es₁, n', es₂, ha, hb, rfl⟩ := Synth.bind_eq_ok.mp hrun
    obtain ⟨hc, hpa⟩ := (hp n).1 a es₁ n' ha
    obtain ⟨hd, hqb⟩ := (hf a hpa n').1 b es₂ n'' hb
    exact ⟨⟨hc, hd⟩, hqb⟩
  · rintro ⟨hc, hd⟩
    obtain ⟨⟨a, es, n'⟩, ha⟩ := (hp n).2 hc
    have hpa := ((hp n).1 a es n' ha).2
    obtain ⟨⟨b, es', n''⟩, hb⟩ := (hf a hpa n').2 hd
    exact ⟨_, Synth.bind_eq_ok.mpr ⟨a, es, n', es', ha, hb, rfl⟩⟩

/-- Sequencing when the result carries a host value `v` on which the rest depends. -/
theorem bind_some {γ : Type} {v : Option γ} {g : α → γ} {d : γ → Prop}
    (hp : Decides p (c ∧ v.isSome) fun a => v = some (g a))
    (hf : ∀ a, v = some (g a) → Decides (f a) (d (g a)) Q) :
    Decides (p >>= f) (c ∧ ∃ x, v = some x ∧ d x) Q := by
  intro n
  constructor
  · intro b es n'' hrun
    obtain ⟨a, es₁, n', es₂, ha, hb, rfl⟩ := Synth.bind_eq_ok.mp hrun
    obtain ⟨hc, hv⟩ := (hp n).1 a es₁ n' ha
    obtain ⟨hd, hqb⟩ := (hf a hv n').1 b es₂ n'' hb
    exact ⟨⟨hc.1, g a, hv, hd⟩, hqb⟩
  · rintro ⟨hc, x, hx, hd⟩
    obtain ⟨⟨a, es, n'⟩, ha⟩ := (hp n).2 ⟨hc, by rw [hx]; rfl⟩
    have hv := ((hp n).1 a es n' ha).2
    obtain rfl : x = g a := by rw [hx] at hv; exact Option.some.inj hv
    obtain ⟨⟨b, es', n''⟩, hb⟩ := (hf a hv n').2 hd
    exact ⟨_, Synth.bind_eq_ok.mpr ⟨a, es, n', es', ha, hb, rfl⟩⟩

theorem iff {d : Prop} {P' : α → Prop} (hp : Decides p c P) (hcd : c ↔ d)
    (h : d → ∀ a, P a → P' a) : Decides p d P' := fun n =>
  ⟨fun a es n' hrun =>
    have ⟨hc, hpa⟩ := (hp n).1 a es n' hrun
    ⟨hcd.mp hc, h (hcd.mp hc) a hpa⟩, fun hd => (hp n).2 (hcd.mpr hd)⟩

theorem mono {P' : α → Prop} (hp : Decides p c P) (h : ∀ a, P a → P' a) : Decides p c P' :=
  hp.iff Iff.rfl fun _ => h

theorem pure {a : α} (h : P a) : Decides (Pure.pure a : Synth F ε α) True P := by
  intro n
  refine ⟨fun b es n' hrun => ?_, fun _ => ⟨_, rfl⟩⟩
  obtain ⟨rfl, -, -⟩ := Synth.pure_eq_ok.mp hrun
  exact ⟨trivial, h⟩

theorem fail {e : ε} : Decides (Synth.fail e : Synth F ε α) False P := fun _ =>
  ⟨fun _ _ _ h => (by cases h), False.elim⟩

theorem panic {m : String} : Decides (Synth.panic m : Synth F ε α) False P := fun _ =>
  ⟨fun _ _ _ h => (by cases h), False.elim⟩

theorem check {c : Prop} [Decidable c] {m : String} :
    Decides (Synth.check c m : Synth F ε Unit) c fun _ => c := by
  by_cases hc : c
  · rw [Synth.check, if_pos hc]
    exact (pure hc).iff (by simp [hc]) fun _ _ => id
  · rw [Synth.check, if_neg hc]
    exact panic.iff (by simp [hc]) fun _ _ => id

theorem ensure {c : Prop} [Decidable c] {e : ε} :
    Decides (Synth.ensure c e : Synth F ε Unit) c fun _ => c := by
  by_cases hc : c
  · rw [Synth.ensure, if_pos hc]
    exact (pure hc).iff (by simp [hc]) fun _ _ => id
  · rw [Synth.ensure, if_neg hc]
    exact fail.iff (by simp [hc]) fun _ _ => id

theorem ofExcept {x : Except ε α} {P : α → Prop} (h : ∀ a, x = .ok a → P a) :
    Decides (Synth.ofExcept x : Synth F ε α) (∃ a, x = .ok a) P := by
  cases x with
  | ok a => exact (pure (h a rfl)).iff (by simp) fun _ _ => id
  | error e => exact fail.iff (by simp) fun _ _ => id

theorem unwrap {x : Option α} {m : String} (h : ∀ a, x = some a → P a) :
    Decides (Synth.unwrap m x : Synth F ε α) x.isSome P := by
  cases x with
  | some a => exact (pure (h a rfl)).iff (by simp) fun _ _ => id
  | none => exact panic.iff (by simp) fun _ _ => id

theorem unwrap_bind {x : Option α} {m : String} {d : α → Prop}
    (hf : ∀ a, x = some a → Decides (f a) (d a) Q) :
    Decides (Synth.unwrap m x >>= f) (∃ a, x = some a ∧ d a) Q := by
  have hp : Decides (Synth.unwrap m x : Synth F ε α) (True ∧ x.isSome) fun a => x = some a :=
    (unwrap fun _ => id).iff (by simp) fun _ _ => id
  exact (hp.bind_some hf).iff (by simp) fun _ _ => id

theorem of_fails (h : Fails p) : Decides p False P := fun n =>
  ⟨fun _ _ _ hrun => absurd hrun (h n _), False.elim⟩

/-- A check in front of a computation of the host value `v`. -/
theorem guard {γ : Type} {gate : Synth F ε Unit} {f : Unit → Synth F ε β} {c : Prop} [Decidable c] {v : Option γ}
    {g : β → γ} (hgate : Decides gate c fun _ => c)
    (hf : c → Decides (f ()) (True ∧ v.isSome) fun b => v = some (g b)) :
    Decides (gate >>= f) (True ∧ (if c then v else none).isSome) fun b => (if c then v else none) = some (g b) := by
  by_cases hc : c
  · simp only [if_pos hc]
    exact (hgate.bind fun _ _ => hf hc).iff (by simp [hc]) fun _ _ => id
  · simp only [if_neg hc]
    exact (of_fails (Fails.bind_left fun n r hrun => hc ((hgate n).1 _ _ _ hrun).1)).iff (by simp) fun _ _ => id

theorem elim_bind {γ : Type} {x : Option α} {e : ε} {v : α → Option γ} {g : β → γ}
    (hf : ∀ a, x = some a → Decides (f a) (True ∧ (v a).isSome) fun b => v a = some (g b)) :
    Decides (Synth.ofExcept (x.elim (.error e) .ok) >>= f) (True ∧ (x.bind v).isSome)
      fun b => x.bind v = some (g b) := by
  cases x with
  | none => exact (of_fails (Fails.bind_left fun n r hrun => by cases hrun)).iff (by simp) fun _ _ => id
  | some a =>
      refine Decides.iff (c := True ∧ True ∧ (v a).isSome) (P := fun b => v a = some (g b)) ?_ (by simp) fun _ _ => id
      refine Decides.bind (P := fun b => b = a) (pure rfl) fun b hb => ?_
      rw [hb]
      exact hf a rfl

theorem unwrap_some {γ : Type} {x : Option α} {m : String} {v : α → Option γ} {g : β → γ}
    (hf : ∀ a, x = some a → Decides (f a) (True ∧ (v a).isSome) fun b => v a = some (g b)) :
    Decides (Synth.unwrap m x >>= f) (True ∧ (x.bind v).isSome) fun b => x.bind v = some (g b) := by
  cases x with
  | none => exact (of_fails (Fails.bind_left fun n r hrun => by cases hrun)).iff (by simp) fun _ _ => id
  | some a =>
      refine Decides.iff (c := True ∧ True ∧ (v a).isSome) (P := fun b => v a = some (g b)) ?_ (by simp) fun _ _ => id
      refine Decides.bind (P := fun b => b = a) (pure rfl) fun b hb => ?_
      rw [hb]
      exact hf a rfl

theorem mapError {g : ε → ε'} (hp : Decides p c P) : Decides (p.mapError g) c P := by
  intro n
  refine ⟨fun a es n' hrun => (hp n).1 a es n' (Synth.mapError_eq_ok.mp hrun), fun hc => ?_⟩
  obtain ⟨r, hr⟩ := (hp n).2 hc
  exact ⟨r, Synth.mapError_eq_ok.mpr hr⟩

theorem forEach {f : α → Synth F ε β} {c : α → Prop} {Q : α → β → Prop} {xs : List α}
    (h : ∀ x ∈ xs, Decides (f x) (c x) (Q x)) :
    Decides (Synth.forEach f xs) (∀ x ∈ xs, c x) fun ys => List.Forall₂ Q xs ys := by
  induction xs with
  | nil => exact (pure .nil).iff (by simp) fun _ _ => id
  | cons x xs ih =>
      have hxs := ih fun y hy => h y (List.mem_cons_of_mem _ hy)
      refine ((h x (by simp)).bind fun y hy => hxs.bind fun ys hys => pure (.cons hy hys)).iff ?_
        fun _ _ => id
      simp

theorem forEach_always {f : α → Synth F ε β} {xs : List α} (h : ∀ x ∈ xs, Decides (f x) True fun _ => True) :
    Decides (Synth.forEach f xs) True fun _ => True :=
  (forEach h).iff (by simp) fun _ _ _ => trivial

/-- A loop whose bodies compute the host values `v x`. -/
theorem forEach_some {γ : Type} {f : α → Synth F ε β} {v : α → Option γ} {g : β → γ} {xs : List α}
    (h : ∀ x ∈ xs, Decides (f x) (True ∧ (v x).isSome) fun b => v x = some (g b)) :
    Decides (Synth.forEach f xs) (True ∧ (xs.mapM v).isSome) fun ys => xs.mapM v = some (ys.map g) := by
  induction xs with
  | nil => exact Decides.iff (P := fun ys => ys = []) (pure rfl) (by simp) fun _ ys hys => by simp [hys]
  | cons x xs ih =>
      have hxs := ih fun y hy => h y (List.mem_cons_of_mem _ hy)
      refine Decides.iff (c := True ∧ ∃ y, v x = some y ∧ True ∧ ∃ ys, xs.mapM v = some ys ∧ True)
        (P := fun ys => (x :: xs).mapM v = some (ys.map g)) ?_ ?_ fun _ _ => id
      · refine (h x (by simp)).bind_some fun y hy => hxs.bind_some fun ys hys => pure ?_
        simp only [List.mapM_cons, hy, hys, Option.bind_eq_bind, Option.bind_some, Option.pure_def,
          List.map_cons]
      · cases hv : v x with
        | none => simp [List.mapM_cons, hv]
        | some y => cases hvs : xs.mapM v <;> simp [List.mapM_cons, hv, hvs]

/-- A loop whose state carries the host value `g s`, updated by `v`. -/
theorem foldEach_some {γ : Type} {f : β → α → Synth F ε β} {v : γ → α → Option γ} {g : β → γ} {xs : List α}
    (h : ∀ s, ∀ x ∈ xs, Decides (f s x) (True ∧ (v (g s) x).isSome) fun s' => v (g s) x = some (g s')) (s : β) :
    Decides (Synth.foldEach f s xs) (True ∧ (xs.foldlM v (g s)).isSome) fun s' => xs.foldlM v (g s) = some (g s') := by
  induction xs generalizing s with
  | nil =>
      exact Decides.iff (P := fun s' => s' = s) (pure rfl) (by simp) fun _ s' hs' => by rw [hs']; rfl
  | cons x xs ih =>
      have hxs := ih fun t y hy => h t y (List.mem_cons_of_mem _ hy)
      refine Decides.iff (c := True ∧ ∃ t, v (g s) x = some t ∧ True ∧ (xs.foldlM v t).isSome)
        (P := fun s' => (x :: xs).foldlM v (g s) = some (g s')) ?_ ?_ fun _ _ => id
      · refine (h s x (by simp)).bind_some fun t ht => (hxs t).mono fun s' hs' => ?_
        rw [List.foldlM_cons, ht, Option.bind_eq_bind, Option.bind_some, hs']
      · cases hv : v (g s) x <;> simp [List.foldlM_cons, hv]

theorem of_emits {a : α} {es : List (Event F)} (h : Emits p a es) (hP : P a) : Decides p True P := by
  intro n
  refine ⟨fun b es' n' hrun => ?_, fun _ => ⟨_, h n⟩⟩
  rw [h n] at hrun
  cases hrun
  exact ⟨trivial, hP⟩

theorem of_lays {a : ℕ → α} {es : ℕ → List (Event F)} (h : Lays p a es) (hP : ∀ r, P (a r)) :
    Decides p True P := by
  intro n
  refine ⟨fun b es' n' hrun => ?_, fun _ => ⟨_, h n⟩⟩
  rw [h n] at hrun
  cases hrun
  exact ⟨trivial, hP n⟩

theorem region {a : ℕ → α} {es : ℕ → List (Event F)} (h : Lays p a es) : Decides p True fun _ => True :=
  of_lays h fun _ => trivial

theorem linkCells {name : String} {pairs : List (AssignedCell F × AssignedCell F)} :
    Decides (Synth.linkCells (ε := ε) name pairs) True fun _ => True :=
  region (linkCells_lays name pairs)

end Decides

section Success

/-- The program always succeeds. -/
abbrev Succeeds (p : Synth F ε α) : Prop := Decides p True fun _ => True

/-- What comes after a program that succeeds decides. -/
theorem Succeeds.before {p : Synth F ε α} {f : α → Synth F ε β} {c : Prop} {Q : β → Prop} (hp : Succeeds p)
    (hf : ∀ a, Decides (f a) c Q) : Decides (p >>= f) c Q :=
  (Decides.bind hp fun a _ => hf a).iff (by simp) fun _ _ => id

theorem Succeeds.bind {p : Synth F ε α} {f : α → Synth F ε β} (hp : Succeeds p) (hf : ∀ a, Succeeds (f a)) :
    Succeeds (p >>= f) :=
  hp.before hf

theorem Succeeds.pure (a : α) : Succeeds (Pure.pure a : Synth F ε α) := Decides.pure trivial

theorem Succeeds.emit (e : Event F) : Succeeds (Synth.emit (ε := ε) e) :=
  fun n => ⟨fun _ _ _ _ => ⟨trivial, trivial⟩, fun _ => ⟨((), [e], n), rfl⟩⟩

theorem Succeeds.assignAdvice (region : ℕ) (column : Plonkish.Column) (offset : ℕ) (value : Option F) :
    Succeeds (Synth.assignAdvice (ε := ε) region column offset value) :=
  (Succeeds.emit _).bind fun _ => Succeeds.pure _

theorem Succeeds.assignRegion {name : String} {body : ℕ → Synth F ε α} (h : ∀ r, Succeeds (body r)) :
    Succeeds (Synth.assignRegion name body) :=
  fun n => (Succeeds.emit (.region name n)).bind (fun _ => h n) (n + 1)

theorem Decides.foldEach {f : β → α → Synth F ε β} {c : α → Prop} {xs : List α}
    (h : ∀ s, ∀ x ∈ xs, Decides (f s x) (c x) fun _ => True) (s : β) :
    Decides (Synth.foldEach f s xs) (∀ x ∈ xs, c x) fun _ => True := by
  induction xs generalizing s with
  | nil => exact (Decides.pure trivial).iff (by simp) fun _ _ => id
  | cons x xs ih =>
      have hstep := (h s x (.head _)).bind fun s' _ => ih (fun s y hy => h s y (.tail _ hy)) s'
      exact hstep.iff (by simp) fun _ _ => id

theorem Succeeds.foldEach {f : β → α → Synth F ε β} (h : ∀ s x, Succeeds (f s x)) (s : β) (xs : List α) :
    Succeeds (Synth.foldEach f s xs) :=
  (Decides.foldEach (fun s x _ => h s x) s).iff (by simp) fun _ _ => id

theorem Decides.and_triple {p : Synth F ε α} {c : Prop} {P Q : α → Prop} (hp : Decides p c P)
    (hq : Triple (fun _ => True) (fun _ => True) p Q) : Decides p c fun a => P a ∧ Q a := by
  intro n
  refine ⟨fun a es n' hrun => ?_, (hp n).2⟩
  obtain ⟨hc, hP⟩ := (hp n).1 a es n' hrun
  exact ⟨hc, hP, (hq n a es n' hrun fun _ _ => trivial).2⟩

end Success

end Zkie.HostRun
