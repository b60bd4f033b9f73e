import Zkie.HostRun

namespace Zkie.Outcome

open Synthesis Satisfaction HostRun

variable {F ε ε' α β γ : Type}

/-- The program panics exactly if `c` holds, whatever was laid down before. -/
def Panics (p : Synth F ε α) (c : Prop) : Prop := ∀ n, (∃ m, p n = .error (.panic m)) ↔ c

namespace Panics

variable {p : Synth F ε α} {f : α → Synth F ε β} {c d e : Prop} {P : α → Prop}

theorem bind_eq_error {n : ℕ} {failure : Failure ε} : (p >>= f) n = .error failure ↔
    p n = .error failure ∨ ∃ a es n', p n = .ok (a, es, n') ∧ f a n' = .error failure := by
  change Synth.bind p f n = _ ↔ _
  unfold Synth.bind
  constructor
  · intro h
    split at h
    · rename_i failure' hp
      cases h
      exact .inl hp
    · rename_i a es n' hp
      split at h
      · rename_i failure' hf
        cases h
        exact .inr ⟨a, es, n', hp, hf⟩
      · cases h
  · rintro (hp | ⟨a, es, n', hp, hf⟩)
    · simp only [hp]
    · simp only [hp, hf]

theorem iff (hp : Panics p c) (h : c ↔ d) : Panics p d := fun n => (hp n).trans h

theorem of_decides (hp : Decides p True P) : Panics p False := by
  intro n
  rw [iff_false]
  rintro ⟨m, hm⟩
  obtain ⟨r, hr⟩ := (hp n).2 trivial
  rw [hr] at hm
  cases hm

theorem pure {a : α} : Panics (Pure.pure a : Synth F ε α) False :=
  of_decides (Decides.pure (P := fun _ => True) trivial)

theorem fail {e : ε} : Panics (Synth.fail e : Synth F ε α) False := by
  intro n
  rw [iff_false]
  rintro ⟨m, hm⟩
  cases hm

theorem panic {m : String} : Panics (Synth.panic m : Synth F ε α) True := fun _ => iff_true_intro ⟨m, rfl⟩

theorem check {c : Prop} [Decidable c] {m : String} : Panics (Synth.check c m : Synth F ε Unit) (¬c) := by
  by_cases hc : c
  · rw [Synth.check, if_pos hc]
    exact pure.iff (by simp [hc])
  · rw [Synth.check, if_neg hc]
    exact panic.iff (by simp [hc])

theorem ensure {c : Prop} [Decidable c] {e : ε} : Panics (Synth.ensure c e : Synth F ε Unit) False := by
  unfold Synth.ensure
  split
  · exact pure
  · exact fail

theorem ofExcept {x : Except ε α} : Panics (Synth.ofExcept x : Synth F ε α) False := by
  cases x with
  | ok a => exact pure
  | error e => exact fail

theorem unwrap {x : Option α} {m : String} : Panics (Synth.unwrap m x : Synth F ε α) (x = none) := by
  cases x with
  | some a => exact pure.iff (by simp)
  | none => exact panic.iff (by simp)

theorem mapError {g : ε → ε'} (hp : Panics p c) : Panics (p.mapError g) c := by
  intro n
  rw [← hp n]
  unfold Synth.mapError
  split <;> simp_all

/-- A program panics at once, or after a part that succeeds. -/
theorem bind (hp : Panics p c) (hd : Decides p d P) (hf : ∀ a, P a → Panics (f a) e) :
    Panics (p >>= f) (c ∨ d ∧ e) := by
  intro n
  simp only [bind_eq_error, exists_or, hp n]
  apply or_congr_right
  constructor
  · rintro ⟨m, a, es, n', ha, hm⟩
    obtain ⟨hd', hPa⟩ := (hd n).1 a es n' ha
    exact ⟨hd', (hf a hPa n').mp ⟨m, hm⟩⟩
  · rintro ⟨hd', he⟩
    obtain ⟨⟨a, es, n'⟩, ha⟩ := (hd n).2 hd'
    obtain ⟨m, hm⟩ := (hf a ((hd n).1 a es n' ha).2 n').mpr he
    exact ⟨m, a, es, n', ha, hm⟩

/-- Sequencing when the rest depends on a host value that the first part computes. -/
theorem bind_some {v : Option γ} {g : α → γ} {e : γ → Prop} (hp : Panics p c)
    (hd : Decides p (d ∧ v.isSome) fun a => v = some (g a)) (hf : ∀ a, v = some (g a) → Panics (f a) (e (g a))) :
    Panics (p >>= f) (c ∨ d ∧ ∃ x, v = some x ∧ e x) := by
  cases hv : v with
  | none =>
      have hnever : Panics (p >>= f) (c ∨ (d ∧ v.isSome) ∧ False) := hp.bind hd fun a ha => by simp [hv] at ha
      exact hnever.iff (by simp)
  | some x =>
      have hthen : Panics (p >>= f) (c ∨ (d ∧ v.isSome) ∧ e x) := hp.bind hd fun a ha => by
        have hx : x = g a := Option.some.inj (hv.symm.trans ha)
        exact hx ▸ hf a ha
      exact hthen.iff (by simp [hv])

/-- What follows a part that always succeeds. -/
theorem after (hp : Decides p True P) (hf : ∀ a, P a → Panics (f a) e) : Panics (p >>= f) e :=
  ((of_decides hp).bind hp hf).iff (by simp)

/-- What follows never panics. -/
theorem bind_never (hp : Panics p c) (hf : ∀ a, Panics (f a) False) : Panics (p >>= f) c := by
  intro n
  rw [← hp n]
  constructor
  · rintro ⟨m, hm⟩
    rcases bind_eq_error.mp hm with hm | ⟨a, _, n', -, hm⟩
    · exact ⟨m, hm⟩
    · exact absurd ⟨m, hm⟩ (hf a n').mp
  · rintro ⟨m, hm⟩
    exact ⟨m, bind_eq_error.mpr (.inl hm)⟩

/-- A loop none of whose bodies panics. -/
theorem forEach_never {f : α → Synth F ε β} {xs : List α} (h : ∀ x ∈ xs, Panics (f x) False) :
    Panics (Synth.forEach f xs) False := by
  induction xs with
  | nil => exact pure
  | cons x xs ih =>
      have hrest := ih fun z hz => h z (.tail _ hz)
      exact (h x (.head _)).bind_never fun _ => hrest.bind_never fun _ => pure

end Panics

end Zkie.Outcome
