import Mathlib.Logic.Relation
import Mathlib.Data.List.Basic

namespace Zkie.Transaction

variable {σ ε α β γ : Type}

/-- A program on a store that commits its result or leaves the store alone. -/
abbrev Tx (σ ε : Type) : Type → Type := StateT σ (Except ε)

/-- An early return with an error. -/
def ensure (c : Prop) [Decidable c] (e : ε) : Tx σ ε Unit := if c then pure () else throw e

def fromExcept : Except ε α → Tx σ ε α
  | .ok a => pure a
  | .error e => throw e

def fromOption (e : ε) : Option α → Tx σ ε α
  | some a => pure a
  | none => throw e

/-- A `for` loop that updates a state of its own. -/
def foldEach (f : β → α → Tx σ ε β) : β → List α → Tx σ ε β
  | b, [] => pure b
  | b, x :: xs => do
      let b' ← f b x
      foldEach f b' xs

variable {p : Tx σ ε α} {f : α → Tx σ ε β} {s s' s'' : σ}

theorem bind_eq_ok {b : β} : (p >>= f) s = .ok (b, s'') ↔ ∃ a s', p s = .ok (a, s') ∧ f a s' = .ok (b, s'') := by
  change (p s >>= fun x => f x.1 x.2) = _ ↔ _
  cases hp : p s with
  | error e =>
      constructor
      · intro h
        cases h
      · rintro ⟨a, s', h, -⟩
        cases h
  | ok x =>
      constructor
      · intro h
        exact ⟨x.1, x.2, rfl, h⟩
      · rintro ⟨a, s', h, hf⟩
        cases h
        exact hf

theorem pure_eq_ok {a b : α} : (pure a : Tx σ ε α) s = .ok (b, s') ↔ b = a ∧ s' = s := by
  constructor
  · intro h
    cases h
    exact ⟨rfl, rfl⟩
  · rintro ⟨rfl, rfl⟩
    rfl

theorem get_eq_ok {t : σ} : (get : Tx σ ε σ) s = .ok (t, s') ↔ t = s ∧ s' = s := by
  constructor
  · intro h
    cases h
    exact ⟨rfl, rfl⟩
  · rintro ⟨rfl, rfl⟩
    rfl

theorem modify_eq_ok {g : σ → σ} {u : PUnit} : (modify g : Tx σ ε PUnit) s = .ok (u, s') ↔ s' = g s := by
  constructor
  · intro h
    cases h
    rfl
  · rintro rfl
    rfl

theorem throw_ne_ok {e : ε} {r : α × σ} : (throw e : Tx σ ε α) s ≠ .ok r := fun h => by cases h

theorem ensure_eq_ok {c : Prop} [Decidable c] {e : ε} {u : Unit} :
    (ensure c e : Tx σ ε Unit) s = .ok (u, s') ↔ c ∧ s' = s := by
  unfold ensure
  split
  · rename_i hc
    simp [pure_eq_ok, hc]
  · rename_i hc
    exact ⟨fun h => absurd h throw_ne_ok, fun h => absurd h.1 hc⟩

theorem fromExcept_eq_ok {x : Except ε α} {a : α} :
    (fromExcept x : Tx σ ε α) s = .ok (a, s') ↔ x = .ok a ∧ s' = s := by
  cases x with
  | ok b => rw [fromExcept, pure_eq_ok, Except.ok.injEq, @eq_comm α a]
  | error e => exact ⟨fun h => absurd h throw_ne_ok, fun h => by cases h.1⟩

theorem fromOption_eq_ok {x : Option α} {e : ε} {a : α} :
    (fromOption e x : Tx σ ε α) s = .ok (a, s') ↔ x = some a ∧ s' = s := by
  cases x with
  | some b => rw [fromOption, pure_eq_ok, Option.some.injEq, @eq_comm α a]
  | none => exact ⟨fun h => absurd h throw_ne_ok, fun h => by cases h.1⟩

/-- Whatever the program does to the store is related by `R`. -/
def Effect (p : Tx σ ε α) (R : σ → σ → Prop) : Prop := ∀ s a s', p s = .ok (a, s') → R s s'

/-- The loop rule. The invariant speaks about the state of the loop, the store and what is left to do. -/
theorem foldEach_invariant {f : β → α → Tx σ ε β} {I : List α → β → σ → Prop} {xs : List α} {b b' : β}
    (h : ∀ x rest b s b' s', I (x :: rest) b s → f b x s = .ok (b', s') → I rest b' s')
    (hrun : foldEach f b xs s = .ok (b', s')) (hI : I xs b s) : I [] b' s' := by
  induction xs generalizing b s with
  | nil =>
      obtain ⟨rfl, rfl⟩ := pure_eq_ok.mp hrun
      exact hI
  | cons x xs ih =>
      obtain ⟨b₁, s₁, h₁, h₂⟩ := bind_eq_ok.mp hrun
      exact ih h₂ (h x xs b s b₁ s₁ hI h₁)

/-- A loop whose invariant lets every round succeed succeeds. -/
theorem foldEach_total {f : β → α → Tx σ ε β} {I : List α → β → σ → Prop} {xs : List α} {b : β}
    (h : ∀ x rest b s, I (x :: rest) b s → ∃ b' s', f b x s = .ok (b', s') ∧ I rest b' s') (hI : I xs b s) :
    ∃ b' s', foldEach f b xs s = .ok (b', s') := by
  induction xs generalizing b s with
  | nil => exact ⟨b, s, rfl⟩
  | cons x xs ih =>
      obtain ⟨b₁, s₁, h₁, hI₁⟩ := h x xs b s hI
      obtain ⟨b₂, s₂, h₂⟩ := ih hI₁
      exact ⟨b₂, s₂, bind_eq_ok.mpr ⟨b₁, s₁, h₁, h₂⟩⟩

end Zkie.Transaction
