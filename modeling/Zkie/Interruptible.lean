import Zkie.Transaction

namespace Zkie.Interruptible

open Transaction

variable {σ τ ε α β : Type}

/-- A process that works on a store. It is stopped when its budget of transactions is used up; without a
budget it is never stopped. The trace is there for statements about the process. -/
structure Session (σ τ : Type) where
  store : σ
  trace : List τ
  budget : Option ℕ

inductive Stop (ε : Type) where
  | interrupted
  | failed (e : ε)
  deriving DecidableEq, Repr

abbrev Process (σ τ ε : Type) : Type → Type := ExceptT (Stop ε) (StateM (Session σ τ))

def fail (e : ε) : Process σ τ ε α := throw (.failed e)

def orFail (e : ε) : Option α → Process σ τ ε α
  | some a => pure a
  | none => fail e

/-- The store, as a query sees it. -/
def read : Process σ τ ε σ := fun s => (.ok s.store, s)

/-- One transaction. A process that is stopped is stopped between two of them. -/
def transact {ε' : Type} (wrap : ε' → ε) (note : σ → List τ) (p : Tx σ ε' α) : Process σ τ ε α := fun s =>
  if s.budget = some 0 then (.error .interrupted, s)
  else
    match p s.store with
    | .ok (a, st) => (.ok a, ⟨st, s.trace ++ note s.store, s.budget.map Nat.pred⟩)
    | .error e => (.error (.failed (wrap e)), { s with budget := s.budget.map Nat.pred })

def foldEach (f : β → α → Process σ τ ε β) : β → List α → Process σ τ ε β
  | b, [] => pure b
  | b, x :: xs => do
      let b' ← f b x
      foldEach f b' xs

/-- The process has returned with `Q`, or it has stopped with `E`. -/
def Settles (Q : α → σ → List τ → Prop) (E : σ → List τ → Prop) : Except (Stop ε) α × Session σ τ → Prop
  | (.ok a, s) => Q a s.store s.trace
  | (.error _, s) => E s.store s.trace

theorem Settles.mono {Q Q' : α → σ → List τ → Prop} {E : σ → List τ → Prop} {r : Except (Stop ε) α × Session σ τ}
    (h : Settles Q E r) (hQ : ∀ a st tr, Q a st tr → Q' a st tr) : Settles Q' E r := by
  obtain ⟨result, s⟩ := r
  cases result with
  | ok a => exact hQ a _ _ h
  | error e => exact h

/-- From `P` the process returns with `Q`, and wherever it stops or fails `E` holds. -/
def Spec (P : σ → List τ → Prop) (p : Process σ τ ε α) (Q : α → σ → List τ → Prop) (E : σ → List τ → Prop) : Prop :=
  ∀ s : Session σ τ, P s.store s.trace → Settles Q E (p s)

theorem eq_of_result {x : Except (Stop ε) α × Session σ τ} {r : Except (Stop ε) α} (h : x.1 = r) : x = (r, x.2) :=
  Prod.ext h rfl

theorem bind_of_ok {p : Process σ τ ε α} {f : α → Process σ τ ε β} {s s' : Session σ τ} {a : α}
    (h : p s = (.ok a, s')) : (p >>= f) s = f a s' := by
  change ExceptT.bindCont f (p s).1 (p s).2 = _
  rw [h]
  rfl

theorem bind_of_error {p : Process σ τ ε α} {f : α → Process σ τ ε β} {s s' : Session σ τ} {e : Stop ε}
    (h : p s = (.error e, s')) : (p >>= f) s = (.error e, s') := by
  change ExceptT.bindCont f (p s).1 (p s).2 = _
  rw [h]
  rfl

namespace Spec

variable {P P' E : σ → List τ → Prop} {Q Q' : α → σ → List τ → Prop} {R : β → σ → List τ → Prop}
  {p : Process σ τ ε α} {f : α → Process σ τ ε β}

theorem pure {a : α} (h : ∀ st tr, P st tr → Q a st tr) : Spec P (Pure.pure a : Process σ τ ε α) Q E :=
  fun s hs => h s.store s.trace hs

theorem fail {e : ε} (h : ∀ st tr, P st tr → E st tr) : Spec P (Interruptible.fail e : Process σ τ ε α) Q E :=
  fun s hs => h s.store s.trace hs

theorem bind (hp : Spec P p Q E) (hf : ∀ a, Spec (Q a) (f a) R E) : Spec P (p >>= f) R E := by
  intro s hs
  have hp := hp s hs
  cases hrun : p s with
  | mk result s' =>
      rw [hrun] at hp
      cases result with
      | ok a =>
          rw [bind_of_ok hrun]
          exact hf a s' hp
      | error e =>
          rw [bind_of_error hrun]
          exact hp

theorem mono (h : Spec P p Q E) (hP : ∀ st tr, P' st tr → P st tr) (hQ : ∀ a st tr, Q a st tr → Q' a st tr) :
    Spec P' p Q' E := fun s hs => (h s (hP _ _ hs)).mono hQ

theorem orFail {e : ε} {x : Option α} (hE : ∀ st tr, P st tr → E st tr)
    (h : ∀ a, x = some a → ∀ st tr, P st tr → Q a st tr) : Spec P (Interruptible.orFail e x) Q E := by
  cases x with
  | some a => exact .pure (h a rfl)
  | none => exact .fail hE

theorem read {Q : σ → σ → List τ → Prop} (h : ∀ st tr, P st tr → Q st st tr) :
    Spec P (Interruptible.read : Process σ τ ε σ) Q E := fun s hs => h s.store s.trace hs

theorem transact {ε' : Type} {wrap : ε' → ε} {note : σ → List τ} {t : Tx σ ε' α}
    (hE : ∀ st tr, P st tr → E st tr)
    (h : ∀ st tr a st', P st tr → t st = .ok (a, st') → Q a st' (tr ++ note st)) :
    Spec P (Interruptible.transact wrap note t) Q E := by
  intro s hs
  unfold Interruptible.transact
  split
  · exact hE _ _ hs
  · cases ht : t s.store with
    | ok r => exact h s.store s.trace r.1 r.2 hs ht
    | error e => exact hE s.store s.trace hs

/-- A fact that does not depend on the store may be assumed. -/
theorem given {φ : Prop} (h : φ → Spec P p Q E) : Spec (fun st tr => φ ∧ P st tr) p Q E :=
  fun s hs => h hs.1 s hs.2

/-- The loop rule, with the elements that are left. -/
theorem foldEach {γ : Type} {f : γ → α → Process σ τ ε γ} {I : List α → γ → σ → List τ → Prop} {l : List α} {c : γ}
    (h : ∀ x rest c, Spec (I (x :: rest) c) (f c x) (I rest) E) :
    Spec (I l c) (Interruptible.foldEach f c l) (I []) E := by
  induction l generalizing c with
  | nil => exact .pure fun _ _ => id
  | cons x xs ih => exact (h x xs c).bind fun c' => ih

end Spec

/-- Every failure from `P` is one of `B`. -/
def Raises (P : σ → List τ → Prop) (p : Process σ τ ε α) (B : ε → Prop) : Prop :=
  ∀ s : Session σ τ, P s.store s.trace → ∀ e, (p s).1 = .error (.failed e) → B e

namespace Raises

variable {P E : σ → List τ → Prop} {Q : α → σ → List τ → Prop} {p : Process σ τ ε α} {f : α → Process σ τ ε β} {B : ε → Prop}

theorem pure {a : α} : Raises P (Pure.pure a : Process σ τ ε α) B := by
  intro s _ e h
  cases h

theorem bind (hp : Raises P p B) (hspec : Spec P p Q E) (hf : ∀ a, Raises (Q a) (f a) B) : Raises P (p >>= f) B := by
  intro s hs e h
  have hsettles := hspec s hs
  cases hrun : p s with
  | mk result s' =>
      rw [hrun] at hsettles
      cases result with
      | ok a =>
          rw [bind_of_ok hrun] at h
          exact hf a s' hsettles e h
      | error stop =>
          rw [bind_of_error hrun] at h
          cases h
          exact hp s hs e (by rw [hrun])

theorem read : Raises P (Interruptible.read : Process σ τ ε σ) B := by
  intro s _ e h
  cases h

theorem orFail {e : ε} {x : Option α} (h : B e) : Raises P (Interruptible.orFail e x : Process σ τ ε α) B := by
  intro s _ e' hfail
  cases x with
  | some a => cases hfail
  | none =>
      cases hfail
      exact h

theorem transact {ε' : Type} {wrap : ε' → ε} {note : σ → List τ} {t : Tx σ ε' α} (h : ∀ e, B (wrap e)) :
    Raises P (Interruptible.transact wrap note t) B := by
  intro s _ e hfail
  unfold Interruptible.transact at hfail
  split at hfail
  · cases hfail
  · split at hfail
    · cases hfail
    · cases hfail
      exact h _

theorem foldEach {f : β → α → Process σ τ ε β} {l : List α} {b : β} (h : ∀ x b, Raises (fun _ _ => True) (f b x) B) :
    Raises P (Interruptible.foldEach f b l) B := by
  induction l generalizing b P with
  | nil => exact .pure
  | cons x xs ih =>
      apply Raises.bind (Q := fun _ _ _ => True) (E := fun _ _ => True) (fun s _ => h x b s trivial)
      · intro s _
        cases hrun : f b x s with
        | mk result s' => cases result <;> exact trivial
      · exact fun b' => ih

end Raises

end Zkie.Interruptible
