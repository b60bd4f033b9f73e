import Zkie.Placement
import Zkie.Skeleton

namespace Zkie.Forgery

open Plonkish Synthesis Satisfaction Skeleton Placement

variable {F ε ε' α β : Type} [Field F] {cs : ConstraintSystem F} {T : List ℕ → List F → Prop} {A : Assignment F}

theorem holds_skeleton (e : Event F) : Holds cs T A (skeleton e) ↔ Holds cs T A e := by
  cases e <;> rfl

/-- What an action demands depends on the layout only. -/
theorem holds_of_skeleton {es es' : List (Event F)} (hsame : es.map skeleton = es'.map skeleton)
    (h : ∀ e ∈ es', Holds cs T A e) : ∀ e ∈ es, Holds cs T A e := by
  intro e he
  have hmem : skeleton e ∈ es'.map skeleton := hsame ▸ List.mem_map_of_mem he
  obtain ⟨e', he', hskeleton⟩ := List.mem_map.mp hmem
  rw [← holds_skeleton, ← hskeleton, holds_skeleton]
  exact h e' he'

omit [Field F] in
theorem exposed_eq_nil {es : List (Event F)} (h : ∀ e ∈ es, IsInner e) : es.filterMap exposed = [] := by
  apply List.filterMap_eq_nil_iff.mpr
  intro e he
  cases e with
  | expose => exact (h _ he).elim
  | region | enable | advice | fixed | copy | constant | table => rfl

/-- The layout is all that binds a prover: it may run any other program with the same layout, and give that program's
witnesses in place of the first one's. -/
theorem exists_forged {p : Synth F ε α} {q : Synth F ε' β} {R : α → β → Prop} {Q : Assignment F → β → Prop}
    (hagree : Agree p q R) (hplaced : Placed q) (hcomplete : ∀ A, Complete cs T A q (Q A)) {n n' : ℕ} {a : α}
    {es : List (Event F)} (hp : p n = .ok (a, es, n')) (hq : ∃ r, q n = .ok r) :
    ∃ A b, (∀ e ∈ es, Holds cs T A e) ∧ R a b ∧ Q A b := by
  obtain ⟨⟨b, fs, m⟩, hq⟩ := hq
  obtain ⟨-, -, hnodup, hinner⟩ := hplaced n b fs m hq
  obtain ⟨hskeleton, -, hR⟩ := hagree n a es n' b fs m hp hq
  have hwitnessed : ∀ e ∈ fs, Witnessed (honest fs) e :=
    honest_witnessed hnodup (exposed_eq_nil hinner ▸ List.nodup_nil)
  obtain ⟨hholds, hQ⟩ := hcomplete (honest fs) n b fs m hq hwitnessed
  exact ⟨honest fs, b, holds_of_skeleton hskeleton hholds, hR, hQ⟩

end Zkie.Forgery
