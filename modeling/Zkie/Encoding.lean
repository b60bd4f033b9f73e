import Zkie.LittleEndian
import Mathlib.Data.List.Basic

namespace Zkie.Encoding

open LittleEndian (toBytes)

variable {α γ : Type}

/-- Whatever is written behind them, the bytes of two values agree only if `R` holds of the values,
and then they end at the same place. -/
def Reveals (P : γ → Prop) (put : γ → List UInt8) (R : γ → γ → Prop) : Prop :=
  ∀ ⦃c d s t⦄, P c → P d → put c ++ s = put d ++ t → R c d ∧ s = t

def PrefixFree (P : γ → Prop) (put : γ → List UInt8) : Prop := Reveals P put (· = ·)

section Rules

variable {P Q : γ → Prop} {put rest : γ → List UInt8} {R S : γ → γ → Prop}

theorem Reveals.of_eq (h : Reveals P put R) {c d : γ} (hc : P c) (hd : P d) (heq : put c = put d) : R c d :=
  (h hc hd (congrArg (· ++ []) heq)).1

theorem Reveals.imp (h : Reveals P put R) (himp : ∀ c d, P c → P d → R c d → S c d) : Reveals P put S := by
  intro c d s t hc hd heq
  obtain ⟨hR, hst⟩ := h hc hd heq
  exact ⟨himp c d hc hd hR, hst⟩

theorem Reveals.mono (h : Reveals Q put R) (hPQ : ∀ c, P c → Q c) : Reveals P put R :=
  fun _ _ _ _ hc hd heq => h (hPQ _ hc) (hPQ _ hd) heq

/-- The bytes of one component. -/
theorem Reveals.comp {A : α → Prop} {puta : α → List UInt8} {T : α → α → Prop} (h : Reveals A puta T) (f : γ → α)
    (hf : ∀ c, P c → A (f c)) : Reveals P (fun c => puta (f c)) (fun c d => T (f c) (f d)) :=
  fun c d _ _ hc hd heq => h (hf c hc) (hf d hd) heq

/-- The bytes of a component that is not restricted. -/
theorem Reveals.field {puta : α → List UInt8} {T : α → α → Prop} (h : Reveals (fun _ => True) puta T) (f : γ → α) :
    Reveals P (fun c => puta (f c)) (fun c d => T (f c) (f d)) :=
  h.comp f fun _ _ => trivial

/-- The second part is written knowing what the first one reveals. -/
theorem Reveals.andThen (h : Reveals P put R)
    (hrest : ∀ ⦃c d s t⦄, P c → P d → R c d → rest c ++ s = rest d ++ t → S c d ∧ s = t) :
    Reveals P (fun c => put c ++ rest c) (fun c d => R c d ∧ S c d) := by
  intro c d s t hc hd heq
  rw [List.append_assoc, List.append_assoc] at heq
  obtain ⟨hR, hmid⟩ := h hc hd heq
  obtain ⟨hS, hst⟩ := hrest hc hd hR hmid
  exact ⟨⟨hR, hS⟩, hst⟩

theorem Reveals.append (h : Reveals P put R) (hrest : Reveals P rest S) :
    Reveals P (fun c => put c ++ rest c) (fun c d => R c d ∧ S c d) :=
  h.andThen fun _ _ _ _ hc hd _ heq => hrest hc hd heq

theorem reveals_const (bytes : List UInt8) : Reveals P (fun _ => bytes) (fun _ _ => True) :=
  fun _ _ _ _ _ _ heq => ⟨trivial, List.append_cancel_left heq⟩

/-- A first byte that says how to read the rest. -/
theorem Reveals.tagged {tag : γ → UInt8}
    (h : ∀ ⦃c d s t⦄, P c → P d → tag c = tag d → rest c ++ s = rest d ++ t → R c d ∧ s = t) :
    Reveals P (fun c => tag c :: rest c) R := by
  intro c d s t hc hd heq
  rw [List.cons_append, List.cons_append, List.cons.injEq] at heq
  exact h hc hd heq.1 heq.2

theorem prefixFree_fixed {n : ℕ} (hlength : ∀ c, P c → (put c).length = n)
    (hinj : ∀ c d, P c → P d → put c = put d → c = d) : PrefixFree P put := by
  intro c d s t hc hd heq
  obtain ⟨hput, hst⟩ := List.append_inj heq ((hlength c hc).trans (hlength d hd).symm)
  exact ⟨hinj c d hc hd hput, hst⟩

end Rules

section Data

variable {P : γ → Prop} {put : γ → List UInt8}

theorem prefixFree_toBytes (width : ℕ) : PrefixFree (· < 256 ^ width) (toBytes width) :=
  prefixFree_fixed (n := width) (fun _ _ => LittleEndian.toBytes_length ..) fun _ _ => LittleEndian.toBytes_inj

/-- One byte that tells the values apart. -/
theorem prefixFree_tag {tag : γ → UInt8} (h : Function.Injective tag) : PrefixFree (fun _ => True) fun c => [tag c] :=
  prefixFree_fixed (n := 1) (fun _ _ => rfl) fun _ _ _ _ heq => h (List.head_eq_of_cons_eq heq)

/-- Bytes behind their number. -/
theorem prefixFree_sized (width : ℕ) (put : γ → List UInt8) (hinj : ∀ c d, P c → P d → put c = put d → c = d)
    (hlength : ∀ c, P c → (put c).length < 256 ^ width) : PrefixFree P fun c => toBytes width (put c).length ++ put c := by
  apply Reveals.imp (((prefixFree_toBytes width).comp (fun c => (put c).length) hlength).andThen
    (S := fun c d => put c = put d) ?_)
  · rintro c d hc hd ⟨-, hput⟩
    exact hinj c d hc hd hput
  · intro c d s t _ _ hlen heq
    exact List.append_inj heq hlen

/-- Elements one behind the other, when their number is known. -/
theorem PrefixFree.flatMap (h : PrefixFree P put) : ∀ ⦃cs ds : List γ⦄ ⦃s t : List UInt8⦄, (∀ c ∈ cs, P c) → (∀ d ∈ ds, P d) →
    cs.length = ds.length → cs.flatMap put ++ s = ds.flatMap put ++ t → cs = ds ∧ s = t := by
  intro cs
  induction cs with
  | nil =>
      intro ds s t _ _ hlength heq
      obtain rfl := List.length_eq_zero_iff.mp hlength.symm
      exact ⟨rfl, heq⟩
  | cons c cs ih =>
      intro ds s t hcs hds hlength heq
      obtain ⟨d, ds, rfl⟩ := List.exists_cons_of_length_eq_add_one hlength.symm
      obtain ⟨hc, hcs'⟩ := List.forall_mem_cons.mp hcs
      obtain ⟨hd, hds'⟩ := List.forall_mem_cons.mp hds
      rw [List.flatMap_cons, List.flatMap_cons, List.append_assoc, List.append_assoc] at heq
      obtain ⟨rfl, hmid⟩ := h hc hd heq
      obtain ⟨rfl, hst⟩ := ih hcs' hds' (Nat.succ.inj hlength) hmid
      exact ⟨rfl, hst⟩

/-- Elements behind their number, after what was written before. -/
theorem Reveals.counted {A : α → Prop} {before : α → List UInt8} {R : α → α → Prop} (h : Reveals A before R)
    (hput : PrefixFree P put) (width : ℕ) (f : α → List γ) (hf : ∀ a, A a → (f a).length < 256 ^ width ∧ ∀ c ∈ f a, P c) :
    Reveals A (fun a => before a ++ toBytes width (f a).length ++ (f a).flatMap put) (fun a b => R a b ∧ f a = f b) := by
  have hcount := h.append ((prefixFree_toBytes width).comp (fun a => (f a).length) fun a ha => (hf a ha).1)
  apply Reveals.imp (hcount.andThen (S := fun a b => f a = f b) ?_)
  · rintro a b - - ⟨⟨hR, -⟩, heq⟩
    exact ⟨hR, heq⟩
  · rintro a b s t ha hb ⟨-, hlength⟩ heq
    exact hput.flatMap (hf a ha).2 (hf b hb).2 hlength heq

theorem PrefixFree.option (h : PrefixFree P put) {puto : Option γ → List UInt8} (hnone : puto none = [0])
    (hsome : ∀ c, puto (some c) = 1 :: put c) : PrefixFree (fun o => ∀ c ∈ o, P c) puto := by
  rintro (_ | c) (_ | d) s t hc hd heq
  · rw [hnone] at heq
    exact ⟨rfl, (List.cons.inj heq).2⟩
  · rw [hnone, hsome] at heq
    exact absurd (List.cons.inj heq).1 (by decide)
  · rw [hnone, hsome] at heq
    exact absurd (List.cons.inj heq).1 (by decide)
  · rw [hsome, hsome] at heq
    obtain ⟨rfl, hst⟩ := h (hc c rfl) (hd d rfl) (List.cons.inj heq).2
    exact ⟨rfl, hst⟩

end Data

end Zkie.Encoding
