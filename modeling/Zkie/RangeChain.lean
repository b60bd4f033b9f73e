import Mathlib.Data.List.Basic
import Mathlib.Data.Nat.Basic
import Mathlib.Tactic.Linarith

namespace Zkie.RangeChain

/-- The numbers from `start` up to, but not including, `stop`. A reversed range contains nothing. -/
structure Range where
  start : ℕ
  stop : ℕ
  deriving DecidableEq, Repr

namespace Range

def Contains (r : Range) (i : ℕ) : Prop := r.start ≤ i ∧ i < r.stop

instance (r : Range) (i : ℕ) : Decidable (r.Contains i) := inferInstanceAs (Decidable (_ ∧ _))

end Range

/-- Every range starts where the one before it stops. -/
def Chain : ℕ → List Range → ℕ → Prop
  | a, [], b => a = b
  | a, r :: rs, b => r.start = a ∧ Chain r.stop rs b

/-- No range steps back to a number below `n`. -/
def Forward (n : ℕ) (rs : List Range) : Prop := ∀ r ∈ rs, r.start ≤ r.stop ∨ n ≤ r.stop

/-- Exactly one position holds a range that contains `i`. -/
def CoveredOnce (rs : List Range) (i : ℕ) : Prop := ∃! s : ℕ, ∃ r : Range, rs[s]? = some r ∧ r.Contains i

variable {a b c n i j s t : ℕ} {r r' : Range} {rs rs' : List Range}

theorem Chain.append (h : Chain a (rs ++ rs') c) : ∃ b, Chain a rs b ∧ Chain b rs' c := by
  induction rs generalizing a with
  | nil => exact ⟨a, rfl, h⟩
  | cons r rs ih =>
      obtain ⟨b, hrs, hrs'⟩ := ih h.2
      exact ⟨b, ⟨h.1, hrs⟩, hrs'⟩

theorem Chain.concat (h : Chain a rs b) (c : ℕ) : Chain a (rs ++ [⟨b, c⟩]) c := by
  induction rs generalizing a with
  | nil => exact ⟨h.symm, rfl⟩
  | cons r rs ih => exact ⟨h.1, ih h.2⟩

theorem Chain.sum_lengths (h : Chain a rs b) (hforward : ∀ r ∈ rs, r.start ≤ r.stop) :
    a + (rs.map fun r => r.stop - r.start).sum = b := by
  induction rs generalizing a with
  | nil => simpa [Chain] using h
  | cons r rs ih =>
      obtain ⟨rfl, hrest⟩ := h
      have hstop := ih hrest fun r hr => hforward r (.tail _ hr)
      have hle := hforward r (.head _)
      rw [List.map_cons, List.sum_cons]
      omega

/-- A chain passes over every number between its ends. -/
theorem Chain.exists_contains (h : Chain a rs b) (ha : a ≤ i) (hb : i < b) : ∃ (s : ℕ) (r : Range), rs[s]? = some r ∧ r.Contains i := by
  induction rs generalizing a with
  | nil =>
      have heq : a = b := h
      omega
  | cons r rs ih =>
      obtain ⟨rfl, hrest⟩ := h
      by_cases hstop : i < r.stop
      · exact ⟨0, r, rfl, ha, hstop⟩
      · obtain ⟨s, r', hs, hcontains⟩ := ih hrest (not_lt.mp hstop)
        exact ⟨s + 1, r', hs, hcontains⟩

/-- A chain that never steps back stays above the number it starts from. -/
theorem Chain.le_of_contains (h : Chain a rs b) (hforward : Forward n rs) (hs : rs[s]? = some r) (hi : r.Contains i)
    (hn : i < n) : a ≤ i := by
  induction rs generalizing a s with
  | nil => cases hs
  | cons r' rs ih =>
      obtain ⟨rfl, hrest⟩ := h
      cases s with
      | zero =>
          cases hs
          exact hi.1
      | succ s =>
          have hstop := ih hrest (fun r hr => hforward r (.tail _ hr)) hs
          rcases hforward r' (.head _) with hle | hle
          · omega
          · omega

/-- The positions that contain numbers are in the order of the numbers. -/
theorem Chain.le_of_le (h : Chain a rs b) (hforward : Forward n rs) (hs : rs[s]? = some r) (hi : r.Contains i)
    (ht : rs[t]? = some r') (hj : r'.Contains j) (hij : i ≤ j) (hn : j < n) : s ≤ t := by
  induction rs generalizing a s t with
  | nil => cases hs
  | cons first rs ih =>
      obtain ⟨rfl, hrest⟩ := h
      have htail : Forward n rs := fun r hr => hforward r (.tail _ hr)
      cases s with
      | zero => exact Nat.zero_le _
      | succ s =>
          cases t with
          | zero =>
              cases ht
              have hstop := hrest.le_of_contains htail hs hi (lt_of_le_of_lt hij hn)
              have hlt := hj.2
              omega
          | succ t => exact Nat.succ_le_succ (ih hrest htail hs ht)

/-- A chain over the numbers below `n` covers each of them once exactly if it never steps back to one of them. -/
theorem Chain.coveredOnce_iff (h : Chain 0 rs n) : (∀ i < n, CoveredOnce rs i) ↔ Forward n rs := by
  constructor
  · intro hcovered r hr
    by_contra hback
    rw [not_or, not_le, not_le] at hback
    obtain ⟨hrev, hstop⟩ := hback
    obtain ⟨before, after, rfl⟩ := List.append_of_mem hr
    obtain ⟨b, hbefore, hstart, hafter⟩ := h.append
    -- the number at which `r` stops is passed over on the way to `r` and again after it
    obtain ⟨s, r₁, hs, hr₁⟩ := hbefore.exists_contains (Nat.zero_le r.stop) (by omega)
    obtain ⟨t, r₂, ht, hr₂⟩ := hafter.exists_contains (le_refl r.stop) hstop
    have hlt : s < before.length := (List.getElem?_eq_some_iff.mp hs).1
    have hs' : (before ++ r :: after)[s]? = some r₁ := by rw [List.getElem?_append_left hlt, hs]
    have ht' : (before ++ r :: after)[before.length + (t + 1)]? = some r₂ := by
      rw [List.getElem?_append_right (Nat.le_add_right _ _), Nat.add_sub_cancel_left, List.getElem?_cons_succ, ht]
    have heq := (hcovered r.stop hstop).unique ⟨r₁, hs', hr₁⟩ ⟨r₂, ht', hr₂⟩
    omega
  · intro hforward i hi
    obtain ⟨s, r, hs, hr⟩ := h.exists_contains (Nat.zero_le i) hi
    refine ⟨s, ⟨r, hs, hr⟩, ?_⟩
    rintro t ⟨r', ht, hr'⟩
    exact le_antisymm (h.le_of_le hforward ht hr' hs hr (le_refl i) hi) (h.le_of_le hforward hs hr ht hr' (le_refl i) hi)

end Zkie.RangeChain
