import Zkie.Satisfaction

namespace Zkie.Placement

open Plonkish Synthesis Satisfaction

variable {F ε ε' α β : Type}

def written : Event F → Option Cell
  | .advice cell _ => some cell
  | .fixed cell _ => some cell
  | _ => none

def exposed : Event F → Option (Column × ℕ)
  | .expose _ column row => some (column, row)
  | _ => none

/-- Neither a table nor an instance row is touched. -/
def IsInner : Event F → Prop
  | .table .. | .expose .. => False
  | _ => True

def cellsOf (es : List (Event F)) : List Cell := es.filterMap written

@[simp]
theorem cellsOf_append (es fs : List (Event F)) : cellsOf (es ++ fs) = cellsOf es ++ cellsOf fs :=
  List.filterMap_append

/-- Every cell that the program writes lies in a region it has opened, and it is written once. The
program works inside its regions only. -/
def Placed (p : Synth F ε α) : Prop :=
  ∀ n a es n', p n = .ok (a, es, n') →
    n ≤ n' ∧ (∀ c ∈ cellsOf es, n ≤ c.region ∧ c.region < n') ∧ (cellsOf es).Nodup ∧ ∀ e ∈ es, IsInner e

namespace Placed

variable {p : Synth F ε α} {f : α → Synth F ε β}

theorem pure {a : α} : Placed (Pure.pure a : Synth F ε α) := by
  intro n b es n' hrun
  obtain ⟨rfl, rfl, rfl⟩ := Synth.pure_eq_ok.mp hrun
  exact ⟨Nat.le_refl _, by simp [cellsOf], List.nodup_nil, by simp⟩

theorem fail {e : ε} : Placed (Synth.fail e : Synth F ε α) := fun _ _ _ _ h => by cases h

theorem panic {m : String} : Placed (Synth.panic m : Synth F ε α) := fun _ _ _ _ h => by cases h

theorem check {c : Prop} [Decidable c] {m : String} : Placed (Synth.check c m : Synth F ε Unit) := by
  unfold Synth.check
  split
  · exact pure
  · exact panic

theorem ensure {c : Prop} [Decidable c] {e : ε} : Placed (Synth.ensure c e : Synth F ε Unit) := by
  unfold Synth.ensure
  split
  · exact pure
  · exact fail

/-- Sequencing when something is known of the first result. -/
theorem bind_triple {Q : α → Prop} (hp : Placed p) (hq : Triple (fun _ => True) (fun _ => True) p Q)
    (hf : ∀ a, Q a → Placed (f a)) : Placed (p >>= f) := by
  intro n b es n'' hrun
  obtain ⟨a, es₁, n', es₂, ha, hb, rfl⟩ := Synth.bind_eq_ok.mp hrun
  have hQ : Q a := (hq n a es₁ n' ha fun _ _ => trivial).2
  obtain ⟨hle, hreg, hnd, hin⟩ := hp n a es₁ n' ha
  obtain ⟨hle', hreg', hnd', hin'⟩ := hf a hQ n' b es₂ n'' hb
  refine ⟨Nat.le_trans hle hle', fun c hc => ?_, ?_, List.forall_mem_append.mpr ⟨hin, hin'⟩⟩
  · rw [cellsOf_append] at hc
    rcases List.mem_append.mp hc with hc | hc
    · have := hreg c hc
      omega
    · have := hreg' c hc
      omega
  · rw [cellsOf_append]
    refine hnd.append hnd' fun c hc hc' => ?_
    have := hreg c hc
    have := hreg' c hc'
    omega

theorem bind (hp : Placed p) (hf : ∀ a, Placed (f a)) : Placed (p >>= f) :=
  bind_triple hp Triple.any fun a _ => hf a

theorem ofExcept {x : Except ε α} : Placed (Synth.ofExcept x : Synth F ε α) := by
  cases x with
  | ok a => exact pure
  | error e => exact fail

theorem ofExcept_bind {x : Except ε α} (hf : ∀ a, x = .ok a → Placed (f a)) : Placed (Synth.ofExcept x >>= f) := by
  intro n b es n' hrun
  obtain ⟨a, es₁, n₁, es₂, ha, hb, rfl⟩ := Synth.bind_eq_ok.mp hrun
  cases x with
  | error e => cases ha
  | ok a' =>
      obtain ⟨rfl, rfl, rfl⟩ := Synth.pure_eq_ok.mp ha
      exact hf a rfl n₁ b es₂ n' hb

theorem unwrap {x : Option α} {m : String} : Placed (Synth.unwrap m x : Synth F ε α) := by
  cases x with
  | some a => exact pure
  | none => exact panic

theorem mapError {g : ε → ε'} (hp : Placed p) : Placed (p.mapError g) :=
  fun n a es n' hrun => hp n a es n' (Synth.mapError_eq_ok.mp hrun)

theorem forEach {f : α → Synth F ε β} {xs : List α} (h : ∀ x ∈ xs, Placed (f x)) :
    Placed (Synth.forEach f xs) := by
  induction xs with
  | nil => exact pure
  | cons x xs ih =>
      exact (h x (by simp)).bind fun y =>
        (ih fun z hz => h z (List.mem_cons_of_mem _ hz)).bind fun ys => pure

theorem foldEach {f : β → α → Synth F ε β} {xs : List α} (h : ∀ s, ∀ x ∈ xs, Placed (f s x)) (s : β) :
    Placed (Synth.foldEach f s xs) := by
  induction xs generalizing s with
  | nil => exact pure
  | cons x xs ih =>
      exact (h s x (by simp)).bind fun s' => ih (fun t z hz => h t z (List.mem_cons_of_mem _ hz)) s'

theorem of_fails (h : Fails p) : Placed p := fun n _ _ _ hrun => absurd hrun (h n _)

theorem of_emits {a : α} {es : List (Event F)} (h : Emits p a es) (hes : cellsOf es = [])
    (hin : ∀ e ∈ es, IsInner e) : Placed p := by
  intro n b es' n' hrun
  rw [h n] at hrun
  cases hrun
  exact ⟨Nat.le_refl _, by simp [hes], by simp [hes], hin⟩

theorem of_lays {a : ℕ → α} {es : ℕ → List (Event F)} (h : Lays p a es)
    (hreg : ∀ r, ∀ c ∈ cellsOf (es r), c.region = r) (hnd : ∀ r, (cellsOf (es r)).Nodup)
    (hin : ∀ r, ∀ e ∈ es r, IsInner e) : Placed p := by
  intro n b es' n' hrun
  rw [h n] at hrun
  cases hrun
  refine ⟨by omega, fun c hc => ?_, hnd n, hin n⟩
  have := hreg n c hc
  omega

/-- A region of one row with distinct columns. -/
theorem of_row {a : ℕ → α} {es : ℕ → List (Event F)} (columns : List Column) (h : Lays p a es)
    (hes : ∀ r, cellsOf (es r) = columns.map fun c => ⟨r, c, 0⟩) (hnd : columns.Nodup)
    (hin : ∀ r, ∀ e ∈ es r, IsInner e) : Placed p := by
  refine of_lays h (fun r c hc => ?_) (fun r => ?_) hin
  · rw [hes r] at hc
    obtain ⟨column, -, rfl⟩ := List.mem_map.mp hc
    rfl
  · rw [hes r]
    exact hnd.map fun c c' hc => (Cell.mk.inj hc).2.1

theorem linkCells {name : String} {pairs : List (AssignedCell F × AssignedCell F)} :
    Placed (Synth.linkCells (ε := ε) name pairs) := by
  have hnone : ∀ r, cellsOf (F := F) (.region name r :: pairs.map fun p => .copy p.1.cell p.2.cell) = [] := by
    intro r
    refine List.filterMap_eq_nil_iff.mpr fun e he => ?_
    rcases List.mem_cons.mp he with rfl | he
    · rfl
    · obtain ⟨p, -, rfl⟩ := List.mem_map.mp he
      rfl
  refine of_lays (linkCells_lays name pairs) (fun r c hc => ?_) (fun r => ?_) fun r e he => ?_
  · rw [hnone r] at hc
    cases hc
  · rw [hnone r]
    exact List.nodup_nil
  · rcases List.mem_cons.mp he with rfl | he
    · trivial
    · obtain ⟨p, -, rfl⟩ := List.mem_map.mp he
      trivial

end Placed

/-- A search that can only stop at elements with one key finds the element with that key. -/
theorem findSome?_of_nodup {K V : Type} {key : α → Option K} {g : α → Option V} {xs : List α} {x : α}
    {k : K} {v : V} (hnd : (xs.filterMap key).Nodup) (hx : x ∈ xs) (hk : key x = some k)
    (hg : g x = some v) (hstop : ∀ y, g y ≠ none → key y = some k) : xs.findSome? g = some v := by
  induction xs with
  | nil => cases hx
  | cons y ys ih =>
      rw [List.findSome?_cons]
      rcases List.mem_cons.mp hx with rfl | hx
      · rw [hg]
      · cases hy : g y with
        | none =>
            refine ih ?_ hx
            cases hky : key y with
            | none => rwa [List.filterMap_cons_none hky] at hnd
            | some k' => rw [List.filterMap_cons_some hky] at hnd; exact (List.nodup_cons.mp hnd).2
        | some w =>
            have hky := hstop y (by rw [hy]; exact Option.some_ne_none w)
            rw [List.filterMap_cons_some hky] at hnd
            exact absurd (List.mem_filterMap.mpr ⟨x, hx, hk⟩) (List.nodup_cons.mp hnd).1

theorem written_of_valueAt {cell : Cell} (e : Event F)
    (h : (match e with
      | .advice c (some v) => if c = cell then some v else none
      | .fixed c v => if c = cell then some v else none
      | _ => none) ≠ none) : written e = some cell := by
  split at h
  · split at h
    · rename_i hc
      rw [← hc]
      rfl
    · exact absurd rfl h
  · split at h
    · rename_i hc
      rw [← hc]
      rfl
    · exact absurd rfl h
  · exact absurd rfl h

section Honest

variable [Zero F]

/-- The value that the actions give to a cell. -/
def valueAt (es : List (Event F)) (cell : Cell) : Option F :=
  es.findSome? fun
    | .advice c (some v) => if c = cell then some v else none
    | .fixed c v => if c = cell then some v else none
    | _ => none

/-- The assignment of an honest prover: the witnessed values, zero elsewhere, and the instance
rows that the exposed cells dictate. -/
def honest (es : List (Event F)) : Assignment F where
  cell cell := (valueAt es cell).getD 0
  instances column row := (es.findSome? fun
    | .expose cell c i => if (c, i) = (column, row) then some ((valueAt es cell).getD 0) else none
    | _ => none).getD 0

/-- An honest prover can fill the grid when no cell is written twice and no instance row is
exposed twice. -/
theorem honest_witnessed {es : List (Event F)} (hcells : (cellsOf es).Nodup)
    (hexposed : (es.filterMap exposed).Nodup) : ∀ e ∈ es, Witnessed (honest es) e := by
  intro e he
  cases e with
  | advice cell value =>
      cases value with
      | none => trivial
      | some v =>
          have hv : valueAt es cell = some v :=
            findSome?_of_nodup hcells he rfl (by simp) written_of_valueAt
          simp only [Witnessed, honest, hv, Option.getD_some]
  | fixed cell v =>
      have hv : valueAt es cell = some v :=
        findSome?_of_nodup hcells he rfl (by simp) written_of_valueAt
      simp only [Witnessed, honest, hv, Option.getD_some]
  | expose cell column row =>
      have hv := findSome?_of_nodup (g := fun e : Event F => match e with
        | .expose cell c i => if (c, i) = (column, row) then some ((valueAt es cell).getD 0) else none
        | _ => none) hexposed he rfl (if_pos rfl) fun e h => by
          split at h
          · split at h
            · rename_i hc
              rw [← hc]
              rfl
            · exact absurd rfl h
          · exact absurd rfl h
      simp only [Witnessed, honest, hv, Option.getD_some]
  | region | enable | copy | constant | table => trivial

end Honest

end Zkie.Placement
