import Zkie.Synthesis

namespace Zkie.Satisfaction

open Plonkish Synthesis

variable {F ε ε' α β γ : Type}

/-- Values for every cell, and for every row of the instance columns. Cells are addressed by the
region that owns them, so an assignment of the grid induces one of these under any floor plan. -/
structure Assignment (F : Type) where
  cell : Cell → F
  instances : Column → ℕ → F

def Assignment.row (A : Assignment F) (region : ℕ) (offset : ℤ) (column : Column) (rotation : ℤ) : F :=
  A.cell ⟨region, column, offset + rotation⟩

/-- An assigned cell stands in `column` and holds `value`. -/
structure Assignment.Has (A : Assignment F) (c : AssignedCell F) (column : Column) (value : F) : Prop where
  column : c.cell.column = column
  value : A.cell c.cell = value

theorem Assignment.Has.link {A : Assignment F} {cs : ConstraintSystem F} {a b : AssignedCell F}
    {column column' : Column} {v : F} (ha : A.Has a column v) (hb : A.Has b column' v) (hcolumn : column ∈ cs.equality)
    (hcolumn' : column' ∈ cs.equality) :
    a.cell.column ∈ cs.equality ∧ b.cell.column ∈ cs.equality ∧ A.cell a.cell = A.cell b.cell :=
  ⟨ha.column ▸ hcolumn, hb.column ▸ hcolumn', ha.value.trans hb.value.symm⟩

/-- The rows of the tables that a list of actions loads. -/
def Loaded (es : List (Event F)) (columns : List ℕ) (row : List F) : Prop :=
  ∃ rows, Event.table columns rows ∈ es ∧ row ∈ rows

/-- What one layouter action demands of an assignment. Copying and exposing need columns that
take part in the permutation argument. -/
def Holds [Field F] (cs : ConstraintSystem F) (T : List ℕ → List F → Prop) (A : Assignment F) :
    Event F → Prop
  | .enable s region offset =>
      (∀ g ∈ cs.gates, g.selector = s → ∀ e ∈ g.constraints, e.eval (A.row region offset) = 0) ∧
      ∀ l ∈ cs.lookups, l.selector = s →
        T l.tables (l.inputs.map fun i => i.1.eval (A.row region offset))
  | .fixed cell value => A.cell cell = value
  | .copy left right =>
      left.column ∈ cs.equality ∧ right.column ∈ cs.equality ∧ A.cell left = A.cell right
  | .constant cell value => cs.constants ≠ [] ∧ cell.column ∈ cs.equality ∧ A.cell cell = value
  | .expose cell column row =>
      cell.column ∈ cs.equality ∧ column ∈ cs.equality ∧ A.cell cell = A.instances column row
  | .region .. | .advice .. | .table .. => True

structure Satisfies [Field F] (cs : ConstraintSystem F) (es : List (Event F)) (A : Assignment F) : Prop where
  events : ∀ e ∈ es, Holds cs (Loaded es) A e
  idle : ∀ l ∈ cs.lookups, Loaded es l.tables (l.inputs.map Prod.snd)

/-- The assignment carries the values that the actions witness. -/
def Witnessed (A : Assignment F) : Event F → Prop
  | .advice cell (some value) => A.cell cell = value
  | .fixed cell value => A.cell cell = value
  | .expose cell column row => A.instances column row = A.cell cell
  | _ => True

/-- Whatever a run of `p` returns satisfies `Q`, and its actions satisfy `G`, provided that they
satisfy `H`. -/
def Triple (H G : Event F → Prop) (p : Synth F ε α) (Q : α → Prop) : Prop :=
  ∀ n a es n', p n = .ok (a, es, n') → (∀ e ∈ es, H e) → (∀ e ∈ es, G e) ∧ Q a

/-- The program always performs the actions `es` and opens no region. -/
def Emits (p : Synth F ε α) (a : α) (es : List (Event F)) : Prop := ∀ n, p n = .ok (a, es, n)

/-- The program always lays down exactly one region, whose actions are `es`. -/
def Lays (p : Synth F ε α) (a : ℕ → α) (es : ℕ → List (Event F)) : Prop :=
  ∀ n, p n = .ok (a n, es n, n + 1)

namespace Emits

variable {p : Synth F ε α} {f : α → Synth F ε β} {a : α} {b : β} {es es' : List (Event F)}

theorem pure (a : α) : Emits (Pure.pure a : Synth F ε α) a [] := fun _ => rfl

theorem check {c : Prop} [Decidable c] {message : String} (h : c) :
    Emits (Synth.check c message : Synth F ε Unit) () [] := by
  rw [Synth.check, if_pos h]
  exact pure ()

theorem bind (hp : Emits p a es) (hf : Emits (f a) b es') : Emits (p >>= f) b (es ++ es') := fun n =>
  Synth.bind_eq_ok.mpr ⟨a, es, n, es', hp n, hf n, rfl⟩

theorem forEach {f : α → Synth F ε β} {g : α → β} {e : α → List (Event F)} {xs : List α}
    (h : ∀ x ∈ xs, Emits (f x) (g x) (e x)) :
    Emits (Synth.forEach f xs) (xs.map g) (xs.flatMap e) := by
  induction xs with
  | nil => exact pure _
  | cons x xs ih =>
      have hxs := ih fun y hy => h y (List.mem_cons_of_mem _ hy)
      rw [List.map_cons, List.flatMap_cons, ← List.append_nil (xs.flatMap e)]
      exact (h x (by simp)).bind (hxs.bind (f := fun ys => Pure.pure (g x :: ys)) (pure _))

theorem lays {body : ℕ → Synth F ε α} {a : ℕ → α} {es : ℕ → List (Event F)}
    (name : String) (h : ∀ r, Emits (body r) (a r) (es r)) :
    Lays (Synth.assignRegion name body) a fun r => .region name r :: es r := fun n =>
  Synth.bind_eq_ok.mpr ⟨(), [.region name n], n + 1, es n, rfl, h n (n + 1), rfl⟩

end Emits

/-- The program never succeeds. -/
def Fails (p : Synth F ε α) : Prop := ∀ n r, p n ≠ .ok r

theorem Fails.panic (message : String) : Fails (Synth.panic message : Synth F ε α) := fun _ _ h => by
  cases h

theorem Fails.check {c : Prop} [Decidable c] {message : String} (h : ¬c) :
    Fails (Synth.check c message : Synth F ε Unit) := fun n r hrun => by
  rw [Synth.check, if_neg h] at hrun
  cases hrun

theorem Fails.bind_left {p : Synth F ε α} {f : α → Synth F ε β} (h : Fails p) : Fails (p >>= f) := by
  rintro n ⟨b, es, n''⟩ hrun
  obtain ⟨a, es₁, n', es₂, ha, -⟩ := Synth.bind_eq_ok.mp hrun
  exact h n _ ha

theorem Fails.bind_right {p : Synth F ε α} {f : α → Synth F ε β} (h : ∀ a, Fails (f a)) :
    Fails (p >>= f) := by
  rintro n ⟨b, es, n''⟩ hrun
  obtain ⟨a, es₁, n', es₂, -, hb, -⟩ := Synth.bind_eq_ok.mp hrun
  exact h a n' _ hb

theorem Fails.forEach {f : α → Synth F ε β} {xs : List α} {x : α} (hx : x ∈ xs) (h : Fails (f x)) :
    Fails (Synth.forEach f xs) := by
  induction xs with
  | nil => cases hx
  | cons y ys ih =>
      rcases List.mem_cons.mp hx with rfl | hx
      · exact h.bind_left
      · exact .bind_right fun _ => (ih hx).bind_left

theorem Fails.assignRegion {name : String} {body : ℕ → Synth F ε α} (h : ∀ r, Fails (body r)) :
    Fails (Synth.assignRegion name body) := fun n r hrun =>
  Fails.bind_right (p := Synth.emit (.region name n)) (fun _ => h n) (n + 1) r hrun

theorem linkCells_lays (name : String) (pairs : List (AssignedCell F × AssignedCell F)) :
    Lays (Synth.linkCells (ε := ε) name pairs) (fun _ => ())
      fun r => .region name r :: pairs.map fun p => .copy p.1.cell p.2.cell := by
  refine Emits.lays name fun r => ?_
  rw [← List.append_nil (pairs.map _), ← List.flatMap_pure_eq_map]
  exact Emits.bind (Emits.forEach (g := fun _ => ()) fun p _ n => rfl) (Emits.pure ())

theorem forall₂_exists_of_mem {R : α → β → Prop} {xs : List α} {ys : List β} (h : List.Forall₂ R xs ys)
    {x : α} (hx : x ∈ xs) : ∃ y ∈ ys, R x y := by
  induction h with
  | nil => cases hx
  | cons hr _ ih =>
      rcases List.mem_cons.mp hx with rfl | hx
      · exact ⟨_, List.mem_cons_self, hr⟩
      · obtain ⟨y, hy, hxy⟩ := ih hx
        exact ⟨y, List.mem_cons_of_mem _ hy, hxy⟩

theorem forall₂_trans {P : α → β → Prop} {Q : β → γ → Prop} {R : α → γ → Prop} (h : ∀ a b c, P a b → Q b c → R a c)
    {as : List α} {bs : List β} {cs : List γ} (hab : List.Forall₂ P as bs) (hbc : List.Forall₂ Q bs cs) :
    List.Forall₂ R as cs := by
  induction hab generalizing cs with
  | nil =>
      cases hbc
      exact .nil
  | cons hp _ ih =>
      cases hbc with
      | cons hq hqs => exact .cons (h _ _ _ hp hq) (ih hqs)

theorem exists_forall₂ {R : α → β → Prop} {xs : List α} (h : ∀ x ∈ xs, ∃ y, R x y) :
    ∃ ys, List.Forall₂ R xs ys := by
  induction xs with
  | nil => exact ⟨[], .nil⟩
  | cons x xs ih =>
      obtain ⟨y, hy⟩ := h x (.head _)
      obtain ⟨ys, hys⟩ := ih fun z hz => h z (.tail _ hz)
      exact ⟨y :: ys, .cons hy hys⟩

/-- Choosing the witnesses of a pointwise relation all at once. -/
theorem forall₂_choose {α' β' : Type} {P : α → α' → Prop} {Q : β → β' → Prop} {R : α' → β' → Prop}
    {as : List α} {bs : List β} (h : List.Forall₂ (fun a b => ∃ x y, P a x ∧ Q b y ∧ R x y) as bs) :
    ∃ xs ys, List.Forall₂ P as xs ∧ List.Forall₂ Q bs ys ∧ List.Forall₂ R xs ys := by
  induction h with
  | nil => exact ⟨[], [], .nil, .nil, .nil⟩
  | cons hab _ ih =>
      obtain ⟨x, y, hp, hq, hr⟩ := hab
      obtain ⟨xs, ys, hps, hqs, hrs⟩ := ih
      exact ⟨x :: xs, y :: ys, .cons hp hps, .cons hq hqs, .cons hr hrs⟩

/-- The elements in between of a composed relation. -/
theorem forall₂_between {P : α → β → Prop} {Q : β → γ → Prop} {as : List α} {cs : List γ}
    (h : List.Forall₂ (fun a c => ∃ b, P a b ∧ Q b c) as cs) : ∃ bs, List.Forall₂ P as bs ∧ List.Forall₂ Q bs cs := by
  induction h with
  | nil => exact ⟨[], .nil, .nil⟩
  | cons hac _ ih =>
      obtain ⟨b, hp, hq⟩ := hac
      obtain ⟨bs, hps, hqs⟩ := ih
      exact ⟨b :: bs, .cons hp hps, .cons hq hqs⟩

theorem forall₂_of_zip {P : α → γ → Prop} {R : β → γ → Prop} {as : List α} {bs : List β} {cs : List γ}
    (hlen : as.length = bs.length) (h : List.Forall₂ P as cs)
    (hlink : ∀ p ∈ as.zip bs, ∀ c, P p.1 c → R p.2 c) : List.Forall₂ R bs cs := by
  induction h generalizing bs with
  | nil =>
      rw [List.eq_nil_of_length_eq_zero hlen.symm]
      exact .nil
  | cons hac _ ih =>
      cases bs with
      | nil => cases hlen
      | cons b bs =>
          rw [List.zip_cons_cons, List.forall_mem_cons] at hlink
          exact .cons (hlink.1 _ hac) (ih (by simpa using hlen) hlink.2)

namespace Triple

variable {H G : Event F → Prop} {p : Synth F ε α} {f : α → Synth F ε β} {Q : α → Prop} {R : β → Prop}

theorem pure {a : α} (h : Q a) : Triple H G (Pure.pure a : Synth F ε α) Q := by
  intro n b es n' hrun _
  obtain ⟨rfl, rfl, rfl⟩ := Synth.pure_eq_ok.mp hrun
  exact ⟨by simp, h⟩

theorem bind (hp : Triple H G p Q) (hf : ∀ a, Q a → Triple H G (f a) R) : Triple H G (p >>= f) R := by
  intro n b es n'' hrun hH
  obtain ⟨a, es₁, n', es₂, hp', hf', rfl⟩ := Synth.bind_eq_ok.mp hrun
  obtain ⟨hG₁, hq⟩ := hp n a es₁ n' hp' fun e he => hH e (List.mem_append_left _ he)
  obtain ⟨hG₂, hr⟩ := hf a hq n' b es₂ n'' hf' fun e he => hH e (List.mem_append_right _ he)
  exact ⟨fun e he => (List.mem_append.mp he).elim (hG₁ e) (hG₂ e), hr⟩

theorem mono {Q' : α → Prop} (hp : Triple H G p Q) (h : ∀ a, Q a → Q' a) : Triple H G p Q' :=
  fun n a es n' hrun hH => (hp n a es n' hrun hH).imp_right (h a)

theorem fail {e : ε} : Triple H G (Synth.fail e : Synth F ε α) Q := fun _ _ _ _ h => by cases h

theorem panic {m : String} : Triple H G (Synth.panic m : Synth F ε α) Q := fun _ _ _ _ h => by cases h

theorem check {c : Prop} [Decidable c] {m : String} :
    Triple H G (Synth.check c m : Synth F ε Unit) fun _ => c := by
  by_cases hc : c
  · rw [Synth.check, if_pos hc]
    exact pure hc
  · rw [Synth.check, if_neg hc]
    exact panic

theorem ensure {c : Prop} [Decidable c] {e : ε} :
    Triple H G (Synth.ensure c e : Synth F ε Unit) fun _ => c := by
  by_cases hc : c
  · rw [Synth.ensure, if_pos hc]
    exact pure hc
  · rw [Synth.ensure, if_neg hc]
    exact fail

theorem mapError {g : ε → ε'} (hp : Triple H G p Q) : Triple H G (p.mapError g) Q :=
  fun n a es n' hrun => hp n a es n' (Synth.mapError_eq_ok.mp hrun)

theorem ofExcept {x : Except ε α} (h : ∀ a, x = .ok a → Q a) :
    Triple H G (Synth.ofExcept x : Synth F ε α) Q := by
  cases x with
  | ok a => exact pure (h a rfl)
  | error e => exact fail

theorem unwrap {x : Option α} {m : String} (h : ∀ a, x = some a → Q a) :
    Triple H G (Synth.unwrap m x : Synth F ε α) Q := by
  cases x with
  | some a => exact pure (h a rfl)
  | none => exact panic

theorem forEach {f : α → Synth F ε β} {Q : α → β → Prop} {xs : List α}
    (h : ∀ x ∈ xs, Triple H G (f x) (Q x)) :
    Triple H G (Synth.forEach f xs) fun ys => List.Forall₂ Q xs ys := by
  induction xs with
  | nil => exact pure .nil
  | cons x xs ih =>
      refine (h x (by simp)).bind fun y hy => ?_
      refine (ih fun z hz => h z (List.mem_cons_of_mem _ hz)).bind fun ys hys => ?_
      exact pure (.cons hy hys)

/-- The loop rule. The invariant speaks about the part of the list already done. -/
theorem foldEach {f : β → α → Synth F ε β} {I : List α → β → Prop} {xs : List α} {s : β}
    (h : ∀ done x rest, xs = done ++ x :: rest → ∀ s, I done s → Triple H G (f s x) (I (done ++ [x])))
    (hs : I [] s) : Triple H G (Synth.foldEach f s xs) (I xs) := by
  suffices hgen : ∀ rest done s, xs = done ++ rest → I done s →
      Triple H G (Synth.foldEach f s rest) (I xs) from hgen xs [] s rfl hs
  intro rest
  induction rest with
  | nil =>
      intro done s hxs hi
      rw [List.append_nil] at hxs
      exact pure (hxs ▸ hi)
  | cons x rest ih =>
      intro done s hxs hi
      refine (h done x rest hxs s hi).bind fun s' hs' => ?_
      exact ih (done ++ [x]) s' (by rw [hxs, List.append_assoc]; rfl) hs'

/-- A program without demands. -/
theorem any : Triple H (fun _ => True) p fun _ => True := fun _ _ _ _ _ _ => ⟨fun _ _ => trivial, trivial⟩

theorem of_fails (h : Fails p) : Triple H G p Q := fun n _ _ _ hrun => absurd hrun (h n _)

theorem of_emits {a : α} {es : List (Event F)} (h : Emits p a es)
    (hQ : (∀ e ∈ es, H e) → (∀ e ∈ es, G e) ∧ Q a) : Triple H G p Q := by
  intro n b es' n' hrun hH
  rw [h n] at hrun
  cases hrun
  exact hQ hH

theorem of_lays {a : ℕ → α} {es : ℕ → List (Event F)} (h : Lays p a es)
    (hQ : ∀ r, (∀ e ∈ es r, H e) → (∀ e ∈ es r, G e) ∧ Q (a r)) : Triple H G p Q := by
  intro n b es' n' hrun hH
  rw [h n] at hrun
  cases hrun
  exact hQ n hH

end Triple

section Gates

variable [Field F] {cs : ConstraintSystem F} {T : List ℕ → List F → Prop} {A : Assignment F}

/-- Soundness of a gadget: any assignment that meets the demands of its actions meets `Q`. -/
abbrev Sound (cs : ConstraintSystem F) (T : List ℕ → List F → Prop) (A : Assignment F)
    (p : Synth F ε α) (Q : α → Prop) : Prop := Triple (Holds cs T A) (fun _ => True) p Q

/-- Completeness of a gadget: an assignment with the witnessed values meets all its demands. -/
abbrev Complete (cs : ConstraintSystem F) (T : List ℕ → List F → Prop) (A : Assignment F)
    (p : Synth F ε α) (Q : α → Prop) : Prop := Triple (Witnessed A) (Holds cs T A) p Q

theorem holds_gate (hwf : cs.WellFormed) {name : String} {s : ℕ} {constraints : List (Expression F)}
    (hg : ⟨name, s, constraints⟩ ∈ cs.gates) (region : ℕ) (offset : ℤ) :
    Holds cs T A (.enable s region offset) ↔ ∀ e ∈ constraints, e.eval (A.row region offset) = 0 := by
  constructor
  · intro h e he
    exact h.1 _ hg rfl e he
  · intro h
    refine ⟨fun g' hg' hs e he => ?_, fun l hl hs => absurd hs.symm (hwf.selector_ne hg hl)⟩
    rw [hwf.gate_unique hg hg' hs] at he
    exact h e he

theorem holds_lookup (hwf : cs.WellFormed) {name : String} {s : ℕ} {inputs : List (Expression F × F)}
    {tables : List ℕ} (hl : ⟨name, s, inputs, tables⟩ ∈ cs.lookups) (region : ℕ) (offset : ℤ) :
    Holds cs T A (.enable s region offset) ↔ T tables (inputs.map fun i => i.1.eval (A.row region offset)) := by
  constructor
  · intro h
    exact h.2 _ hl rfl
  · intro h
    refine ⟨fun g hg hs => absurd hs (hwf.selector_ne hg hl), fun l' hl' hs => ?_⟩
    rw [hwf.lookup_unique hl hl' hs]
    exact h

theorem Sound.linkCells {name : String} {pairs : List (AssignedCell F × AssignedCell F)} :
    Sound cs T A (Synth.linkCells (ε := ε) name pairs)
      fun _ => ∀ p ∈ pairs, A.cell p.1.cell = A.cell p.2.cell := by
  refine .of_lays (linkCells_lays name pairs) fun r h => ⟨fun _ _ => trivial, fun p hp => ?_⟩
  exact (h _ (List.mem_cons_of_mem _ (List.mem_map_of_mem hp))).2.2

theorem Complete.linkCells {name : String} {pairs : List (AssignedCell F × AssignedCell F)}
    (h : ∀ p ∈ pairs, p.1.cell.column ∈ cs.equality ∧ p.2.cell.column ∈ cs.equality ∧
      A.cell p.1.cell = A.cell p.2.cell) :
    Complete cs T A (Synth.linkCells (ε := ε) name pairs) fun _ => True := by
  refine .of_lays (linkCells_lays name pairs) fun r _ => ⟨fun e he => ?_, trivial⟩
  rcases List.mem_cons.mp he with rfl | he
  · trivial
  · obtain ⟨p, hp, rfl⟩ := List.mem_map.mp he
    exact h p hp

end Gates

end Zkie.Satisfaction
