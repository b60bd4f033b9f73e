import Mathlib

namespace Zkie.Plonkish

variable {F α β : Type}

inductive Column where
  | advice (index : ℕ)
  | fixed (index : ℕ)
  | inst (index : ℕ)
  deriving DecidableEq, Repr

inductive Expression (F : Type) where
  | constant (c : F)
  | query (column : Column) (rotation : ℤ)
  | negated (e : Expression F)
  | sum (e f : Expression F)
  | product (e f : Expression F)

namespace Expression

instance : Add (Expression F) := ⟨sum⟩
instance : Mul (Expression F) := ⟨product⟩
instance : Neg (Expression F) := ⟨negated⟩
instance : Sub (Expression F) := ⟨fun e f => e + -f⟩

/-- The value of an expression at a row, given the value of every column relative to that row. -/
def eval [Field F] (row : Column → ℤ → F) : Expression F → F
  | constant c => c
  | query column rotation => row column rotation
  | negated e => -e.eval row
  | sum e f => e.eval row + f.eval row
  | product e f => e.eval row * f.eval row

section Eval

variable [Field F] (row : Column → ℤ → F) (e f : Expression F)

@[simp]
theorem eval_constant (c : F) : (constant c).eval row = c := rfl

@[simp]
theorem eval_query (column : Column) (rotation : ℤ) :
    (query column rotation).eval row = row column rotation := rfl

@[simp]
theorem eval_neg : (-e).eval row = -e.eval row := rfl

@[simp]
theorem eval_add : (e + f).eval row = e.eval row + f.eval row := rfl

@[simp]
theorem eval_mul : (e * f).eval row = e.eval row * f.eval row := rfl

@[simp]
theorem eval_sub : (e - f).eval row = e.eval row - f.eval row := (sub_eq_add_neg _ _).symm

end Eval

end Expression

/-- A custom gate. Each constraint is multiplied by the selector, so it binds only on the rows
where the selector is enabled. -/
structure Gate (F : Type) where
  name : String
  selector : ℕ
  constraints : List (Expression F)

/-- A lookup argument. An input is paired with the constant that replaces it on the rows where
the selector is disabled: the looked up expression is `s * e + (1 - s) * idle`. -/
structure Lookup (F : Type) where
  name : String
  selector : ℕ
  inputs : List (Expression F × F)
  tables : List ℕ

/-- The table columns of a lookup, with the row that every disabled row looks up. -/
def Lookup.idle (l : Lookup F) : List ℕ × List F := (l.tables, l.inputs.map Prod.snd)

structure ConstraintSystem (F : Type) where
  numAdvice : ℕ := 0
  numFixed : ℕ := 0
  numInstance : ℕ := 0
  numSelectors : ℕ := 0
  numTables : ℕ := 0
  equality : List Column := []
  constants : List Column := []
  gates : List (Gate F) := []
  lookups : List (Lookup F) := []

namespace ConstraintSystem

variable {cs cs' cs'' : ConstraintSystem F}

/-- Later configuration only adds columns, gates and lookups. -/
structure Extends (cs cs' : ConstraintSystem F) : Prop where
  numAdvice : cs.numAdvice ≤ cs'.numAdvice
  numFixed : cs.numFixed ≤ cs'.numFixed
  numSelectors : cs.numSelectors ≤ cs'.numSelectors
  numTables : cs.numTables ≤ cs'.numTables
  equality : cs.equality ⊆ cs'.equality
  constants : cs.constants ⊆ cs'.constants
  gates : cs.gates ⊆ cs'.gates
  lookups : cs.lookups ⊆ cs'.lookups

theorem Extends.refl (cs : ConstraintSystem F) : cs.Extends cs := by
  constructor <;> simp

theorem Extends.trans (h : cs.Extends cs') (h' : cs'.Extends cs'') : cs.Extends cs'' where
  numAdvice := Nat.le_trans h.numAdvice h'.numAdvice
  numFixed := Nat.le_trans h.numFixed h'.numFixed
  numSelectors := Nat.le_trans h.numSelectors h'.numSelectors
  numTables := Nat.le_trans h.numTables h'.numTables
  equality := List.Subset.trans h.equality h'.equality
  constants := List.Subset.trans h.constants h'.constants
  gates := List.Subset.trans h.gates h'.gates
  lookups := List.Subset.trans h.lookups h'.lookups

/-- The column was handed out by `adviceColumn`. -/
def Allocated (cs : ConstraintSystem F) (c : Column) : Prop := ∃ i < cs.numAdvice, c = .advice i

theorem Allocated.mono {c : Column} (h : cs.Allocated c) (hle : cs.Extends cs') : cs'.Allocated c := by
  obtain ⟨i, hi, rfl⟩ := h
  exact ⟨i, Nat.lt_of_lt_of_le hi hle.numAdvice, rfl⟩

/-- The selectors in use, gates first. -/
def selectors (cs : ConstraintSystem F) : List ℕ :=
  cs.gates.map Gate.selector ++ cs.lookups.map Lookup.selector

/-- Every selector in use was handed out by `selector`, and it drives one gate or one lookup. -/
structure WellFormed (cs : ConstraintSystem F) : Prop where
  bounded : ∀ s ∈ cs.selectors, s < cs.numSelectors
  nodup : cs.selectors.Nodup

theorem WellFormed.add_fresh (hwf : cs.WellFormed) (hn : cs'.numSelectors = cs.numSelectors + 1)
    (hp : cs'.selectors.Perm (cs.numSelectors :: cs.selectors)) : cs'.WellFormed where
  bounded s hs := by
    rcases List.mem_cons.mp (hp.mem_iff.mp hs) with rfl | hs
    · omega
    · have := hwf.bounded s hs
      omega
  nodup := by
    have hfresh : cs.numSelectors ∉ cs.selectors := fun hmem => by
      have := hwf.bounded _ hmem
      omega
    exact hp.nodup_iff.mpr (List.nodup_cons.mpr ⟨hfresh, hwf.nodup⟩)

theorem WellFormed.gate_unique (hwf : cs.WellFormed) {g h : Gate F} (hg : g ∈ cs.gates)
    (hh : h ∈ cs.gates) (hs : h.selector = g.selector) : h = g :=
  List.inj_on_of_nodup_map hwf.nodup.of_append_left hh hg hs

theorem WellFormed.lookup_unique (hwf : cs.WellFormed) {l l' : Lookup F} (hl : l ∈ cs.lookups)
    (hl' : l' ∈ cs.lookups) (hs : l'.selector = l.selector) : l' = l :=
  List.inj_on_of_nodup_map hwf.nodup.of_append_right hl' hl hs

theorem WellFormed.selector_ne (hwf : cs.WellFormed) {g : Gate F} {l : Lookup F}
    (hg : g ∈ cs.gates) (hl : l ∈ cs.lookups) : g.selector ≠ l.selector := fun h =>
  List.disjoint_of_nodup_append hwf.nodup (List.mem_map_of_mem hg)
    (h ▸ List.mem_map_of_mem hl)

end ConstraintSystem

/-- A configuration program. The exception is a failed assertion. -/
abbrev Configure (F : Type) : Type → Type := StateT (ConstraintSystem F) (Except String)

def adviceColumn : Configure F Column := fun cs =>
  .ok (.advice cs.numAdvice, { cs with numAdvice := cs.numAdvice + 1 })

def fixedColumn : Configure F Column := fun cs =>
  .ok (.fixed cs.numFixed, { cs with numFixed := cs.numFixed + 1 })

def instanceColumn : Configure F Column := fun cs =>
  .ok (.inst cs.numInstance, { cs with numInstance := cs.numInstance + 1 })

def lookupTableColumn : Configure F ℕ := fun cs =>
  .ok (cs.numTables, { cs with numTables := cs.numTables + 1 })

def selector : Configure F ℕ := fun cs =>
  .ok (cs.numSelectors, { cs with numSelectors := cs.numSelectors + 1 })

def enableEquality (column : Column) : Configure F Unit := fun cs =>
  .ok ((), { cs with equality := cs.equality ++ [column] })

/-- A constants column also takes part in the permutation argument. -/
def enableConstant (column : Column) : Configure F Unit := fun cs =>
  .ok ((), { cs with constants := cs.constants ++ [column], equality := cs.equality ++ [column] })

def createGate (name : String) (selector : ℕ) (constraints : List (Expression F)) : Configure F Unit :=
  fun cs => .ok ((), { cs with gates := cs.gates ++ [⟨name, selector, constraints⟩] })

def lookup (name : String) (selector : ℕ) (inputs : List (Expression F × F)) (tables : List ℕ) :
    Configure F Unit :=
  fun cs => .ok ((), { cs with lookups := cs.lookups ++ [⟨name, selector, inputs, tables⟩] })

def assertThat (condition : Prop) [Decidable condition] (message : String) : Configure F Unit :=
  if condition then pure () else throw message

/-- `expect` during configuration. -/
def require (message : String) : Option α → Configure F α
  | some a => pure a
  | none => throw message

/-- A `for` loop of configuration that collects its results. -/
def configureEach (f : α → Configure F β) : List α → Configure F (List β)
  | [] => pure []
  | x :: xs => do
      let y ← f x
      let ys ← configureEach f xs
      return y :: ys

/-- Partial correctness of a configuration program started at `cs`: it only extends the system,
it keeps selectors unshared, and its result satisfies `Q`. -/
def Configures (p : Configure F α) (cs : ConstraintSystem F) (Q : α → ConstraintSystem F → Prop) : Prop :=
  ∀ a cs', p cs = .ok (a, cs') → cs.Extends cs' ∧ (cs.WellFormed → cs'.WellFormed) ∧ Q a cs'

namespace Configures

variable {cs : ConstraintSystem F} {p : Configure F α} {f : α → Configure F β}
  {Q : α → ConstraintSystem F → Prop} {R : β → ConstraintSystem F → Prop}

theorem bind_ok {b : β} {cs'' : ConstraintSystem F} (h : (p >>= f) cs = .ok (b, cs'')) :
    ∃ a cs', p cs = .ok (a, cs') ∧ f a cs' = .ok (b, cs'') := by
  change (p cs >>= fun x => f x.1 x.2) = _ at h
  cases hp : p cs with
  | error e => rw [hp] at h; cases h
  | ok x => rw [hp] at h; exact ⟨x.1, x.2, rfl, h⟩

theorem bind (hp : Configures p cs Q)
    (hf : ∀ a cs', cs.Extends cs' → Q a cs' → Configures (f a) cs' R) : Configures (p >>= f) cs R := by
  intro b cs'' h
  obtain ⟨a, cs', ha, hb⟩ := bind_ok h
  obtain ⟨hle, hwf, hq⟩ := hp a cs' ha
  obtain ⟨hle', hwf', hr⟩ := hf a cs' hle hq b cs'' hb
  exact ⟨hle.trans hle', hwf' ∘ hwf, hr⟩

theorem pure {a : α} (h : Q a cs) : Configures (Pure.pure a) cs Q := by
  rintro b cs' h'
  cases h'
  exact ⟨.refl _, id, h⟩

theorem mono {Q' : α → ConstraintSystem F → Prop} (hp : Configures p cs Q)
    (h : ∀ a cs', cs.Extends cs' → Q a cs' → Q' a cs') : Configures p cs Q' := fun a cs' ha =>
  have ⟨hle, hwf, hq⟩ := hp a cs' ha
  ⟨hle, hwf, h a cs' hle hq⟩

theorem assertThat {c : Prop} [Decidable c] {message : String} :
    Configures (F := F) (assertThat c message) cs fun _ _ => c := by
  intro a cs' h
  by_cases hc : c
  · rw [Plonkish.assertThat, if_pos hc] at h
    cases h
    exact ⟨.refl _, id, hc⟩
  · rw [Plonkish.assertThat, if_neg hc] at h
    cases h

theorem require {x : Option α} {message : String} :
    Configures (F := F) (require message x) cs fun a _ => x = some a := by
  intro a cs' h
  cases x with
  | none => cases h
  | some b =>
      cases h
      exact ⟨.refl _, id, rfl⟩

/-- A new advice column differs from all the columns handed out before. -/
theorem adviceColumn : Configures (F := F) adviceColumn cs fun c cs' =>
    cs'.Allocated c ∧ ∀ d, cs.Allocated d → d ≠ c := by
  rintro a cs' h
  cases h
  refine ⟨by constructor <;> simp, fun hwf => ⟨hwf.bounded, hwf.nodup⟩, ⟨_, Nat.lt_succ_self _, rfl⟩, ?_⟩
  rintro _ ⟨i, hi, rfl⟩ heq
  have := Column.advice.inj heq
  omega

/-- Several new advice columns at once; `hp` says how the program reaches its continuation. -/
theorem of_columns {p q : Configure F β} (n : ℕ) (hp : p cs = q { cs with numAdvice := cs.numAdvice + n })
    (hq : ∀ cs', cs.Extends cs' → (∀ c ∈ (List.range n).map fun i => Column.advice (cs.numAdvice + i),
      cs'.Allocated c) → Configures q cs' R) : Configures p cs R := by
  intro b cs'' h
  rw [hp] at h
  have hle : cs.Extends { cs with numAdvice := cs.numAdvice + n } := by constructor <;> simp
  have halloc : ∀ c ∈ (List.range n).map fun i => Column.advice (cs.numAdvice + i),
      ConstraintSystem.Allocated { cs with numAdvice := cs.numAdvice + n } c := fun c hc => by
    obtain ⟨i, hi, rfl⟩ := List.mem_map.mp hc
    exact ⟨_, Nat.add_lt_add_left (List.mem_range.mp hi) _, rfl⟩
  obtain ⟨hle', hwf', hr⟩ := hq _ hle halloc b cs'' h
  exact ⟨hle.trans hle', fun hwf => hwf' ⟨hwf.bounded, hwf.nodup⟩, hr⟩

theorem nodup_columns {c : Column} (hc : cs.Allocated c) (n : ℕ) :
    (c :: (List.range n).map fun i => Column.advice (cs.numAdvice + i)).Nodup := by
  obtain ⟨j, hj, rfl⟩ := hc
  refine List.nodup_cons.mpr ⟨fun hmem => ?_, List.nodup_range.map fun i i' hi => ?_⟩
  · obtain ⟨i, -, hi⟩ := List.mem_map.mp hmem
    have := Column.advice.inj hi
    omega
  · have := Column.advice.inj hi
    omega

theorem fixedColumn : Configures (F := F) fixedColumn cs fun c cs' =>
    c = .fixed cs.numFixed ∧ cs'.numFixed = cs.numFixed + 1 := by
  rintro a cs' h
  cases h
  refine ⟨by constructor <;> simp, fun hwf => ⟨hwf.bounded, hwf.nodup⟩, rfl, rfl⟩

theorem instanceColumn : Configures (F := F) instanceColumn cs fun c _ => ∃ i, c = .inst i := by
  rintro a cs' h
  cases h
  exact ⟨by constructor <;> simp, fun hwf => ⟨hwf.bounded, hwf.nodup⟩, _, rfl⟩

theorem enableEquality (column : Column) :
    Configures (F := F) (enableEquality column) cs fun _ cs' => column ∈ cs'.equality := by
  rintro a cs' h
  cases h
  refine ⟨by constructor <;> simp, fun hwf => ⟨hwf.bounded, hwf.nodup⟩, by simp⟩

theorem enableConstant (column : Column) :
    Configures (F := F) (enableConstant column) cs fun _ cs' =>
      column ∈ cs'.constants ∧ column ∈ cs'.equality := by
  rintro a cs' h
  cases h
  refine ⟨by constructor <;> simp, fun hwf => ⟨hwf.bounded, hwf.nodup⟩, by simp, by simp⟩

/-- The loop rule. The invariant speaks about the part of the list already done and its results. -/
theorem configureEach {f : α → Configure F β} {I : List α → List β → ConstraintSystem F → Prop} {xs : List α}
    (hf : ∀ pre x ys cs', cs.Extends cs' → I pre ys cs' →
      Configures (f x) cs' fun y => I (pre ++ [x]) (ys ++ [y]))
    (h : I [] [] cs) : Configures (Plonkish.configureEach f xs) cs (I xs) := by
  suffices hgen : ∀ rest pre done cs', cs.Extends cs' → I pre done cs' →
      Configures (Plonkish.configureEach f rest) cs' fun ys => I (pre ++ rest) (done ++ ys) from
    hgen xs [] [] cs (.refl _) h
  intro rest
  induction rest with
  | nil =>
      intro pre done cs' _ hI
      exact pure (by rwa [List.append_nil, List.append_nil])
  | cons x rest ih =>
      intro pre done cs' hle hI
      refine (hf pre x done cs' hle hI).bind fun y cs₁ h₁ hy => ?_
      refine (ih (pre ++ [x]) (done ++ [y]) cs₁ (hle.trans h₁) hy).bind fun ys cs₂ _ hys => pure ?_
      rwa [List.append_assoc, List.append_assoc] at hys

/-- A selector and the gate it drives. -/
theorem gate (name : String) (constraints : List (Expression F)) {k : ℕ → Configure F β}
    (hk : ∀ cs', cs.Extends cs' → ⟨name, cs.numSelectors, constraints⟩ ∈ cs'.gates →
      Configures (k cs.numSelectors) cs' R) :
    Configures (do let s ← selector; createGate name s constraints; k s) cs R := by
  intro b cs'' h
  let cs' : ConstraintSystem F := { cs with
    numSelectors := cs.numSelectors + 1
    gates := cs.gates ++ [⟨name, cs.numSelectors, constraints⟩] }
  have hle : cs.Extends cs' := by constructor <;> simp [cs']
  obtain ⟨hle', hwf', hr⟩ := hk cs' hle (by simp [cs']) b cs'' h
  refine ⟨hle.trans hle', fun hwf => hwf' (hwf.add_fresh rfl ?_), hr⟩
  simp only [ConstraintSystem.selectors, cs', List.map_append, List.map_cons, List.map_nil,
    List.append_assoc, List.cons_append, List.nil_append]
  exact List.perm_middle

/-- A selector, some table columns and the lookup it drives; `hp` says how the program reaches
its continuation. -/
theorem of_lookup {p q : Configure F β} {l : Lookup F} {n : ℕ} (hl : l.selector = cs.numSelectors)
    (hn : cs.numTables ≤ n) (hp : p cs = q { cs with
      numSelectors := cs.numSelectors + 1
      numTables := n
      lookups := cs.lookups ++ [l] })
    (hq : ∀ cs', cs.Extends cs' → cs'.numTables = n → l ∈ cs'.lookups → Configures q cs' R) :
    Configures p cs R := by
  intro b cs'' h
  rw [hp] at h
  have hle : cs.Extends { cs with
      numSelectors := cs.numSelectors + 1
      numTables := n
      lookups := cs.lookups ++ [l] } := by
    constructor <;> simp [hn]
  obtain ⟨hle', hwf', hr⟩ := hq _ hle rfl (by simp) b cs'' h
  refine ⟨hle.trans hle', fun hwf => hwf' (hwf.add_fresh rfl ?_), hr⟩
  simp only [ConstraintSystem.selectors, List.map_append, List.map_cons, List.map_nil,
    ← List.append_assoc, ← hl]
  exact List.perm_append_singleton _ _

theorem lookup (name : String) (inputs : List (Expression F × F)) {k : ℕ → ℕ → Configure F β}
    (hk : ∀ cs', cs.Extends cs' → ⟨name, cs.numSelectors, inputs, [cs.numTables]⟩ ∈ cs'.lookups →
      Configures (k cs.numSelectors cs.numTables) cs' R) :
    Configures (do
      let s ← selector
      let t ← lookupTableColumn
      Plonkish.lookup name s inputs [t]
      k s t) cs R :=
  of_lookup (q := k cs.numSelectors cs.numTables) rfl (Nat.le_succ _) rfl fun cs' hle _ => hk cs' hle

theorem lookupPair (name : String) (inputs : List (Expression F × F)) {k : ℕ → ℕ → ℕ → Configure F β}
    (hk : ∀ cs', cs.Extends cs' → cs'.numTables = cs.numTables + 2 →
      ⟨name, cs.numSelectors, inputs, [cs.numTables, cs.numTables + 1]⟩ ∈ cs'.lookups →
      Configures (k cs.numSelectors cs.numTables (cs.numTables + 1)) cs' R) :
    Configures (do
      let s ← selector
      let t ← lookupTableColumn
      let t' ← lookupTableColumn
      Plonkish.lookup name s inputs [t, t']
      k s t t') cs R :=
  of_lookup (q := k cs.numSelectors cs.numTables (cs.numTables + 1)) rfl (Nat.le_add_right _ 2) rfl hk

end Configures

/-- A configuration program started with the lookups `L` ends with the lookups `K a`, up to what
their idle rows need. -/
def Adds (L : List (List ℕ × List F)) (p : Configure F α) (K : α → List (List ℕ × List F)) : Prop :=
  ∀ cs a cs', p cs = .ok (a, cs') → cs.lookups.map Lookup.idle = L → cs'.lookups.map Lookup.idle = K a

namespace Adds

variable {L : List (List ℕ × List F)} {p : Configure F α} {f : α → Configure F β}
  {K : α → List (List ℕ × List F)} {M : β → List (List ℕ × List F)}

theorem bind (hp : Adds L p K) (hf : ∀ a, Adds (K a) (f a) M) : Adds L (p >>= f) M := by
  intro cs b cs'' h hL
  obtain ⟨a, cs', ha, hb⟩ := Configures.bind_ok h
  exact hf a cs' b cs'' hb (hp cs a cs' ha hL)

theorem pure {a : α} (h : L = K a) : Adds L (Pure.pure a) K := by
  intro cs b cs' hrun hL
  cases hrun
  exact hL.trans h

theorem assertThat {c : Prop} [Decidable c] {message : String} : Adds (F := F) L (assertThat c message) fun _ => L := by
  intro cs a cs' h hL
  by_cases hc : c
  · rw [Plonkish.assertThat, if_pos hc] at h
    cases h
    exact hL
  · rw [Plonkish.assertThat, if_neg hc] at h
    cases h

theorem require {x : Option α} {message : String} : Adds (F := F) L (require message x) fun _ => L := by
  intro cs a cs' h hL
  cases x with
  | none => cases h
  | some b =>
      cases h
      exact hL

theorem adviceColumn : Adds (F := F) L adviceColumn fun _ => L := by
  rintro cs a cs' h rfl
  cases h
  rfl

/-- New advice columns leave the lookups alone. -/
theorem of_columns {p : Configure F β} {q : ℕ → Configure F β} (n : ℕ)
    (hp : ∀ cs, p cs = q cs.numAdvice { cs with numAdvice := cs.numAdvice + n }) (hq : ∀ i, Adds L (q i) M) :
    Adds L p M := by
  intro cs b cs' h hL
  rw [hp] at h
  exact hq cs.numAdvice _ b cs' h hL

theorem configureEach {f : α → Configure F β} {N : β → List (List ℕ × List F)} {xs : List α}
    (hf : ∀ x L, Adds L (f x) fun y => L ++ N y) :
    Adds L (Plonkish.configureEach f xs) fun ys => L ++ ys.flatMap N := by
  induction xs generalizing L with
  | nil => exact pure (by simp)
  | cons x xs ih =>
      exact (hf x L).bind fun y => ih.bind fun ys => pure (by simp)

end Adds

end Zkie.Plonkish
