import Zkie.Plonkish

namespace Zkie.Synthesis

open Plonkish

variable {F ε ε' α β γ : Type}

structure Cell where
  region : ℕ
  column : Column
  offset : ℤ
  deriving DecidableEq, Repr

/-- One action of a layouter. An advice value is absent when the witness is unknown. -/
inductive Event (F : Type) where
  | region (name : String) (index : ℕ)
  | enable (selector region : ℕ) (offset : ℤ)
  | advice (cell : Cell) (value : Option F)
  | fixed (cell : Cell) (value : F)
  | copy (left right : Cell)
  | constant (cell : Cell) (value : F)
  | expose (cell : Cell) (column : Column) (row : ℕ)
  | table (columns : List ℕ) (rows : List (List F))

structure AssignedCell (F : Type) where
  cell : Cell
  value : Option F

/-- A witness value, unknown during key generation. -/
def witness (known : Bool) (v : α) : Option α := if known then some v else none

inductive Failure (ε : Type) where
  | panic (message : String)
  | error (e : ε)
  deriving DecidableEq, Repr

/-- A synthesis program: from the number of regions laid down so far, it fails or returns a
result, the layouter actions it performed and the new number of regions. -/
def Synth (F ε α : Type) : Type := ℕ → Except (Failure ε) (α × List (Event F) × ℕ)

namespace Synth

protected def bind (p : Synth F ε α) (f : α → Synth F ε β) : Synth F ε β := fun n =>
  match p n with
  | .error e => .error e
  | .ok (a, es, n') =>
      match f a n' with
      | .error e => .error e
      | .ok (b, es', n'') => .ok (b, es ++ es', n'')

instance : Monad (Synth F ε) where
  pure a := fun n => .ok (a, [], n)
  bind := Synth.bind

def fail (e : ε) : Synth F ε α := fun _ => .error (.error e)

def panic (message : String) : Synth F ε α := fun _ => .error (.panic message)

/-- An assertion, or an arithmetic overflow check. -/
def check (c : Prop) [Decidable c] (message : String) : Synth F ε Unit :=
  if c then pure () else panic message

/-- An early return with an error. -/
def ensure (c : Prop) [Decidable c] (e : ε) : Synth F ε Unit := if c then pure () else fail e

def emit (e : Event F) : Synth F ε Unit := fun n => .ok ((), [e], n)

def mapError (f : ε → ε') (p : Synth F ε α) : Synth F ε' α := fun n =>
  match p n with
  | .error (.panic message) => .error (.panic message)
  | .error (.error e) => .error (.error (f e))
  | .ok r => .ok r

def ofExcept : Except ε α → Synth F ε α
  | .ok a => pure a
  | .error e => fail e

/-- `expect`: a missing value is a panic. -/
def unwrap (message : String) : Option α → Synth F ε α
  | some a => pure a
  | none => panic message

/-- A `for` loop that collects its results. -/
def forEach (f : α → Synth F ε β) : List α → Synth F ε (List β)
  | [] => pure []
  | x :: xs => do
      let y ← f x
      let ys ← forEach f xs
      return y :: ys

/-- A `for` loop that updates a state. -/
def foldEach (f : β → α → Synth F ε β) : β → List α → Synth F ε β
  | s, [] => pure s
  | s, x :: xs => do
      let s' ← f s x
      foldEach f s' xs

def assignRegion (name : String) (body : ℕ → Synth F ε α) : Synth F ε α := fun n =>
  (do emit (.region name n); body n : Synth F ε α) (n + 1)

def enable (selector region offset : ℕ) : Synth F ε Unit := emit (.enable selector region offset)

def assignAdvice (region : ℕ) (column : Column) (offset : ℕ) (value : Option F) :
    Synth F ε (AssignedCell F) := do
  emit (.advice ⟨region, column, offset⟩ value)
  return ⟨⟨region, column, offset⟩, value⟩

def assignFixed (region : ℕ) (column : Column) (offset : ℕ) (value : F) : Synth F ε Unit :=
  emit (.fixed ⟨region, column, offset⟩ value)

def constrainEqual (left right : AssignedCell F) : Synth F ε Unit := emit (.copy left.cell right.cell)

def constrainConstant (cell : AssignedCell F) (value : F) : Synth F ε Unit :=
  emit (.constant cell.cell value)

def constrainInstance (cell : AssignedCell F) (column : Column) (row : ℕ) : Synth F ε Unit :=
  emit (.expose cell.cell column row)

def assignTable (columns : List ℕ) (rows : List (List F)) : Synth F ε Unit := emit (.table columns rows)

/-- A region that only holds copy constraints. -/
def linkCells (name : String) (pairs : List (AssignedCell F × AssignedCell F)) : Synth F ε Unit :=
  assignRegion name fun _ => do
    let _ ← forEach (fun p => constrainEqual p.1 p.2) pairs
    return ()

variable {p : Synth F ε α} {f : α → Synth F ε β} {n n' n'' : ℕ}

theorem bind_eq_ok {b : β} {es : List (Event F)} :
    (p >>= f) n = .ok (b, es, n'') ↔ ∃ a es₁ n' es₂, p n = .ok (a, es₁, n') ∧
      f a n' = .ok (b, es₂, n'') ∧ es = es₁ ++ es₂ := by
  change Synth.bind p f n = _ ↔ _
  unfold Synth.bind
  constructor
  · intro h
    split at h
    · cases h
    · rename_i a es₁ n' hp
      split at h
      · cases h
      · rename_i b' es₂ n₂ hf
        cases h
        exact ⟨a, es₁, n', es₂, hp, hf, rfl⟩
  · rintro ⟨a, es₁, n', es₂, hp, hf, rfl⟩
    simp only [hp, hf]

theorem pure_eq_ok {a b : α} {es : List (Event F)} :
    (pure a : Synth F ε α) n = .ok (b, es, n') ↔ b = a ∧ es = [] ∧ n' = n := by
  constructor
  · intro h
    cases h
    exact ⟨rfl, rfl, rfl⟩
  · rintro ⟨rfl, rfl, rfl⟩
    rfl

theorem mapError_eq_ok {g : ε → ε'} {r : α × List (Event F) × ℕ} : p.mapError g n = .ok r ↔ p n = .ok r := by
  unfold mapError
  split <;> simp_all

end Synth

end Zkie.Synthesis
