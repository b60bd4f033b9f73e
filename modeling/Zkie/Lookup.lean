import Zkie.Rescale

namespace Zkie.Lookup

open ScalarField FixedPoint Plonkish Synthesis Satisfaction HostRun Skeleton Placement

inductive LookupError where
  | inputNotInDomain (input : I18)
  deriving DecidableEq, Repr

/-- The reserved row that the lookup collapses to on disabled rows: `i64::MIN` maps to zero. -/
def padRow : I18 × I18 :=
  (⟨-signedShift, Int.le_refl _, neg_signedShift_lt⟩, ⟨0, neg_signedShift_nonpos, signedShift_pos⟩)

structure LookupConfig where
  input : Column
  output : Column
  selector : ℕ
  tableInput : ℕ
  tableOutput : ℕ
  deriving DecidableEq, Repr

/-- A quantized function: the domain points with their values, in table order. -/
abbrev Domain : Type := List (I18 × I18)

def tableRow (p : I18 × I18) : List Fr := [i64ToFr p.1, i64ToFr p.2]

def tableRows (domain : Domain) : List (List Fr) := (domain ++ [padRow]).map tableRow

/-- The first value that the table gives for an input. -/
def value? (domain : Domain) (input : I18) : Option I18 :=
  (domain.find? fun p => p.1.raw = input.raw).map Prod.snd

namespace LookupConfig

def inputs (input output : Column) : List (Expression Fr × Fr) :=
  [(.query input 0, i64ToFr padRow.1), (.query output 0, i64ToFr padRow.2)]

def configure (input output : Column) : Configure Fr LookupConfig := do
  enableEquality input
  enableEquality output
  let selector ← Plonkish.selector
  let tableInput ← lookupTableColumn
  let tableOutput ← lookupTableColumn
  lookup "input/output is a row of the function table" selector (inputs input output)
    [tableInput, tableOutput]
  return { input, output, selector, tableInput, tableOutput }

def loadTable {ε : Type} (config : LookupConfig) (domain : Domain) : Synth Fr ε Unit :=
  Synth.assignTable [config.tableInput, config.tableOutput] (tableRows domain)

/-- A row that is checked against the table. -/
def lookupRegion {ε : Type} (config : LookupConfig) (name : String) (input output : I18) (known : Bool) :
    Synth Fr ε (AssignedCell Fr × AssignedCell Fr) :=
  Synth.assignRegion name fun region => do
    Synth.enable config.selector region 0
    let inputCell ← Synth.assignAdvice region config.input 0 (witness known (i64ToFr input))
    let outputCell ← Synth.assignAdvice region config.output 0 (witness known (i64ToFr output))
    return (inputCell, outputCell)

def assign (config : LookupConfig) (domain : Domain) (input : I18) (known : Bool) :
    Synth Fr LookupError (I18 × AssignedCell Fr) := do
  let output ← Synth.ofExcept ((value? domain input).elim (.error (.inputNotInDomain input)) .ok)
  let (_, outputCell) ← config.lookupRegion "lookup assign" input output known
  return (output, outputCell)

structure Installed (config : LookupConfig) (cs : ConstraintSystem Fr) : Prop where
  lookup : ⟨"input/output is a row of the function table", config.selector,
    inputs config.input config.output, [config.tableInput, config.tableOutput]⟩ ∈ cs.lookups
  equality : config.input ∈ cs.equality ∧ config.output ∈ cs.equality
  distinct : config.input ≠ config.output

/-- The chip's table holds the rows of `domain` and the reserved row, and nothing else. -/
def TableIs (config : LookupConfig) (T : List ℕ → List Fr → Prop) (domain : Domain) : Prop :=
  ∀ row, T [config.tableInput, config.tableOutput] row ↔ row ∈ tableRows domain

variable {ε : Type} {config : LookupConfig} {cs cs' : ConstraintSystem Fr} {T : List ℕ → List Fr → Prop}
  {A : Assignment Fr} {domain : Domain} {known : Bool}

theorem Installed.mono (h : config.Installed cs) (hle : cs.Extends cs') : config.Installed cs' where
  lookup := hle.lookups h.lookup
  equality := ⟨hle.equality h.equality.1, hle.equality h.equality.2⟩
  distinct := h.distinct

theorem configure_installed {input output : Column} (hne : input ≠ output) :
    Configures (configure input output) cs fun config cs' =>
      config.Installed cs' ∧ cs.numTables ≤ config.tableInput ∧ config.tableInput < cs'.numTables := by
  refine (Configures.enableEquality input).bind fun _ cs₁ h₁ hi => ?_
  refine (Configures.enableEquality output).bind fun _ cs₂ h₂ ho => ?_
  refine Configures.lookupPair _ _ fun cs₃ h₃ hn hlookup => ?_
  exact Configures.pure ⟨⟨hlookup, ⟨(h₂.trans h₃).equality hi, h₃.equality ho⟩, hne⟩,
    (h₁.trans h₂).numTables, by simp only [hn]; omega⟩

/-- The table of the lookup and the row that its disabled rows look up. -/
def idle (config : LookupConfig) : List ℕ × List Fr := ([config.tableInput, config.tableOutput], tableRow padRow)

theorem configure_adds (input output : Column) (L : List (List ℕ × List Fr)) :
    Adds L (configure input output) fun config => L ++ [config.idle] := by
  rintro cs config cs' h rfl
  cases h
  simp [Plonkish.Lookup.idle, inputs, idle, tableRow]

theorem lookupRegion_lays (name : String) (input output : I18) :
    Lays (config.lookupRegion (ε := ε) name input output known)
      (fun r => (⟨⟨r, config.input, 0⟩, witness known (i64ToFr input)⟩,
        ⟨⟨r, config.output, 0⟩, witness known (i64ToFr output)⟩))
      fun r => [.region name r, .enable config.selector r 0,
        .advice ⟨r, config.input, 0⟩ (witness known (i64ToFr input)),
        .advice ⟨r, config.output, 0⟩ (witness known (i64ToFr output))] :=
  Emits.lays _ fun _ _ => rfl

theorem holds_lookupRow (hwf : cs.WellFormed) (h : config.Installed cs) (hT : config.TableIs T domain) (r : ℕ) :
    Holds cs T A (.enable config.selector r 0) ↔ ∃ p ∈ domain ++ [padRow],
      A.cell ⟨r, config.input, 0⟩ = (p.1.raw : Fr) ∧ A.cell ⟨r, config.output, 0⟩ = (p.2.raw : Fr) := by
  rw [holds_lookup hwf h.lookup, hT]
  simp only [tableRows, List.mem_map, inputs, List.map_cons, List.map_nil, Expression.eval_query,
    Assignment.row, add_zero, tableRow, List.cons.injEq, and_true, i64ToFr_cast, @eq_comm Fr (A.cell _)]

/-- Any row with the selector enabled is a table row; it need not be the row of the host value. -/
theorem lookupRegion_sound (hwf : cs.WellFormed) (h : config.Installed cs) (hT : config.TableIs T domain)
    (name : String) (input output : I18) :
    Sound cs T A (config.lookupRegion (ε := ε) name input output known) fun c =>
      ∃ p ∈ domain ++ [padRow], A.cell c.1.cell = (p.1.raw : Fr) ∧ A.cell c.2.cell = (p.2.raw : Fr) :=
  .of_lays (lookupRegion_lays name input output) fun r hr =>
    ⟨fun _ _ => trivial, (holds_lookupRow hwf h hT r).mp (hr _ (by simp))⟩

theorem value?_mem {input output : I18} (h : value? domain input = some output) :
    (input, output) ∈ domain := by
  simp only [value?, Option.map_eq_some_iff] at h
  obtain ⟨p, hp, rfl⟩ := h
  have hraw := List.find?_some hp
  simp only [decide_eq_true_eq] at hraw
  rw [← I18.ext hraw]
  exact List.mem_of_find?_eq_some hp

theorem lookupRegion_complete (hwf : cs.WellFormed) (h : config.Installed cs) (hT : config.TableIs T domain)
    (name : String) {input output : I18} (hmem : (input, output) ∈ domain ++ [padRow]) :
    Complete cs T A (config.lookupRegion (ε := ε) name input output true) fun c =>
      A.Has c.1 config.input (input.raw : Fr) ∧ A.Has c.2 config.output (output.raw : Fr) := by
  refine .of_lays (lookupRegion_lays name input output) fun r hr => ?_
  simp only [List.forall_mem_cons, List.not_mem_nil, false_implies, implies_true, and_true,
    Witnessed, witness, if_true, i64ToFr_cast, true_and] at hr
  obtain ⟨hi, ho⟩ := hr
  refine ⟨?_, ⟨rfl, hi⟩, rfl, ho⟩
  simp only [List.forall_mem_cons, List.not_mem_nil, false_implies, implies_true, and_true]
  exact ⟨trivial, (holds_lookupRow hwf h hT r).mpr ⟨_, hmem, hi, ho⟩, trivial, trivial⟩

theorem lookupRegion_placed (h : config.Installed cs) (name : String) (input output : I18) :
    Placed (config.lookupRegion (ε := ε) name input output known) :=
  .of_row [config.input, config.output] (lookupRegion_lays name input output) (fun _ => rfl)
    (by simpa using h.distinct) fun _ => by simp [IsInner]

theorem lookupRegion_agree (name : String) (input input' output output' : I18) (known' : Bool) :
    Agree (config.lookupRegion (ε := ε) name input output known)
      (config.lookupRegion (ε := ε) name input' output' known') fun c c' =>
        c.1.cell = c'.1.cell ∧ c.2.cell = c'.2.cell :=
  .of_lays (lookupRegion_lays name input output) (lookupRegion_lays name input' output') (fun _ => rfl)
    fun _ => ⟨rfl, rfl⟩

theorem assign_sound (input : I18) : Sound cs T A (config.assign domain input known) fun _ => True := by
  refine Triple.bind (.ofExcept (Q := fun _ => True) fun _ _ => trivial) fun output _ => ?_
  exact Triple.bind (Q := fun _ => True) (.of_lays (lookupRegion_lays _ _ _) fun _ _ =>
    ⟨fun _ _ => trivial, trivial⟩) fun _ _ => .pure trivial

theorem assign_complete (hwf : cs.WellFormed) (h : config.Installed cs) (hT : config.TableIs T domain)
    {host : Domain} (hhost : ∀ p ∈ host, p ∈ domain ++ [padRow]) (input : I18) :
    Complete cs T A (config.assign host input true) fun c =>
      value? host input = some c.1 ∧ A.Has c.2 config.output (c.1.raw : Fr) := by
  refine Triple.bind (.ofExcept (Q := fun output => value? host input = some output) fun output ho => ?_)
    fun output ho => ?_
  · cases hv : value? host input with
    | none => rw [hv] at ho; cases ho
    | some v => rw [hv] at ho; cases ho; rfl
  · exact (lookupRegion_complete hwf h hT _ (hhost _ (value?_mem ho))).bind fun _ hcells => .pure ⟨ho, hcells.2⟩

theorem assign_placed (h : config.Installed cs) (input : I18) : Placed (config.assign domain input known) :=
  Placed.ofExcept.bind fun _ => (lookupRegion_placed h _ _ _).bind fun _ => .pure

theorem assign_decides (input : I18) :
    Decides (config.assign domain input known) (True ∧ (value? domain input).isSome)
      fun c => value? domain input = some c.1 := by
  cases hv : value? domain input with
  | none =>
      refine (Decides.of_fails (Fails.bind_left fun n r hrun => ?_)).iff (by simp) fun _ _ => id
      rw [hv] at hrun
      cases hrun
  | some v =>
      refine Decides.iff (c := True ∧ True ∧ True) (P := fun c => c.1 = v) ?_ (by simp) fun _ c hc => by rw [hc]
      refine Decides.bind (P := fun output => output = v) ?_ fun output ho =>
        (Decides.region (lookupRegion_lays _ _ _)).bind fun _ _ => .pure ho
      rw [hv]
      exact .pure rfl

theorem assign_agree (domain' : Domain) (input input' : I18) (known' : Bool) :
    Agree (config.assign domain input known) (config.assign domain' input' known') fun c c' => c.2.cell = c'.2.cell :=
  (Agree.ofExcept (R := fun _ _ => True) fun _ _ _ _ => trivial).bind fun _ _ _ =>
    (lookupRegion_agree _ _ _ _ _ _).bind fun _ _ hcells => .pure hcells.2

end LookupConfig

end Zkie.Lookup
