import Zkie.Lookup

namespace Zkie.Lookup

open ScalarField FixedPoint Plonkish Synthesis Satisfaction

namespace LookupConfig

/-- The lookup that the chip installs. -/
def argument (config : LookupConfig) : Plonkish.Lookup Fr :=
  ⟨"input/output is a row of the function table", config.selector, inputs config.input config.output,
    [config.tableInput, config.tableOutput]⟩

/-- What a circuit does with the chip: the table is loaded once, and any number of inputs are looked up. -/
def lookUpAll (config : LookupConfig) (domain : Domain) (inputs : List I18) (known : Bool) :
    Synth Fr LookupError (List (I18 × AssignedCell Fr)) := do
  config.loadTable domain
  Synth.forEach (fun input => config.assign domain input known) inputs

/-- The chip is configured on some constraint system, and these are the actions of a circuit that uses it. -/
def LaidDown (domain : Domain) (config : LookupConfig) (cs : ConstraintSystem Fr) (es : List (Event Fr)) : Prop :=
  ∃ cs₀ input output inputs known n r n', cs₀.WellFormed ∧ configure input output cs₀ = .ok (config, cs) ∧
    config.lookUpAll domain inputs known n = .ok (r, es, n')

def EnabledAt (config : LookupConfig) (es : List (Event Fr)) (region : ℕ) (offset : ℤ) : Prop :=
  .enable config.selector region offset ∈ es

/-- A row holds a pair. -/
def RowIs (config : LookupConfig) (A : Assignment Fr) (region : ℕ) (offset : ℤ) (p : I18 × I18) : Prop :=
  A.cell ⟨region, config.input, offset⟩ = i64ToFr p.1 ∧ A.cell ⟨region, config.output, offset⟩ = i64ToFr p.2

/-- The circuit enforces the function that the host computes, on the enabled rows and nowhere else. -/
structure Exact (domain : Domain) : Prop where
  enabled : ∀ config cs es A, LaidDown domain config cs es → Satisfies cs es A → ∀ region offset,
    config.EnabledAt es region offset →
      ∃ p ∈ domain, config.RowIs A region offset p ∧ value? domain p.1 = some p.2
  disabled : ∀ config cs es A A', LaidDown domain config cs es → Satisfies cs es A →
    (∀ region offset column, config.EnabledAt es region offset →
      A'.cell ⟨region, column, offset⟩ = A.cell ⟨region, column, offset⟩) → Satisfies cs es A'

/-- The domain lists the reserved row itself, and it gives a point one value. -/
def ListsReserved (domain : Domain) : Prop := padRow ∈ domain ∧ ∀ p ∈ domain, value? domain p.1 = some p.2

variable {domain : Domain} {config : LookupConfig} {cs : ConstraintSystem Fr} {es : List (Event Fr)}
  {A : Assignment Fr} {known : Bool}

theorem configure_argument {cs₀ : ConstraintSystem Fr} (input output : Column) :
    Configures (configure input output) cs₀ fun config cs' =>
      config.argument ∈ cs'.lookups ∧ cs₀.numTables ≤ config.tableInput ∧ config.tableInput < cs'.numTables := by
  refine (Configures.enableEquality input).bind fun _ cs₁ h₁ _ => ?_
  refine (Configures.enableEquality output).bind fun _ cs₂ h₂ _ => ?_
  refine Configures.lookupPair _ _ fun cs₃ h₃ hn hlookup => ?_
  exact Configures.pure ⟨hlookup, (h₁.trans h₂).numTables, by simp only [hn]; omega⟩

/-- What an enabled row demands. -/
theorem holds_argument (hwf : cs.WellFormed) (h : config.argument ∈ cs.lookups) {T : List ℕ → List Fr → Prop}
    (hT : config.TableIs T domain) (region : ℕ) (offset : ℤ) :
    Holds cs T A (.enable config.selector region offset) ↔
      ∃ p ∈ domain ++ [padRow], config.RowIs A region offset p := by
  rw [holds_lookup hwf h, hT]
  simp only [tableRows, List.mem_map, inputs, List.map_cons, List.map_nil, Expression.eval_query,
    Assignment.row, add_zero, tableRow, List.cons.injEq, and_true, RowIs, @eq_comm Fr (A.cell _)]

/-- A looked up value is a value of the table. -/
theorem assign_row (hwf : cs.WellFormed) (h : config.argument ∈ cs.lookups) {T : List ℕ → List Fr → Prop}
    (hT : config.TableIs T domain) (host : Domain) (input : I18) :
    Sound cs T A (config.assign host input known) fun c => ∃ p ∈ domain ++ [padRow], A.cell c.2.cell = i64ToFr p.2 := by
  apply Triple.bind (Q := fun _ => True)
  · exact .ofExcept fun _ _ => trivial
  intro output _
  apply Triple.bind (Q := fun c => ∃ p ∈ domain ++ [padRow], A.cell c.2.cell = i64ToFr p.2)
  · apply Triple.of_lays (lookupRegion_lays _ _ _)
    intro r hr
    obtain ⟨p, hp, -, hout⟩ := (holds_argument hwf h hT r 0).mp (hr _ (by simp))
    exact ⟨fun _ _ => trivial, p, hp, hout⟩
  · intro _ hout
    exact .pure hout

/-- The actions of looking up: regions with enabled rows and witnesses. -/
def IsLookingUp (config : LookupConfig) : Event Fr → Prop
  | .region .. | .advice .. => True
  | .enable s _ _ => s = config.selector
  | _ => False

theorem assign_lookingUp (input : I18) :
    Triple (fun _ => True) config.IsLookingUp (config.assign domain input known) fun _ => True := by
  apply Triple.bind (Q := fun _ => True)
  · exact .ofExcept fun _ _ => trivial
  · intro output _
    apply Triple.bind (Q := fun _ => True)
    · apply Triple.of_lays (lookupRegion_lays _ _ _)
      intro r _
      simp [IsLookingUp]
    · intro _ _
      exact .pure trivial

theorem lookUpAll_events {inputs : List I18} {n n' : ℕ} {r : List (I18 × AssignedCell Fr)}
    (hrun : config.lookUpAll domain inputs known n = .ok (r, es, n')) : ∃ rest,
    es = .table [config.tableInput, config.tableOutput] (tableRows domain) :: rest ∧
      ∀ e ∈ rest, config.IsLookingUp e := by
  obtain ⟨_, es₁, n₁, rest, hload, heach, rfl⟩ := Synth.bind_eq_ok.mp hrun
  cases hload
  have hrest := Triple.forEach (Q := fun _ _ => True) (fun input _ => assign_lookingUp input)
    n r rest n' heach fun _ _ => trivial
  exact ⟨rest, rfl, hrest.1⟩

theorem LaidDown.tableIs (h : LaidDown domain config cs es) : config.TableIs (Loaded es) domain := by
  obtain ⟨cs₀, input, output, inputs, known, n, r, n', -, -, hrun⟩ := h
  obtain ⟨rest, rfl, hrest⟩ := lookUpAll_events hrun
  intro row
  constructor
  · rintro ⟨rows, hmem, hrow⟩
    rcases List.mem_cons.mp hmem with heq | hmem
    · cases heq
      exact hrow
    · exact (hrest _ hmem).elim
  · intro hrow
    exact ⟨_, .head _, hrow⟩

theorem LaidDown.holds_enable (h : LaidDown domain config cs es) (region : ℕ) (offset : ℤ) :
    Holds cs (Loaded es) A (.enable config.selector region offset) ↔
      ∃ p ∈ domain ++ [padRow], config.RowIs A region offset p := by
  obtain ⟨cs₀, input, output, _, _, _, _, _, hwf, hconfigure, -⟩ := id h
  obtain ⟨-, hwf', hargument, -⟩ := configure_argument input output config cs hconfigure
  exact holds_argument (hwf' hwf) hargument h.tableIs region offset

/-- The satisfying assignments have a row of the table in every enabled row, and anything elsewhere. -/
theorem LaidDown.satisfies_iff (h : LaidDown domain config cs es) : Satisfies cs es A ↔
    (∀ l ∈ cs.lookups, Loaded es l.tables (l.inputs.map Prod.snd)) ∧
      ∀ region offset, config.EnabledAt es region offset →
        ∃ p ∈ domain ++ [padRow], config.RowIs A region offset p := by
  constructor
  · intro hA
    refine ⟨hA.idle, fun region offset henabled => ?_⟩
    exact (h.holds_enable region offset).mp (hA.events _ henabled)
  · rintro ⟨hidle, hrows⟩
    refine ⟨fun e he => ?_, hidle⟩
    obtain ⟨_, _, _, _, _, _, _, _, -, -, hrun⟩ := id h
    obtain ⟨rest, hes, hrest⟩ := lookUpAll_events hrun
    rw [hes] at he
    rcases List.mem_cons.mp he with rfl | he
    · trivial
    · have hlookingUp := hrest e he
      cases e with
      | region | advice => trivial
      | enable s region offset =>
          obtain rfl : s = config.selector := hlookingUp
          exact (h.holds_enable region offset).mpr (hrows region offset (hes ▸ .tail _ he))
      | fixed | copy | constant | expose | table => exact hlookingUp.elim

section Forgery

def twoColumns : LookupConfig := ⟨.advice 0, .advice 1, 0, 0, 1⟩

/-- One row in two columns of their own. -/
theorem exists_laidDown {x v : I18} (hv : value? domain x = some v) : ∃ cs es,
    LaidDown domain twoColumns cs es ∧ twoColumns.EnabledAt es 0 0 ∧
      cs.lookups.map Plonkish.Lookup.idle = [twoColumns.idle] := by
  have hassign : ∃ r rest, twoColumns.assign domain x true 0 = .ok (r, rest, 1) ∧ .enable 0 0 0 ∈ rest := by
    rw [assign, hv]
    exact ⟨_, _, rfl, by simp [twoColumns]⟩
  obtain ⟨r, rest, hassign, henable⟩ := hassign
  have heach : Synth.forEach (fun input => twoColumns.assign domain input true) [x] 0 = .ok ([r], rest ++ [], 1) :=
    Synth.bind_eq_ok.mpr ⟨r, rest, 1, [], hassign, rfl, rfl⟩
  have hrun : twoColumns.lookUpAll domain [x] true 0 =
      .ok ([r], [.table [0, 1] (tableRows domain)] ++ (rest ++ []), 1) :=
    Synth.bind_eq_ok.mpr ⟨(), _, 0, _, rfl, heach, rfl⟩
  refine ⟨_, _, ⟨{}, .advice 0, .advice 1, [x], true, 0, [r], 1, ?_, rfl, hrun⟩, by simp [EnabledAt, twoColumns, henable],
    rfl⟩
  exact ⟨fun s hs => absurd hs List.not_mem_nil, List.nodup_nil⟩

/-- The prover puts one pair into every row. -/
def forged (p : I18 × I18) : Assignment Fr where
  cell cell := if cell.column = .advice 0 then i64ToFr p.1 else i64ToFr p.2
  instances _ _ := 0

/-- A prover may put any row of the table into an enabled row. -/
theorem forged_satisfies {p : I18 × I18} (hp : p ∈ domain ++ [padRow]) {x v : I18} (hv : value? domain x = some v) :
    ∃ cs es, LaidDown domain twoColumns cs es ∧ twoColumns.EnabledAt es 0 0 ∧ Satisfies cs es (forged p) := by
  obtain ⟨cs, es, hlaid, henabled, hidle⟩ := exists_laidDown hv
  refine ⟨cs, es, hlaid, henabled, hlaid.satisfies_iff.mpr ⟨fun l hl => ?_, fun region offset _ => ?_⟩⟩
  · have hmem : l.idle ∈ [twoColumns.idle] := hidle ▸ List.mem_map_of_mem hl
    have hloaded : Loaded es twoColumns.idle.1 twoColumns.idle.2 :=
      (hlaid.tableIs _).mpr (List.mem_map_of_mem (by simp))
    rw [← List.mem_singleton.mp hmem] at hloaded
    exact hloaded
  · exact ⟨p, hp, rfl, rfl⟩

end Forgery

theorem value?_isSome {p : I18 × I18} (hp : p ∈ domain) : ∃ v, value? domain p.1 = some v := by
  have hfound : (domain.find? fun q => q.1.raw = p.1.raw).isSome :=
    List.find?_isSome.mpr ⟨p, hp, decide_eq_true rfl⟩
  obtain ⟨q, hq⟩ := Option.isSome_iff_exists.mp hfound
  exact ⟨q.2, by rw [value?, hq, Option.map_some]⟩

/-- Nothing is looked up in an empty domain. -/
theorem LaidDown.not_enabled (h : LaidDown [] config cs es) (region : ℕ) (offset : ℤ) :
    ¬config.EnabledAt es region offset := by
  obtain ⟨_, _, _, inputs, known, n, r, n', -, -, hrun⟩ := h
  obtain ⟨_, es₁, n₁, rest, hload, heach, rfl⟩ := Synth.bind_eq_ok.mp hrun
  cases hload
  intro henabled
  cases inputs with
  | nil =>
      cases heach
      simp [EnabledAt] at henabled
  | cons input inputs =>
      obtain ⟨_, _, _, _, hassign, -, -⟩ := Synth.bind_eq_ok.mp heach
      obtain ⟨_, _, _, _, hvalue, -, -⟩ := Synth.bind_eq_ok.mp hassign
      cases hvalue

/-- The chip enforces the host's function exactly if nothing can be looked up at all, or the caller's pairs include the
reserved row and give every point one value. -/
theorem exact_iff_listsReserved (domain : Domain) : Exact domain ↔ domain = [] ∨ ListsReserved domain := by
  constructor
  · intro hexact
    by_cases hdomain : domain = []
    · exact .inl hdomain
    obtain ⟨q, hq⟩ := List.exists_mem_of_ne_nil domain hdomain
    obtain ⟨v, hv⟩ := value?_isSome hq
    have hall : ∀ p ∈ domain ++ [padRow], p ∈ domain ∧ value? domain p.1 = some p.2 := by
      intro p hp
      obtain ⟨cs, es, hlaid, henabled, hA⟩ := forged_satisfies hp hv
      obtain ⟨p', hp', ⟨hin, hout⟩, hvalue⟩ := hexact.enabled _ cs es _ hlaid hA 0 0 henabled
      have hin' : i64ToFr p.1 = i64ToFr p'.1 := hin
      have hout' : i64ToFr p.2 = i64ToFr p'.2 := hout
      rw [i64ToFr_cast, i64ToFr_cast] at hin' hout'
      obtain rfl : p = p' := Prod.ext (Rescale.raw_inj hin') (Rescale.raw_inj hout')
      exact ⟨hp', hvalue⟩
    refine .inr ⟨(hall padRow (by simp)).1, fun p hp => ?_⟩
    exact (hall p (List.mem_append_left _ hp)).2
  · intro hcondition
    constructor
    · intro config cs es A hlaid hA region offset henabled
      rcases hcondition with rfl | ⟨hpad, hvalue⟩
      · exact absurd henabled (hlaid.not_enabled region offset)
      · obtain ⟨p, hp, hrow⟩ := (hlaid.satisfies_iff.mp hA).2 region offset henabled
        have hmem : p ∈ domain := by
          rcases List.mem_append.mp hp with hp | hp
          · exact hp
          · exact List.mem_singleton.mp hp ▸ hpad
        exact ⟨p, hmem, hrow, hvalue p hmem⟩
    · intro config cs es A A' hlaid hA hsame
      obtain ⟨hidle, hrows⟩ := hlaid.satisfies_iff.mp hA
      refine hlaid.satisfies_iff.mpr ⟨hidle, fun region offset henabled => ?_⟩
      obtain ⟨p, hp, hin, hout⟩ := hrows region offset henabled
      exact ⟨p, hp, (hsame region offset _ henabled).trans hin, (hsame region offset _ henabled).trans hout⟩

def fixedOne : I18 := ⟨scale18, by decide, by decide⟩

/-- The reserved row passes for a row of a function that is one at zero. -/
theorem reserved_row_accepted : ∃ cs es, LaidDown [(default, fixedOne)] twoColumns cs es ∧
    Satisfies cs es (forged padRow) ∧ twoColumns.EnabledAt es 0 0 ∧
    ¬∃ p ∈ [(default, fixedOne)], twoColumns.RowIs (forged padRow) 0 0 p := by
  have hvalue : value? [(default, fixedOne)] default = some fixedOne := rfl
  obtain ⟨cs, es, hlaid, henabled, hA⟩ := forged_satisfies (p := padRow) (by simp) hvalue
  refine ⟨cs, es, hlaid, hA, henabled, ?_⟩
  rintro ⟨p, hp, hin, -⟩
  have hin' : i64ToFr padRow.1 = i64ToFr p.1 := hin
  rw [i64ToFr_cast, i64ToFr_cast] at hin'
  have hraw := congrArg I18.raw (Rescale.raw_inj hin')
  rw [List.mem_singleton.mp hp] at hraw
  exact absurd hraw (by decide)

end LookupConfig

end Zkie.Lookup
