import Zkie.RangeCheck

namespace Zkie.RangeGadgets

open ScalarField FixedPoint Plonkish Synthesis Satisfaction RangeCheck

variable {ε : Type}

section Region

/-- The two assignments differ in the digits of one region at most. -/
structure Completes (digits : Column) (n region : ℕ) (A A' : Assignment Fr) : Prop where
  others : ∀ c : Cell, (∀ i < n, c ≠ ⟨region, digits, (i : ℕ)⟩) → A'.cell c = A.cell c
  instances : A'.instances = A.instances

/-- The selectors of a positional range check demand digits below `base`, and that they recompose
to the value. -/
structure Decomposes (cs : ConstraintSystem Fr) (T : List ℕ → List Fr → Prop) (sDigit sSum : ℕ) (digits value : Column)
    (base n : ℕ) : Prop where
  digit : ∀ (A : Assignment Fr) (r : ℕ) (i : ℤ),
    Holds cs T A (.enable sDigit r i) ↔ ∃ d < base, A.cell ⟨r, digits, i⟩ = (d : ℕ)
  sum : ∀ (A : Assignment Fr) (r : ℕ), Holds cs T A (.enable sSum r (n - 1 : ℕ)) ↔
    (recompose digits (base : Fr) n - .query value 0).eval (A.row r (n - 1 : ℕ)) = 0
  distinct : digits ≠ value
  digits_pos : 0 < n
  base_pos : 0 < base

variable {cs : ConstraintSystem Fr} {T : List ℕ → List Fr → Prop} {sDigit sSum : ℕ} {digits value : Column} {base n : ℕ}

/-- The assignment with the digits of `v` in one region. -/
def withDigits (digits : Column) (base n region v : ℕ) (A : Assignment Fr) : Assignment Fr :=
  { A with
    cell := fun c =>
      if c.region = region ∧ c.column = digits ∧ 0 ≤ c.offset ∧ c.offset < n then ((v / base ^ c.offset.toNat % base : ℕ) : Fr)
      else A.cell c }

theorem withDigits_digit {region v i : ℕ} {A : Assignment Fr} (hi : i < n) :
    (withDigits digits base n region v A).cell ⟨region, digits, i⟩ = ((v / base ^ i % base : ℕ) : Fr) := by
  have hcell : 0 ≤ (i : ℤ) ∧ (i : ℤ) < n := by omega
  exact if_pos ⟨rfl, rfl, hcell⟩

theorem withDigits_completes (digits : Column) (base n region v : ℕ) (A : Assignment Fr) :
    Completes digits n region A (withDigits digits base n region v A) := by
  refine ⟨fun c hc => if_neg ?_, rfl⟩
  obtain ⟨r, column, offset⟩ := c
  rintro ⟨rfl, rfl, hlow, hhigh⟩
  lift offset to ℕ using hlow
  exact hc offset (Int.ofNat_lt.mp hhigh) rfl

/-- Whatever stands in the other cells, the region can be satisfied exactly for the numbers of `n` digits. -/
theorem Decomposes.completes_iff (h : Decomposes cs T sDigit sSum digits value base n) (name : String)
    (digit : ℕ → Option Fr) (total : Option Fr) (region : ℕ) (A : Assignment Fr) :
    (∃ A', Completes digits n region A A' ∧
        ∀ e ∈ digitEvents name sDigit sSum digits value n digit total region, Holds cs T A' e) ↔
      ∃ v < base ^ n, A.cell ⟨region, value, (n - 1 : ℕ)⟩ = (v : ℕ) := by
  have hvalue : ∀ A', Completes digits n region A A' →
      A'.cell ⟨region, value, (n - 1 : ℕ)⟩ = A.cell ⟨region, value, (n - 1 : ℕ)⟩ := fun A' hA' =>
    hA'.others _ fun i _ heq => h.distinct (congrArg Cell.column heq).symm
  constructor
  · rintro ⟨A', hA', hevents⟩
    rw [← hvalue A' hA']
    exact digitEvents_sound name sDigit sSum digits value n digit total base h.digits_pos
      (fun i => (h.digit A' region i).mp) (h.sum A' region).mp hevents
  · rintro ⟨v, hv, hcell⟩
    have hA' := withDigits_completes digits base n region v A
    refine ⟨_, hA', ?_⟩
    apply digitEvents_complete name sDigit sSum digits value n digit total base v h.digits_pos hv
    · exact fun i hi => withDigits_digit hi
    · rw [hvalue _ hA', hcell]
    · exact fun i hi => (h.digit _ region i).mpr ⟨_, Nat.mod_lt _ h.base_pos, hi⟩
    · exact (h.sum _ region).mpr

/-- A digit that cannot be shifted out stops the assignment. -/
theorem assignDigits_fails {name : String} {fits : ℕ → Prop} [DecidablePred fits] {digit : ℕ → Option Fr} {total : Option Fr}
    {i : ℕ} (hi : i < n) (h : ¬fits i) :
    Fails (assignDigits (ε := ε) name sDigit sSum digits value n fits digit total) :=
  .assignRegion fun _ => .bind_left (.forEach (List.mem_range.mpr hi) (.bind_right fun _ => .bind_left (.check h)))

end Region

/-- The two chips that bound a value. -/
inductive Gadget where
  | bits (config : RangeCheckConfig)
  | limbs (config : LookupRangeCheckConfig)

namespace Gadget

section Model

def nBits : Gadget → ℕ
  | bits config => config.nBits
  | limbs config => config.nBits

def digits : Gadget → Column
  | bits config => config.bits
  | limbs config => config.limbs

/-- The number of digits. -/
def count : Gadget → ℕ
  | bits config => config.nBits
  | limbs config => config.nBits / limbBits

def assign : Gadget → Option Fr → Option ℤ → Synth Fr ε (AssignedCell Fr)
  | bits config => config.assign
  | limbs config => config.assign

/-- The table of the chip holds the bytes and nothing else. -/
def TableLoaded (config : LookupRangeCheckConfig) (T : List ℕ → List Fr → Prop) : Prop :=
  ∀ row, T [config.table] row ↔ row ∈ LookupRangeCheckConfig.byteTable

/-- The chip was configured at some time before the system was complete, and its table was loaded. -/
def ConfiguredIn (cs : ConstraintSystem Fr) (T : List ℕ → List Fr → Prop) : Gadget → Prop
  | bits config => config.bits ≠ config.value ∧ 0 < config.nBits ∧ ∃ cs₀ cs₁,
      RangeCheckConfig.configure config.value config.bits config.nBits cs₀ = .ok (config, cs₁) ∧ cs₁.Extends cs
  | limbs config => config.limbs ≠ config.value ∧ TableLoaded config T ∧ ∃ cs₀ cs₁,
      LookupRangeCheckConfig.configure config.value config.limbs config.nBits cs₀ = .ok (config, cs₁) ∧ cs₁.Extends cs

/-- A region of the chip can be satisfied, whatever stands in the cells that are not its digits, exactly
if the value cell holds the image of a number below `2 ^ nBits`. -/
def Enforces (g : Gadget) (cs : ConstraintSystem Fr) (T : List ℕ → List Fr → Prop) : Prop :=
  ∀ region, ∃ c es, g.assign (ε := Empty) none none region = .ok (c, es, region + 1) ∧
    ∀ A, (∃ A', Completes g.digits g.count region A A' ∧ ∀ e ∈ es, Holds cs T A' e) ↔
      ∃ v < 2 ^ g.nBits, A.cell c.cell = (v : ℕ)

/-- The chip witnesses every raw value of its range, and what it witnesses satisfies the region. -/
def Assigns (g : Gadget) (cs : ConstraintSystem Fr) (T : List ℕ → List Fr → Prop) : Prop :=
  ∀ raw : ℤ, 0 ≤ raw → raw < 2 ^ g.nBits → raw < 2 ^ 127 → ∀ region, ∃ c es,
    g.assign (ε := Empty) (some (i128ToFr raw)) (some raw) region = .ok (c, es, region + 1) ∧
      (∃ A, ∀ e ∈ es, Witnessed A e) ∧
      ∀ A, (∀ e ∈ es, Witnessed A e) → (∀ e ∈ es, Holds cs T A e) ∧ A.cell c.cell = (raw : Fr)

end Model

variable {g : Gadget} {cs : ConstraintSystem Fr} {T : List ℕ → List Fr → Prop}

theorem loadTable_loaded {config : LookupRangeCheckConfig} {n n' : ℕ} {es : List (Event Fr)}
    (h : config.loadTable (ε := ε) n = .ok ((), es, n')) : TableLoaded config (Loaded es) := by
  cases h
  intro row
  simp [Loaded]

theorem wired_decomposes {config : RangeCheckConfig} (hwf : cs.WellFormed) (h : config.Wired cs) :
    Decomposes cs T config.sBit config.sSum config.bits config.value 2 config.nBits where
  digit _ r i := RangeCheckConfig.holds_bit hwf h r i
  sum _ r := RangeCheckConfig.holds_sum hwf h r _
  distinct := h.distinct
  digits_pos := h.pos
  base_pos := by decide

theorem wired_decomposes_limbs {config : LookupRangeCheckConfig} (hwf : cs.WellFormed) (h : config.Wired cs)
    (hT : TableLoaded config T) :
    Decomposes cs T config.sLimb config.sSum config.limbs config.value limbValues (config.nBits / limbBits) where
  digit _ r i := by rw [LookupRangeCheckConfig.holds_limb hwf h, hT, LookupRangeCheckConfig.mem_byteTable]
  sum _ r := LookupRangeCheckConfig.holds_sum hwf h r _
  distinct := h.distinct
  digits_pos := h.limbs_pos
  base_pos := by decide

theorem bits_wired {config : RangeCheckConfig} (h : (bits config).ConfiguredIn cs T) : config.Wired cs := by
  obtain ⟨hne, hpos, cs₀, cs₁, hconfigure, hle⟩ := h
  obtain ⟨-, -, hwired, -⟩ := RangeCheckConfig.configure_wired hne hpos config cs₁ hconfigure
  exact hwired.mono hle

theorem limbs_wired {config : LookupRangeCheckConfig} (h : (limbs config).ConfiguredIn cs T) : config.Wired cs := by
  obtain ⟨hne, -, cs₀, cs₁, hconfigure, hle⟩ := h
  obtain ⟨-, -, hwired, -⟩ := LookupRangeCheckConfig.configure_wired hne config cs₁ hconfigure
  exact hwired.mono hle

theorem enforces (hwf : cs.WellFormed) (h : g.ConfiguredIn cs T) : g.Enforces cs T := by
  intro region
  cases g with
  | bits config =>
      have hwired := bits_wired h
      refine ⟨_, _, assignDigits_lays _ _ _ _ _ _ _ _ hwired.pos (fun i _ hraw => nomatch hraw) region, ?_⟩
      exact fun A => (wired_decomposes hwf hwired).completes_iff ..
  | limbs config =>
      have hwired := limbs_wired h
      refine ⟨_, _, assignDigits_lays _ _ _ _ _ _ _ _ hwired.limbs_pos (fun i _ hraw => nomatch hraw) region, ?_⟩
      intro A
      change _ ↔ ∃ v < 2 ^ config.nBits, _
      rw [← hwired.pow_limbs]
      exact (wired_decomposes_limbs hwf hwired h.2.1).completes_iff ..

/-- The cells of a region can be witnessed together. -/
theorem digitEvents_witnessed {name : String} {sDigit sSum : ℕ} {digits value : Column} {n region : ℕ} {digit : ℕ → Option Fr}
    {total : Option Fr} (hne : digits ≠ value) :
    ∃ A, ∀ e ∈ digitEvents name sDigit sSum digits value n digit total region, Witnessed A e := by
  refine ⟨⟨fun c => if c.column = digits then (digit c.offset.toNat).getD 0 else total.getD 0, fun _ _ => 0⟩, ?_⟩
  intro e he
  simp only [digitEvents, List.mem_cons, List.mem_append, List.mem_flatMap, List.mem_range, List.not_mem_nil, or_false] at he
  obtain rfl | ⟨i, -, rfl | rfl⟩ | rfl | rfl := he
  · trivial
  · trivial
  · cases hdigit : digit i with
    | none => trivial
    | some x => simp [Witnessed, hdigit]
  · trivial
  · cases htotal : total with
    | none => trivial
    | some x => simp [Witnessed, hne.symm]

theorem bits_assigns {config : RangeCheckConfig} (hwf : cs.WellFormed) (h : config.Installed cs) : (bits config).Assigns cs T := by
  intro raw h0 hraw _ region
  have hlays := assignDigits_lays (ε := Empty) "range check" config.sBit config.sSum config.bits config.value config.nBits
    (fun i => (some raw).map fun v => ((v / 2 ^ i % 2).toNat : Fr)) (some (i128ToFr raw)) h.pos (h.shifts (some raw)) region
  refine ⟨_, _, hlays, digitEvents_witnessed h.distinct, fun A hA => ?_⟩
  obtain ⟨hholds, hcell⟩ := RangeCheckConfig.assign_complete hwf h h0 hraw region _ _ _ hlays hA
  exact ⟨hholds, hcell.value⟩

theorem limbs_assigns {config : LookupRangeCheckConfig} (hwf : cs.WellFormed) (h : config.Installed cs)
    (hT : TableLoaded config T) : (limbs config).Assigns cs T := by
  intro raw h0 hraw _ region
  have hlays := assignDigits_lays (ε := Empty) "lookup range check" config.sLimb config.sSum config.limbs config.value
    (config.nBits / limbBits)
    (fun i => (some raw).map fun v => ((v / 2 ^ (limbBits * i) % 2 ^ 64 % limbValues).toNat : Fr)) (some (i128ToFr raw))
    h.limbs_pos (h.shifts (some raw)) region
  refine ⟨_, _, hlays, digitEvents_witnessed h.distinct, fun A hA => ?_⟩
  obtain ⟨hholds, hcell⟩ :=
    LookupRangeCheckConfig.assign_complete hwf h (fun row hrow => (hT row).mpr hrow) h0 hraw region _ _ _ hlays hA
  exact ⟨hholds, hcell.value⟩

/-- A known raw value of a wider range cannot be assigned. -/
theorem assign_fails (h : g.ConfiguredIn cs T) (hwide : i128Bits < g.nBits) (value : Option Fr) (raw : ℤ) :
    Fails (g.assign (ε := ε) value (some raw)) := by
  cases g with
  | bits config => exact assignDigits_fails hwide fun hfits => absurd (hfits rfl) (by decide)
  | limbs config =>
      have hmultiple := (limbs_wired h).multiple
      have hlimb : 16 < config.nBits / limbBits := by
        simp only [nBits, limbBits, i128Bits] at *
        omega
      exact assignDigits_fails hlimb fun hfits => absurd (hfits rfl) (by decide)

theorem assigns_iff (hwf : cs.WellFormed) (h : g.ConfiguredIn cs T) : g.Assigns cs T ↔ g.nBits ≤ i128Bits := by
  constructor
  · intro hassigns
    by_contra hwide
    obtain ⟨c, es, hrun, -⟩ := hassigns 0 le_rfl (by positivity) (by decide) 0
    exact assign_fails h (not_le.mp hwide) _ _ _ _ hrun
  · intro hnarrow
    cases g with
    | bits config => exact bits_assigns hwf ⟨bits_wired h, hnarrow⟩
    | limbs config => exact limbs_assigns hwf ⟨limbs_wired h, hnarrow⟩ h.2.1

def sampleLimbs : LookupRangeCheckConfig := ⟨.advice 0, .advice 1, 0, 1, 0, 64⟩

def sampleBits : RangeCheckConfig := ⟨.advice 0, .advice 1, 0, 1, 136⟩

theorem empty_wellFormed : (({} : ConstraintSystem Fr)).WellFormed := ⟨fun _ h => absurd h List.not_mem_nil, List.nodup_nil⟩

end Gadget

end Zkie.RangeGadgets
