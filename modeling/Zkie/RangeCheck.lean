import Zkie.FixedPoint
import Zkie.Positional
import Zkie.HostRun
import Zkie.Placement
import Zkie.Skeleton
import Mathlib.Algebra.BigOperators.Intervals
import Mathlib.Tactic.LinearCombination

namespace Zkie.RangeCheck

open ScalarField FixedPoint Plonkish Synthesis Satisfaction HostRun Skeleton Placement Finset

variable {ε : Type}

/-- The weighted sum of `n` digits in one column, digit `i` standing `n - 1 - i` rows above the
current row. The loop carries the sum and the next coefficient. -/
def recompose (column : Column) (base : Fr) (n : ℕ) : Expression Fr :=
  ((List.range n).foldl
    (fun (s : Expression Fr × Fr) (i : ℕ) =>
      (s.1 + .query column (-((n - 1 - i : ℕ) : ℤ)) * .constant s.2, s.2 * base))
    (.constant 0, 1)).1

/-- The region of a positional range check: one digit a row, and the value on the last row. A digit
is shifted out of the raw value, which panics where it does not fit. The last row is computed as
`n - 1`, which overflows when there is no digit. -/
def assignDigits (name : String) (sDigit sSum : ℕ) (digits value : Column) (n : ℕ) (fits : ℕ → Prop) [DecidablePred fits]
    (digit : ℕ → Option Fr) (total : Option Fr) : Synth Fr ε (AssignedCell Fr) :=
  Synth.assignRegion name fun region => do
    let _ ← Synth.forEach (fun i => do
      Synth.enable sDigit region i
      Synth.check (fits i) "attempt to shift right with overflow"
      Synth.assignAdvice region digits i (digit i)) (List.range n)
    Synth.check (n ≠ 0) "attempt to subtract with overflow"
    Synth.enable sSum region (n - 1)
    Synth.assignAdvice region value (n - 1) total

def i128Bits : ℕ := 128

/-- A known raw value can be shifted by less than its own width. -/
def ShiftFits (rawValue : Option ℤ) (shift : ℕ) : Prop := rawValue.isSome → shift < i128Bits

instance (rawValue : Option ℤ) : DecidablePred (ShiftFits rawValue) := fun shift =>
  inferInstanceAs (Decidable (rawValue.isSome → shift < i128Bits))

structure RangeCheckConfig where
  value : Column
  bits : Column
  sBit : ℕ
  sSum : ℕ
  nBits : ℕ
  deriving DecidableEq, Repr

namespace RangeCheckConfig

def bitGate (bits : Column) : List (Expression Fr) :=
  [.query bits 0 * (.constant 1 - .query bits 0)]

def sumGate (value bits : Column) (nBits : ℕ) : List (Expression Fr) :=
  [recompose bits 2 nBits - .query value 0]

def configure (value bits : Column) (nBits : ℕ) : Configure Fr RangeCheckConfig := do
  enableEquality bits
  let sBit ← selector
  createGate "bit is boolean" sBit (bitGate bits)
  let sSum ← selector
  createGate "running sum equals value" sSum (sumGate value bits nBits)
  return { value, bits, sBit, sSum, nBits }

def assign (config : RangeCheckConfig) (value : Option Fr) (rawValue : Option ℤ) :
    Synth Fr ε (AssignedCell Fr) :=
  assignDigits "range check" config.sBit config.sSum config.bits config.value config.nBits
    (ShiftFits rawValue) (fun i => rawValue.map fun v => ((v / 2 ^ i % 2).toNat : Fr)) value

end RangeCheckConfig

def limbBits : ℕ := 8

def limbValues : ℕ := 2 ^ limbBits

structure LookupRangeCheckConfig where
  value : Column
  limbs : Column
  sLimb : ℕ
  sSum : ℕ
  table : ℕ
  nBits : ℕ
  deriving DecidableEq, Repr

namespace LookupRangeCheckConfig

def limbInput (limbs : Column) : List (Expression Fr × Fr) := [(.query limbs 0, 0)]

def sumGate (value limbs : Column) (nBits : ℕ) : List (Expression Fr) :=
  [recompose limbs (limbValues : Fr) (nBits / limbBits) - .query value 0]

def configure (value limbs : Column) (nBits : ℕ) : Configure Fr LookupRangeCheckConfig := do
  assertThat (0 < nBits ∧ nBits % limbBits = 0) "n_bits must be a positive multiple of 8"
  enableEquality limbs
  let sLimb ← selector
  let table ← lookupTableColumn
  lookup "limb is in the byte table" sLimb (limbInput limbs) [table]
  let sSum ← selector
  createGate "limbs recompose to value" sSum (sumGate value limbs nBits)
  return { value, limbs, sLimb, sSum, table, nBits }

def byteTable : List (List Fr) := (List.range limbValues).map fun i : ℕ => [(i : Fr)]

def loadTable (config : LookupRangeCheckConfig) : Synth Fr ε Unit :=
  Synth.assignTable [config.table] byteTable

/-- A limb is cut out by a shift, a conversion to `u64` and a mask. -/
def assign (config : LookupRangeCheckConfig) (value : Option Fr) (rawValue : Option ℤ) :
    Synth Fr ε (AssignedCell Fr) :=
  assignDigits "lookup range check" config.sLimb config.sSum config.limbs config.value
    (config.nBits / limbBits) (fun i => ShiftFits rawValue (limbBits * i))
    (fun i => rawValue.map fun v => ((v / 2 ^ (limbBits * i) % 2 ^ 64 % limbValues).toNat : Fr)) value

end LookupRangeCheckConfig

theorem recompose_fold (row : Column → ℤ → Fr) (column : Column) (base : Fr) (n m : ℕ) :
    let s := (List.range m).foldl
      (fun (s : Expression Fr × Fr) (i : ℕ) =>
        (s.1 + .query column (-((n - 1 - i : ℕ) : ℤ)) * .constant s.2, s.2 * base))
      (.constant 0, 1)
    s.1.eval row = ∑ i ∈ range m, row column (-((n - 1 - i : ℕ) : ℤ)) * base ^ i ∧ s.2 = base ^ m := by
  induction m with
  | zero => simp
  | succ m ih =>
      obtain ⟨ihsum, ihcoeff⟩ := ih
      simp only [List.range_succ, List.foldl_append, List.foldl_cons, List.foldl_nil,
        Expression.eval_add, Expression.eval_mul, Expression.eval_query, Expression.eval_constant]
      rw [sum_range_succ, ← ihsum, ihcoeff]
      exact ⟨rfl, (pow_succ _ _).symm⟩

theorem eval_recompose (row : Column → ℤ → Fr) (column : Column) (base : Fr) (n : ℕ) :
    (recompose column base n).eval row =
      ∑ i ∈ range n, row column (-((n - 1 - i : ℕ) : ℤ)) * base ^ i :=
  (recompose_fold row column base n n).1

/-- On the last row of the region the gate reads digit `i` from row `i`. -/
theorem eval_recompose_last (A : Assignment Fr) (region : ℕ) (column : Column) (base : Fr) (n : ℕ)
    (hn : 0 < n) : (recompose column base n).eval (A.row region (n - 1 : ℕ)) =
      ∑ i ∈ range n, A.cell ⟨region, column, i⟩ * base ^ i := by
  rw [eval_recompose]
  refine sum_congr rfl fun i hi => ?_
  have hrow : ((n - 1 : ℕ) : ℤ) + -((n - 1 - i : ℕ) : ℤ) = i := by
    have := mem_range.mp hi
    omega
  simp only [Assignment.row, hrow]

section Digits

variable {cs : ConstraintSystem Fr} {T : List ℕ → List Fr → Prop} {A : Assignment Fr}
  (name : String) (sDigit sSum : ℕ) (digits value : Column) (n : ℕ) {fits : ℕ → Prop} [DecidablePred fits]
  (digit : ℕ → Option Fr) (total : Option Fr)

def digitEvents (region : ℕ) : List (Event Fr) :=
  .region name region ::
    ((List.range n).flatMap (fun i => [.enable sDigit region i, .advice ⟨region, digits, i⟩ (digit i)]) ++
      [.enable sSum region (n - 1 : ℕ), .advice ⟨region, value, (n - 1 : ℕ)⟩ total])

theorem assignDigits_lays (hn : 0 < n) (hfits : ∀ i < n, fits i) :
    Lays (assignDigits (ε := ε) name sDigit sSum digits value n fits digit total)
      (fun r => ⟨⟨r, value, (n - 1 : ℕ)⟩, total⟩)
      (digitEvents name sDigit sSum digits value n digit total) := by
  refine Emits.lays name fun r => ?_
  refine Emits.bind (Emits.forEach (g := fun i : ℕ => ⟨⟨r, digits, i⟩, digit i⟩) fun i hi => ?_) ?_
  · have henable : Emits (F := Fr) (ε := ε) (Synth.enable sDigit r i) () [.enable sDigit r i] := fun _ => rfl
    have hshift : Emits (F := Fr) (ε := ε) (Synth.check (fits i) "attempt to shift right with overflow") () [] :=
      .check (hfits i (List.mem_range.mp hi))
    exact henable.bind (hshift.bind fun m => rfl)
  exact Emits.bind (Emits.check hn.ne') fun m => rfl

theorem mem_digitEvents_digit (region i : ℕ) (hi : i < n) :
    Event.enable sDigit region i ∈ digitEvents name sDigit sSum digits value n digit total region ∧
    Event.advice ⟨region, digits, i⟩ (digit i) ∈
      digitEvents name sDigit sSum digits value n digit total region := by
  constructor
  all_goals
    refine List.mem_cons_of_mem _ (List.mem_append_left _ (List.mem_flatMap.mpr ⟨i, by simpa using hi, ?_⟩))
    simp

/-- If an enabled digit row forces a digit below `base`, and the last row recomposes the digits,
then the value cell holds a number below `base ^ n`. -/
theorem digitEvents_sound (base : ℕ) (hn : 0 < n) {r : ℕ}
    (hdigit : ∀ i, Holds cs T A (.enable sDigit r i) → ∃ d < base, A.cell ⟨r, digits, i⟩ = (d : ℕ))
    (hsum : Holds cs T A (.enable sSum r (n - 1 : ℕ)) →
      (recompose digits (base : Fr) n - .query value 0).eval (A.row r (n - 1 : ℕ)) = 0)
    (h : ∀ e ∈ digitEvents name sDigit sSum digits value n digit total r, Holds cs T A e) :
    ∃ v < base ^ n, A.cell ⟨r, value, (n - 1 : ℕ)⟩ = (v : ℕ) := by
  have hd : ∀ i, ∃ d, i < n → d < base ∧ A.cell ⟨r, digits, i⟩ = (d : ℕ) := fun i => by
    by_cases hi : i < n
    · obtain ⟨d, hlt, heq⟩ := hdigit i
        (h _ (mem_digitEvents_digit name sDigit sSum digits value n digit total r i hi).1)
      exact ⟨d, fun _ => ⟨hlt, heq⟩⟩
    · exact ⟨0, fun hi' => absurd hi' hi⟩
  choose d hd using hd
  refine ⟨_, Positional.sum_digits_lt d n fun i hi => (hd i hi).1, ?_⟩
  have hlast := hsum (h _ (by simp [digitEvents]))
  rw [Expression.eval_sub, eval_recompose_last A r digits base n hn, Expression.eval_query,
    Assignment.row, add_zero, sub_eq_zero] at hlast
  rw [← hlast, Nat.cast_sum]
  refine sum_congr rfl fun i hi => ?_
  rw [(hd i (mem_range.mp hi)).2, Nat.cast_mul, Nat.cast_pow]

/-- The digits of `v` satisfy the region. -/
theorem digitEvents_complete (base v : ℕ) (hn : 0 < n) (hv : v < base ^ n) {r : ℕ}
    (hcell : ∀ i < n, A.cell ⟨r, digits, i⟩ = ((v / base ^ i % base : ℕ) : Fr))
    (hvalue : A.cell ⟨r, value, (n - 1 : ℕ)⟩ = (v : Fr))
    (hrow : ∀ i : ℕ, A.cell ⟨r, digits, i⟩ = ((v / base ^ i % base : ℕ) : Fr) → Holds cs T A (.enable sDigit r i))
    (hsum : (recompose digits (base : Fr) n - .query value 0).eval (A.row r (n - 1 : ℕ)) = 0 →
      Holds cs T A (.enable sSum r (n - 1 : ℕ))) :
    ∀ e ∈ digitEvents name sDigit sSum digits value n digit total r, Holds cs T A e := by
  have hlast : (recompose digits (base : Fr) n - .query value 0).eval (A.row r (n - 1 : ℕ)) = 0 := by
    rw [Expression.eval_sub, eval_recompose_last A r digits base n hn, Expression.eval_query,
      Assignment.row, add_zero, hvalue, sub_eq_zero]
    calc ∑ i ∈ range n, A.cell ⟨r, digits, i⟩ * (base : Fr) ^ i
        = ∑ i ∈ range n, ((v / base ^ i % base * base ^ i : ℕ) : Fr) :=
          sum_congr rfl fun i hi => by rw [hcell i (mem_range.mp hi), Nat.cast_mul, Nat.cast_pow]
      _ = v := by rw [← Nat.cast_sum, Positional.sum_div_mod base n v hv]
  intro e he
  simp only [digitEvents, List.mem_cons, List.mem_append, List.mem_flatMap, List.mem_range,
    List.not_mem_nil, or_false] at he
  obtain rfl | ⟨i, hi, rfl | rfl⟩ | rfl | rfl := he
  · trivial
  · exact hrow i (hcell i hi)
  · trivial
  · exact hsum hlast
  · trivial

theorem assignDigits_sound (base : ℕ) (hn : 0 < n) (hfits : ∀ i < n, fits i)
    (hdigit : ∀ r i, Holds cs T A (.enable sDigit r i) → ∃ d < base, A.cell ⟨r, digits, i⟩ = (d : ℕ))
    (hsum : ∀ r, Holds cs T A (.enable sSum r (n - 1 : ℕ)) →
      (recompose digits (base : Fr) n - .query value 0).eval (A.row r (n - 1 : ℕ)) = 0) :
    Sound cs T A (assignDigits (ε := ε) name sDigit sSum digits value n fits digit total)
      fun c => ∃ v < base ^ n, A.cell c.cell = (v : ℕ) :=
  .of_lays (assignDigits_lays name sDigit sSum digits value n digit total hn hfits) fun r h =>
    ⟨fun _ _ => trivial, digitEvents_sound name sDigit sSum digits value n digit total base hn
      (fun i => hdigit r i) (hsum r) h⟩

/-- Witnessing the digits of `v` satisfies the region. -/
theorem assignDigits_complete (base v : ℕ) (hn : 0 < n) (hfits : ∀ i < n, fits i) (hv : v < base ^ n)
    (hdigit : ∀ i, digit i = some ((v / base ^ i % base : ℕ) : Fr))
    (hrow : ∀ r (i : ℕ), A.cell ⟨r, digits, i⟩ = ((v / base ^ i % base : ℕ) : Fr) → Holds cs T A (.enable sDigit r i))
    (hsum : ∀ r, (recompose digits (base : Fr) n - .query value 0).eval (A.row r (n - 1 : ℕ)) = 0 →
      Holds cs T A (.enable sSum r (n - 1 : ℕ))) :
    Complete cs T A (assignDigits (ε := ε) name sDigit sSum digits value n fits digit (some (v : Fr)))
      fun c => A.Has c value (v : ℕ) := by
  refine .of_lays (assignDigits_lays name sDigit sSum digits value n digit (some (v : Fr)) hn hfits) fun r h => ?_
  have hcell : ∀ i < n, A.cell ⟨r, digits, i⟩ = ((v / base ^ i % base : ℕ) : Fr) := fun i hi => by
    have := h _ (mem_digitEvents_digit name sDigit sSum digits value n digit (some (v : Fr)) r i hi).2
    rwa [hdigit i] at this
  have hvalue : A.cell ⟨r, value, (n - 1 : ℕ)⟩ = (v : Fr) := h (.advice _ (some _)) (by simp [digitEvents])
  exact ⟨digitEvents_complete name sDigit sSum digits value n digit (some (v : Fr)) base v hn hv hcell hvalue
    (hrow r) (hsum r), rfl, hvalue⟩

theorem assignDigits_placed (hn : 0 < n) (hfits : ∀ i < n, fits i) (hne : digits ≠ value) :
    Placed (assignDigits (ε := ε) name sDigit sSum digits value n fits digit total) := by
  have hcells : ∀ r : ℕ, cellsOf (digitEvents name sDigit sSum digits value n digit total r) =
      (List.range n).map (fun i : ℕ => (⟨r, digits, i⟩ : Cell)) ++ [⟨r, value, (n - 1 : ℕ)⟩] := fun r => by
    simp only [cellsOf, digitEvents, List.filterMap_cons, List.filterMap_append,
      List.filterMap_flatMap, written, List.filterMap_nil]
    rw [← List.flatMap_pure_eq_map]
    rfl
  refine .of_lays (assignDigits_lays name sDigit sSum digits value n digit total hn hfits) (fun r c hc => ?_)
    (fun r => ?_) fun r e he => ?_
  · rw [hcells, List.mem_append, List.mem_map, List.mem_singleton] at hc
    rcases hc with ⟨i, -, rfl⟩ | rfl <;> rfl
  · rw [hcells]
    refine List.Nodup.append (List.nodup_range.map fun i j hij => ?_) (List.nodup_singleton _) ?_
    · simpa using hij
    · intro c hc hc'
      obtain ⟨i, -, rfl⟩ := List.mem_map.mp hc
      have hcol := congrArg Cell.column (List.mem_singleton.mp hc')
      exact hne hcol
  · simp only [digitEvents, List.mem_cons, List.mem_append, List.mem_flatMap, List.not_mem_nil, or_false] at he
    obtain rfl | ⟨i, -, rfl | rfl⟩ | rfl | rfl := he <;> trivial

theorem assignDigits_decides (hn : 0 < n) (hfits : ∀ i < n, fits i) :
    Decides (assignDigits (ε := ε) name sDigit sSum digits value n fits digit total) True fun _ => True :=
  .of_lays (assignDigits_lays name sDigit sSum digits value n digit total hn hfits) fun _ => trivial

theorem assignDigits_agree (hn : 0 < n) (hfits : ∀ i < n, fits i) {fits' : ℕ → Prop} [DecidablePred fits']
    (hfits' : ∀ i < n, fits' i) (digit' : ℕ → Option Fr) (total' : Option Fr) :
    Agree (assignDigits (ε := ε) name sDigit sSum digits value n fits digit total)
      (assignDigits (ε := ε) name sDigit sSum digits value n fits' digit' total')
      fun c c' => c.cell = c'.cell := by
  refine .of_lays (assignDigits_lays name sDigit sSum digits value n digit total hn hfits)
    (assignDigits_lays name sDigit sSum digits value n digit' total' hn hfits') (fun r => ?_) fun r => rfl
  simp only [digitEvents, List.map_cons, List.map_append, List.map_flatMap, skeleton]

end Digits

namespace RangeCheckConfig

/-- The gates of a configured chip are part of the constraint system. -/
structure Wired (config : RangeCheckConfig) (cs : ConstraintSystem Fr) : Prop where
  bit : ⟨"bit is boolean", config.sBit, bitGate config.bits⟩ ∈ cs.gates
  sum : ⟨"running sum equals value", config.sSum, sumGate config.value config.bits config.nBits⟩ ∈ cs.gates
  distinct : config.bits ≠ config.value
  pos : 0 < config.nBits

/-- And its digits can be shifted out of a raw value. -/
structure Installed (config : RangeCheckConfig) (cs : ConstraintSystem Fr) : Prop extends Wired config cs where
  narrow : config.nBits ≤ i128Bits

variable {config : RangeCheckConfig} {cs cs' : ConstraintSystem Fr} {T : List ℕ → List Fr → Prop}
  {A : Assignment Fr}

theorem Installed.shifts (h : config.Installed cs) (raw : Option ℤ) : ∀ i < config.nBits, ShiftFits raw i :=
  fun _ hi _ => hi.trans_le h.narrow

theorem Wired.mono (h : config.Wired cs) (hle : cs.Extends cs') : config.Wired cs' where
  bit := hle.gates h.bit
  sum := hle.gates h.sum
  distinct := h.distinct
  pos := h.pos

theorem Installed.mono (h : config.Installed cs) (hle : cs.Extends cs') : config.Installed cs' :=
  ⟨h.toWired.mono hle, h.narrow⟩

theorem configure_wired {value bits : Column} {nBits : ℕ} (hne : bits ≠ value) (hpos : 0 < nBits) :
    Configures (configure value bits nBits) cs fun config cs' =>
      config.Wired cs' ∧ config.value = value ∧ config.bits = bits ∧ config.nBits = nBits := by
  refine (Configures.enableEquality bits).bind fun _ cs₁ _ _ => ?_
  refine Configures.gate _ _ fun cs₂ _ hbit => ?_
  refine Configures.gate _ _ fun cs₃ hle hsum => ?_
  exact Configures.pure ⟨⟨hle.gates hbit, hsum, hne, hpos⟩, rfl, rfl, rfl⟩

theorem configure_installed {value bits : Column} {nBits : ℕ} (hne : bits ≠ value) (hpos : 0 < nBits)
    (hnarrow : nBits ≤ i128Bits) :
    Configures (configure value bits nBits) cs fun config cs' =>
      config.Installed cs' ∧ config.value = value ∧ config.nBits = nBits := by
  refine (configure_wired hne hpos).mono ?_
  rintro config cs' - ⟨hwired, hvalue, -, hbits⟩
  exact ⟨⟨hwired, hbits ▸ hnarrow⟩, hvalue, hbits⟩

/-- An enabled row of the bits holds a bit. -/
theorem holds_bit (hwf : cs.WellFormed) (h : config.Wired cs) (r : ℕ) (i : ℤ) :
    Holds cs T A (.enable config.sBit r i) ↔ ∃ d < 2, A.cell ⟨r, config.bits, i⟩ = (d : ℕ) := by
  rw [holds_gate hwf h.bit]
  simp only [bitGate, List.forall_mem_singleton, Expression.eval_mul, Expression.eval_sub, Expression.eval_query,
    Expression.eval_constant, Assignment.row, add_zero]
  constructor
  · intro hbit
    rcases mul_eq_zero.mp hbit with hzero | hone
    · exact ⟨0, by decide, by rw [hzero, Nat.cast_zero]⟩
    · exact ⟨1, by decide, by rw [← sub_eq_zero.mp hone, Nat.cast_one]⟩
  · rintro ⟨d, hd, heq⟩
    rw [heq]
    interval_cases d <;> simp

theorem holds_sum (hwf : cs.WellFormed) (h : config.Wired cs) (r : ℕ) (i : ℤ) :
    Holds cs T A (.enable config.sSum r i) ↔
      (recompose config.bits 2 config.nBits - .query config.value 0).eval (A.row r i) = 0 := by
  rw [holds_gate hwf h.sum, sumGate, List.forall_mem_singleton]

theorem assign_sound (hwf : cs.WellFormed) (h : config.Installed cs) (value : Option Fr) (raw : Option ℤ) :
    Sound cs T A (config.assign (ε := ε) value raw)
      fun c => ∃ v < 2 ^ config.nBits, A.cell c.cell = (v : ℕ) :=
  assignDigits_sound _ _ _ _ _ _ _ _ 2 h.pos (h.shifts raw) (fun r i => (holds_bit hwf h.toWired r i).mp)
    fun r => (holds_sum hwf h.toWired r _).mp

theorem assign_complete (hwf : cs.WellFormed) (h : config.Installed cs) {v : ℤ} (h0 : 0 ≤ v)
    (hv : v < 2 ^ config.nBits) :
    Complete cs T A (config.assign (ε := ε) (witness true (i128ToFr v)) (witness true v))
      fun c => A.Has c config.value (v : Fr) := by
  lift v to ℕ using h0
  replace hv : v < 2 ^ config.nBits := by exact_mod_cast hv
  rw [i128ToFr_cast, Int.cast_natCast]
  refine assignDigits_complete _ _ _ _ _ _ _ 2 v h.pos (h.shifts _) hv (fun i => ?_) (fun r i hcell => ?_) fun r =>
    (holds_sum hwf h.toWired r _).mpr
  · rw [witness, if_pos rfl, Option.map_some, show ((v : ℤ) / 2 ^ i % 2).toNat = v / 2 ^ i % 2 by norm_cast]
  · exact (holds_bit hwf h.toWired r i).mpr ⟨_, Nat.mod_lt _ (by decide), hcell⟩

theorem assign_placed (h : config.Installed cs) (value : Option Fr) (raw : Option ℤ) :
    Placed (config.assign (ε := ε) value raw) :=
  assignDigits_placed _ _ _ _ _ _ _ _ h.pos (h.shifts raw) h.distinct

theorem assign_decides (h : config.Installed cs) (value : Option Fr) (raw : Option ℤ) :
    Decides (config.assign (ε := ε) value raw) True fun _ => True :=
  assignDigits_decides _ _ _ _ _ _ _ _ h.pos (h.shifts raw)

theorem assign_agree (h : config.Installed cs) (value value' : Option Fr) (raw raw' : Option ℤ) :
    Agree (config.assign (ε := ε) value raw) (config.assign (ε := ε) value' raw')
      fun c c' => c.cell = c'.cell :=
  assignDigits_agree _ _ _ _ _ _ _ _ h.pos (h.shifts raw) (h.shifts raw') _ _

end RangeCheckConfig

namespace LookupRangeCheckConfig

/-- The tables with a single column hold nothing but bytes. -/
def OnlyBytes (T : List ℕ → List Fr → Prop) : Prop := ∀ t row, T [t] row → row ∈ byteTable

/-- The chip's own table holds every byte. -/
def BytesLoaded (config : LookupRangeCheckConfig) (T : List ℕ → List Fr → Prop) : Prop :=
  ∀ row ∈ byteTable, T [config.table] row

structure Wired (config : LookupRangeCheckConfig) (cs : ConstraintSystem Fr) : Prop where
  limb : ⟨"limb is in the byte table", config.sLimb, limbInput config.limbs, [config.table]⟩ ∈ cs.lookups
  sum : ⟨"limbs recompose to value", config.sSum, sumGate config.value config.limbs config.nBits⟩ ∈ cs.gates
  distinct : config.limbs ≠ config.value
  pos : 0 < config.nBits
  multiple : config.nBits % limbBits = 0

structure Installed (config : LookupRangeCheckConfig) (cs : ConstraintSystem Fr) : Prop extends Wired config cs where
  narrow : config.nBits ≤ i128Bits

variable {config : LookupRangeCheckConfig} {cs cs' : ConstraintSystem Fr}
  {T : List ℕ → List Fr → Prop} {A : Assignment Fr}

theorem Wired.mono (h : config.Wired cs) (hle : cs.Extends cs') : config.Wired cs' where
  limb := hle.lookups h.limb
  sum := hle.gates h.sum
  distinct := h.distinct
  pos := h.pos
  multiple := h.multiple

theorem Installed.mono (h : config.Installed cs) (hle : cs.Extends cs') : config.Installed cs' :=
  ⟨h.toWired.mono hle, h.narrow⟩

theorem Installed.shifts (h : config.Installed cs) (raw : Option ℤ) :
    ∀ i < config.nBits / limbBits, ShiftFits raw (limbBits * i) := by
  intro i hi _
  have hnarrow := h.narrow
  simp only [limbBits, i128Bits] at *
  omega

theorem Wired.limbs_pos (h : config.Wired cs) : 0 < config.nBits / limbBits := by
  have := h.pos
  have := h.multiple
  simp only [limbBits] at *
  omega

theorem Wired.pow_limbs (h : config.Wired cs) :
    limbValues ^ (config.nBits / limbBits) = 2 ^ config.nBits := by
  have hmul : limbBits * (config.nBits / limbBits) = config.nBits := by
    have := h.multiple
    simp only [limbBits] at *
    omega
  rw [limbValues, ← pow_mul, hmul]

/-- The table of the check and the row that its disabled rows look up. -/
def idle (config : LookupRangeCheckConfig) : List ℕ × List Fr := ([config.table], [0])

theorem configure_adds (value limbs : Column) (nBits : ℕ) (L : List (List ℕ × List Fr)) :
    Adds L (configure value limbs nBits) fun config => L ++ [config.idle] := by
  refine Adds.assertThat.bind fun _ => ?_
  rintro cs config cs' h rfl
  cases h
  simp [Lookup.idle, limbInput, idle]

theorem configure_wired {value limbs : Column} {nBits : ℕ} (hne : limbs ≠ value) :
    Configures (configure value limbs nBits) cs fun config cs' =>
      config.Wired cs' ∧ config.value = value ∧ config.limbs = limbs ∧ config.nBits = nBits := by
  refine Configures.assertThat.bind fun _ cs₁ _ hbits => ?_
  refine (Configures.enableEquality limbs).bind fun _ cs₂ _ _ => ?_
  refine Configures.lookup _ _ fun cs₃ _ hlimb => ?_
  refine Configures.gate _ _ fun cs₄ hle hsum => ?_
  exact Configures.pure ⟨⟨hle.lookups hlimb, hsum, hne, hbits.1, hbits.2⟩, rfl, rfl, rfl⟩

theorem configure_installed {value limbs : Column} {nBits : ℕ} (hne : limbs ≠ value) (hnarrow : nBits ≤ i128Bits) :
    Configures (configure value limbs nBits) cs fun config cs' =>
      config.Installed cs' ∧ config.value = value ∧ config.nBits = nBits := by
  refine (configure_wired hne).mono ?_
  rintro config cs' - ⟨hwired, hvalue, -, hbits⟩
  exact ⟨⟨hwired, hbits ▸ hnarrow⟩, hvalue, hbits⟩

/-- An enabled row of the limbs is looked up. -/
theorem holds_limb (hwf : cs.WellFormed) (h : config.Wired cs) (r : ℕ) (i : ℤ) :
    Holds cs T A (.enable config.sLimb r i) ↔ T [config.table] [A.cell ⟨r, config.limbs, i⟩] := by
  rw [holds_lookup hwf h.limb]
  simp only [limbInput, List.map_cons, List.map_nil, Expression.eval_query, Assignment.row, add_zero]

theorem mem_byteTable {x : Fr} : [x] ∈ byteTable ↔ ∃ d < limbValues, x = (d : ℕ) := by
  simp only [byteTable, List.mem_map, List.mem_range, List.cons.injEq, and_true]
  constructor
  · rintro ⟨d, hd, rfl⟩
    exact ⟨d, hd, rfl⟩
  · rintro ⟨d, hd, rfl⟩
    exact ⟨d, hd, rfl⟩

theorem holds_sum (hwf : cs.WellFormed) (h : config.Wired cs) (r : ℕ) (i : ℤ) :
    Holds cs T A (.enable config.sSum r i) ↔
      (recompose config.limbs (limbValues : Fr) (config.nBits / limbBits) - .query config.value 0).eval (A.row r i) = 0 := by
  rw [holds_gate hwf h.sum, sumGate, List.forall_mem_singleton]

theorem assign_sound (hwf : cs.WellFormed) (h : config.Installed cs)
    (hT : OnlyBytes T) (value : Option Fr) (raw : Option ℤ) :
    Sound cs T A (config.assign (ε := ε) value raw)
      fun c => ∃ v < 2 ^ config.nBits, A.cell c.cell = (v : ℕ) := by
  rw [← h.pow_limbs]
  exact assignDigits_sound _ _ _ _ _ _ _ _ limbValues h.limbs_pos (h.shifts raw)
    (fun r i hlimb => mem_byteTable.mp (hT _ _ ((holds_limb hwf h.toWired r i).mp hlimb)))
    fun r => (holds_sum hwf h.toWired r _).mp

theorem assign_complete (hwf : cs.WellFormed) (h : config.Installed cs)
    (hT : config.BytesLoaded T) {v : ℤ} (h0 : 0 ≤ v)
    (hv : v < 2 ^ config.nBits) :
    Complete cs T A (config.assign (ε := ε) (witness true (i128ToFr v)) (witness true v))
      fun c => A.Has c config.value (v : Fr) := by
  lift v to ℕ using h0
  replace hv : v < 2 ^ config.nBits := by exact_mod_cast hv
  rw [← h.pow_limbs] at hv
  rw [i128ToFr_cast, Int.cast_natCast]
  refine assignDigits_complete _ _ _ _ _ _ _ limbValues v h.limbs_pos (h.shifts _) hv (fun i => ?_)
    (fun r i hcell => ?_) fun r => (holds_sum hwf h.toWired r _).mpr
  · have hmask : v / 2 ^ (limbBits * i) % 2 ^ 64 % limbValues = v / 2 ^ (limbBits * i) % limbValues :=
      Nat.mod_mod_of_dvd _ (by decide)
    have hcast : ((v : ℤ) / 2 ^ (limbBits * i) % 2 ^ 64 % limbValues).toNat =
        v / 2 ^ (limbBits * i) % 2 ^ 64 % limbValues := by norm_cast
    rw [witness, if_pos rfl, Option.map_some, hcast, hmask, limbValues, ← pow_mul]
  · exact (holds_limb hwf h.toWired r i).mpr (hT _ (mem_byteTable.mpr ⟨_, Nat.mod_lt _ (by decide), hcell⟩))

theorem assign_placed (h : config.Installed cs) (value : Option Fr) (raw : Option ℤ) :
    Placed (config.assign (ε := ε) value raw) :=
  assignDigits_placed _ _ _ _ _ _ _ _ h.limbs_pos (h.shifts raw) h.distinct

theorem assign_decides (h : config.Installed cs) (value : Option Fr) (raw : Option ℤ) :
    Decides (config.assign (ε := ε) value raw) True fun _ => True :=
  assignDigits_decides _ _ _ _ _ _ _ _ h.limbs_pos (h.shifts raw)

theorem assign_agree (h : config.Installed cs) (value value' : Option Fr) (raw raw' : Option ℤ) :
    Agree (config.assign (ε := ε) value raw) (config.assign (ε := ε) value' raw')
      fun c c' => c.cell = c'.cell :=
  assignDigits_agree _ _ _ _ _ _ _ _ h.limbs_pos (h.shifts raw) (h.shifts raw') _ _

end LookupRangeCheckConfig

end Zkie.RangeCheck
