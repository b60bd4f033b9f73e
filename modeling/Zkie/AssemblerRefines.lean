import Zkie.AssemblerHost

namespace Zkie.Assembler

open ScalarField FixedPoint Plonkish Synthesis Satisfaction HostRun Placement RangeCheck DotProduct Eltwise Lookup
  RmsNorm Isa

section Evaluation

/-- The instructions without a table of their own, on operands that are not empty. -/
def IsArithmetic : Instruction → Prop
  | .dotGeneral m n k batchDims _ _ => batchDims = [] ∧ 1 ≤ m.toNat ∧ 1 ≤ n.toNat ∧ 1 ≤ k.toNat
  | .eltwise .add | .eltwise .mul => True
  | _ => False

/-- The value of an arithmetic instruction. -/
def evaluate (a b : List I18) : Instruction → Option (List I18)
  | .dotGeneral m n k _ transA transB => dotGeneral m.toNat n.toNat k.toNat transA transB a b
  | .eltwise .add => broadcast checkedAdd a b
  | .eltwise .mul => broadcast mulFloor a b
  | _ => none

/-- The values of the instructions, one after the other. -/
def evaluateAll (values : Values) (instructions : List AssemblerInstruction) : Option (List (List I18)) :=
  instructions.foldlM (fun virtuals instr => do
    let out ← AssemblerConfig.hostOperands { values with virtuals } (fun a b => evaluate a b instr.instruction) instr.inputs
    return virtuals ++ [out]) values.virtuals

theorem evaluateAll_append {values : Values} {instructions : List AssemblerInstruction} {instr : AssemblerInstruction}
    {virtuals : List (List I18)} {out : List I18} (h : evaluateAll values instructions = some virtuals)
    (hout : AssemblerConfig.hostOperands { values with virtuals } (fun a b => evaluate a b instr.instruction)
      instr.inputs = some out) : evaluateAll values (instructions ++ [instr]) = some (virtuals ++ [out]) := by
  unfold evaluateAll at h ⊢
  rw [List.foldlM_append, h]
  change (AssemblerConfig.hostOperands _ _ _ >>= _) >>= _ = _
  rw [hout]
  rfl

theorem evaluate_of_enforced {config : AssemblerConfig} {floats : Floats} {xs ys zs : List I18}
    {instruction : Instruction} (harith : IsArithmetic instruction)
    (h : config.Enforced floats xs ys zs instruction) : evaluate xs ys instruction = some zs := by
  cases instruction with
  | dotGeneral m n k batchDims transA transB => exact h
  | eltwise op =>
      cases op with
      | add => exact h
      | mul => exact h
      | relu => exact harith.elim
  | _ => exact harith.elim

theorem live_of_isArithmetic {instruction : Instruction} (h : IsArithmetic instruction) :
    AssemblerConfig.Live instruction := by
  cases instruction with
  | dotGeneral => exact ⟨h.2.1, h.2.2.1⟩
  | _ => trivial

open Classical in
/-- The integers that an assignment gives to a register, if it holds integers. -/
noncomputable def decode (A : Assignment Fr) (reg : RegisterCells) : List I18 :=
  if h : ∃ xs, Carries A reg.cells xs then h.choose else []

theorem decode_eq {A : Assignment Fr} {reg : RegisterCells} {xs : List I18} (h : Carries A reg.cells xs) :
    decode A reg = xs := by
  have hex : ∃ xs, Carries A reg.cells xs := ⟨xs, h⟩
  unfold decode
  rw [dif_pos hex]
  exact hex.choose_spec.unique h

/-- The integers that an assignment gives to all registers. -/
noncomputable def Registers.decode (A : Assignment Fr) (regs : Registers) : Values :=
  ⟨regs.inputs.map (Assembler.decode A), regs.weights.map (Assembler.decode A),
    regs.virtuals.map (Assembler.decode A)⟩

theorem Registers.decode_get? (A : Assignment Fr) (regs : Registers) (ref : RegisterRef) :
    (regs.decode A).get? ref = (regs.get? ref).map (Assembler.decode A) := by
  cases ref <;> simp [Registers.decode, Values.get?, Registers.get?]

/-- An instruction only reads registers that are there at the end. -/
theorem Registers.get?_of_take {regs : Registers} {j : ℕ} {ref : RegisterRef} {reg : RegisterCells}
    (h : Registers.get? { regs with virtuals := regs.virtuals.take j } ref = some reg) : regs.get? ref = some reg := by
  cases ref with
  | input i => exact h
  | weight i => exact h
  | virtual i =>
      change (regs.virtuals.take j)[i.toNat]? = some reg at h
      rw [List.getElem?_take] at h
      split at h
      · exact h
      · cases h

end Evaluation

namespace AssemblerConfig

variable {config : AssemblerConfig} {cs : ConstraintSystem Fr} {floats : Floats} {order : HashOrder} {known : Bool}
  {A : Assignment Fr}

/-- One instruction whose registers are related as the circuit enforces is evaluated on their integers. -/
theorem StepHolds.evaluates {regs : Registers} {instr : AssemblerInstruction} {out : RegisterCells}
    (h : config.StepHolds floats A regs instr out) (harith : IsArithmetic instr.instruction) :
    hostOperands (regs.decode A) (fun a b => evaluate a b instr.instruction) instr.inputs = some (decode A out) ∧
      Carries A out.cells (decode A out) ∧
      ∀ ref ∈ instr.inputs, ∃ reg, regs.get? ref = some reg ∧ Carries A reg.cells (decode A reg) := by
  obtain ⟨aRef, bRef, a, b, hinputs, ha, hb, hholds⟩ := h.holds
  obtain ⟨xs, ys, zs, hxs, hys, hzs, henforced⟩ := hholds (live_of_isArithmetic harith)
  rw [decode_eq hzs]
  refine ⟨?_, hzs, ?_⟩
  · rw [hinputs]
    simp only [hostOperands, Registers.decode_get?, ha, hb, Option.map_some, decode_eq hxs, decode_eq hys]
    exact evaluate_of_enforced harith henforced
  · intro ref href
    rw [hinputs] at href
    rcases List.mem_cons.mp href with rfl | href
    · exact ⟨a, ha, (decode_eq hxs).symm ▸ hxs⟩
    · rw [List.mem_singleton.mp href]
      exact ⟨b, hb, (decode_eq hys).symm ▸ hys⟩

/-- By induction on the number of instructions: those before have left their values in the virtual registers. -/
theorem RunHolds.evaluates {regs : Registers} {instructions : List AssemblerInstruction}
    {virtuals : List RegisterCells} (h : config.RunHolds floats A regs instructions virtuals)
    (harith : ∀ instr ∈ instructions, IsArithmetic instr.instruction) (j : ℕ) :
    evaluateAll (Registers.decode A { regs with virtuals := [] }) (instructions.take j) =
      some ((virtuals.take j).map (decode A)) := by
  induction j with
  | zero => rfl
  | succ j ih =>
      cases hinstr : instructions[j]? with
      | none =>
          have hlen := List.getElem?_eq_none_iff.mp hinstr
          rw [List.take_of_length_le hlen] at ih
          rw [List.take_of_length_le (by omega), ih, List.take_of_length_le (h.length ▸ hlen),
            List.take_of_length_le (by rw [h.length]; omega)]
      | some instr =>
          have hj : j < virtuals.length := h.length ▸ (List.getElem?_eq_some_iff.mp hinstr).1
          have hout : virtuals[j]? = some virtuals[j] := List.getElem?_eq_getElem hj
          have hstep := (h.steps j instr _ hinstr hout).evaluates (harith instr (List.mem_of_getElem? hinstr))
          rw [List.take_add_one, hinstr, List.take_add_one, hout, List.map_append]
          exact evaluateAll_append ih hstep.1

theorem RunHolds.carries {regs : Registers} {instructions : List AssemblerInstruction} {virtuals : List RegisterCells}
    (h : config.RunHolds floats A regs instructions virtuals)
    (harith : ∀ instr ∈ instructions, IsArithmetic instr.instruction) :
    ∀ reg ∈ virtuals, Carries A reg.cells (decode A reg) := by
  intro reg hreg
  obtain ⟨j, hj, rfl⟩ := List.mem_iff_getElem.mp hreg
  have hinstr := List.getElem?_eq_getElem (h.length ▸ hj)
  have hstep := (h.steps j _ _ hinstr (List.getElem?_eq_getElem hj)).evaluates (harith _ (List.mem_of_getElem? hinstr))
  exact hstep.2.1

/-- A run loads the byte tables and no other. -/
theorem assign_bytesOnly (h : config.Installed cs) {program : AssemblerProgram} {n n' : ℕ} {regs : Registers}
    {es : List (Event Fr)} (hrun : config.assign floats order program known n = .ok (regs, es, n')) :
    ∀ e ∈ es, BytesOnly e := by
  obtain ⟨_, es₁, n₁, es₂, hload, hrest, rfl⟩ := Synth.bind_eq_ok.mp hrun
  have hplaced := ((assignTensors_placed program.inputValues).bind fun inputs =>
    (assignTensors_placed program.weightValues).bind fun weights =>
      (assignInstructions_placed h program.instructions).bind fun virtuals => Placed.pure) n₁ regs es₂ n' hrest
  intro e he
  rcases List.mem_append.mp he with he | he
  · rw [loadRangeTables_emits order n] at hload
    cases hload
    obtain ⟨t, -, rfl⟩ := List.mem_map.mp he
    rfl
  · exact bytesOnly_of_inner (hplaced.2.2.2 e he)

theorem not_usesRmsNorm {instructions : List AssemblerInstruction}
    (h : ∀ instr ∈ instructions, IsArithmetic instr.instruction) : ¬usesRmsNorm instructions := by
  rintro ⟨instr, hinstr, dim, epsilonMilli, hrms⟩
  have harith := h instr hinstr
  rw [hrms] at harith
  exact harith

/-- For every arithmetic program that the assembler configures and assigns, every assignment that satisfies the
circuit gives integers to all registers that are read or computed, and those that are computed are the values of
the instructions on the others. -/
theorem satisfying_evaluates (floats : Floats) (order : HashOrder) (program : AssemblerProgram)
    (harith : ∀ instr ∈ program.instructions, IsArithmetic instr.instruction) (known : Bool) (config : AssemblerConfig)
    (cs : ConstraintSystem Fr) (hconfigure : configure floats program.instructions {} = .ok (config, cs)) (n n' : ℕ)
    (regs : Registers) (es : List (Event Fr))
    (hassign : config.assign floats order program known n = .ok (regs, es, n')) (A : Assignment Fr)
    (hA : Satisfies cs es A) :
    ∃ values : Values,
      evaluateAll ⟨values.inputs, values.weights, []⟩ program.instructions = some values.virtuals ∧
      List.Forall₂ (fun reg zs => Carries A reg.cells zs) regs.virtuals values.virtuals ∧
      ∀ instr ∈ program.instructions, ∀ ref ∈ instr.inputs, ∃ reg xs, regs.get? ref = some reg ∧
        values.get? ref = some xs ∧ Carries A reg.cells xs := by
  obtain ⟨-, hwf, hinstalled, -⟩ := configureInternal_installed program.instructions false config cs hconfigure
  have hbytes := onlyBytes_of_events (assign_bytesOnly hinstalled hassign)
  have hsound := assign_sound (hwf ⟨fun s hs => absurd hs List.not_mem_nil, List.nodup_nil⟩) hinstalled hbytes program
    (fun hrms => absurd hrms (not_usesRmsNorm harith)) n regs es n' hassign hA.events
  have hrun := hsound.2
  refine ⟨regs.decode A, ?_, ?_, ?_⟩
  · have hall := RunHolds.evaluates hrun harith program.instructions.length
    rw [List.take_length, ← hrun.length, List.take_length] at hall
    exact hall
  · simp only [Registers.decode, List.forall₂_map_right_iff, List.forall₂_same]
    exact RunHolds.carries hrun harith
  · intro instr hinstr ref href
    obtain ⟨j, hj, rfl⟩ := List.mem_iff_getElem.mp hinstr
    have hout := List.getElem?_eq_getElem (hrun.length ▸ hj : j < regs.virtuals.length)
    have hstep := (hrun.steps j _ _ (List.getElem?_eq_getElem hj) hout).evaluates (harith _ hinstr)
    obtain ⟨reg, hreg, hcarries⟩ := hstep.2.2 ref href
    have hget : regs.get? ref = some reg := Registers.get?_of_take hreg
    refine ⟨reg, decode A reg, hget, ?_, hcarries⟩
    rw [Registers.decode_get?, hget, Option.map_some]

section Honest

variable {program : AssemblerProgram} {n n' : ℕ} {regs : Registers} {es : List (Event Fr)}

/-- A run writes every cell once and exposes nothing. -/
theorem assign_cells (h : config.Installed cs) (hrun : config.assign floats order program known n = .ok (regs, es, n')) :
    (cellsOf es).Nodup ∧ es.filterMap exposed = [] := by
  obtain ⟨_, es₁, n₁, es₂, hload, hrest, rfl⟩ := Synth.bind_eq_ok.mp hrun
  have hplaced := ((assignTensors_placed program.inputValues).bind fun inputs =>
    (assignTensors_placed program.weightValues).bind fun weights =>
      (assignInstructions_placed h program.instructions).bind fun virtuals => Placed.pure) n₁ regs es₂ n' hrest
  rw [loadRangeTables_emits order n] at hload
  cases hload
  have htables : ∀ ts : List ℕ, cellsOf (F := Fr) (ts.map fun t => .table [t] LookupRangeCheckConfig.byteTable) = [] := by
    intro ts
    induction ts with
    | nil => rfl
    | cons t ts ih => exact ih
  refine ⟨?_, List.filterMap_eq_nil_iff.mpr ?_⟩
  · rw [cellsOf_append, htables, List.nil_append]
    exact hplaced.2.2.1
  · intro e he
    rcases List.mem_append.mp he with he | he
    · obtain ⟨t, -, rfl⟩ := List.mem_map.mp he
      rfl
    · have hinner := hplaced.2.2.2 e he
      cases e with
      | expose => exact hinner.elim
      | _ => rfl

/-- The byte tables that a run loads. -/
theorem loaded_rangeTable (hrun : config.assign floats order program known n = .ok (regs, es, n')) {t : ℕ}
    (ht : t ∈ config.rangeTables order) : ∀ row ∈ LookupRangeCheckConfig.byteTable, Loaded es [t] row := by
  obtain ⟨_, es₁, n₁, es₂, hload, -, rfl⟩ := Synth.bind_eq_ok.mp hrun
  rw [loadRangeTables_emits order n] at hload
  cases hload
  intro row hrow
  exact ⟨_, List.mem_append_left _ (List.mem_map_of_mem ht), hrow⟩

theorem mem_rangeTables_dot {entry : UInt64 × DotProductConfig} (h : entry ∈ config.dot) :
    entry.2.rangeA.table ∈ config.rangeTables order ∧ entry.2.rangeB.table ∈ config.rangeTables order := by
  have hentry : entry ∈ order.dot config.dot := (order.dot_perm config.dot).mem_iff.mpr h
  constructor
  · exact List.mem_append_left _ (List.mem_flatMap.mpr ⟨entry, hentry, by simp⟩)
  · exact List.mem_append_left _ (List.mem_flatMap.mpr ⟨entry, hentry, by simp⟩)

theorem bytesLoaded (hrun : config.assign floats order program known n = .ok (regs, es, n')) :
    config.BytesLoaded (Loaded es) := by
  have hmul : config.mul.rangeA.table ∈ config.rangeTables order ∧ config.mul.rangeB.table ∈ config.rangeTables order := by
    constructor <;> exact List.mem_append_right _ (by simp)
  refine ⟨fun entry hentry => ?_, loaded_rangeTable hrun hmul.1, loaded_rangeTable hrun hmul.2⟩
  exact ⟨loaded_rangeTable hrun (mem_rangeTables_dot hentry).1, loaded_rangeTable hrun (mem_rangeTables_dot hentry).2⟩

theorem zero_mem_byteTable : ([0] : List Fr) ∈ LookupRangeCheckConfig.byteTable :=
  List.mem_map.mpr ⟨0, List.mem_range.mpr (by decide), by simp⟩

/-- The rows that disabled lookups look up are loaded. -/
theorem BytesLoaded.idles {T : List ℕ → List Fr → Prop} (h : config.BytesLoaded T)
    (hrms : ∀ entry ∈ config.rmsNorm, entry.2.mul.rangeA.BytesLoaded T ∧ entry.2.mul.rangeB.BytesLoaded T ∧
      T entry.2.rsqrt.idle.1 entry.2.rsqrt.idle.2) : ∀ p ∈ config.idles, T p.1 p.2 := by
  intro p hp
  rcases List.mem_append.mp hp with hp | hp
  · obtain ⟨entry, hentry, hp⟩ := List.mem_flatMap.mp hp
    rcases List.mem_cons.mp hp with rfl | hp
    · exact (h.dot entry hentry).1 [0] zero_mem_byteTable
    · rw [List.mem_singleton.mp hp]
      exact (h.dot entry hentry).2 [0] zero_mem_byteTable
  rcases List.mem_append.mp hp with hp | hp
  · rcases List.mem_cons.mp hp with rfl | hp
    · exact h.mul.1 [0] zero_mem_byteTable
    · rw [List.mem_singleton.mp hp]
      exact h.mul.2 [0] zero_mem_byteTable
  · obtain ⟨entry, hentry, hp⟩ := List.mem_flatMap.mp hp
    obtain ⟨hA, hB, hidle⟩ := hrms entry hentry
    simp only [List.mem_cons, List.not_mem_nil, or_false] at hp
    rcases hp with rfl | rfl | rfl
    · exact hA [0] zero_mem_byteTable
    · exact hB [0] zero_mem_byteTable
    · exact hidle

theorem rmsNormKeys_eq_nil {instructions : List AssemblerInstruction}
    (h : ∀ instr ∈ instructions, IsArithmetic instr.instruction) : rmsNormKeys instructions = [] := by
  apply List.eq_nil_iff_forall_not_mem.mpr
  intro key hkey
  have hmem := (List.perm_insertionSort KeyLe _).mem_iff.mp (List.mem_dedup.mp hkey)
  obtain ⟨instr, hinstr, hsome⟩ := List.mem_filterMap.mp hmem
  split at hsome
  · rename_i hrms
    exact not_usesRmsNorm h ⟨instr, hinstr, _, _, hrms⟩
  · cases hsome

/-- An honest prover satisfies the circuit of an arithmetic program. -/
theorem honest_satisfies (harith : ∀ instr ∈ program.instructions, IsArithmetic instr.instruction)
    (hconfigure : configure floats program.instructions {} = .ok (config, cs))
    (hrun : config.assign floats order program true n = .ok (regs, es, n')) : Satisfies cs es (honest es) := by
  obtain ⟨-, hwf, hinstalled, -, -, hkeys, -⟩ :=
    configureInternal_installed program.instructions false config cs hconfigure
  have hidles := configureInternal_adds program.instructions false {} config cs hconfigure rfl
  obtain ⟨hcells, hexposed⟩ := assign_cells hinstalled hrun
  have hrms : config.rmsNorm = [] := List.map_eq_nil_iff.mp (hkeys.trans (rmsNormKeys_eq_nil harith))
  have hbytes := bytesLoaded hrun
  have hcomplete := assign_complete (A := honest es) (hwf ⟨fun s hs => absurd hs List.not_mem_nil, List.nodup_nil⟩)
    hinstalled hbytes order program (fun h => absurd h (not_usesRmsNorm harith)) n regs es n' hrun
    (honest_witnessed hcells (hexposed ▸ List.nodup_nil))
  refine ⟨hcomplete.1, ?_⟩
  have hloaded : ∀ p ∈ config.idles, Loaded es p.1 p.2 := by
    apply hbytes.idles
    intro entry hentry
    rw [hrms] at hentry
    cases hentry
  intro l hl
  exact hloaded l.idle (hidles ▸ List.mem_map_of_mem hl)

end Honest

/-- Hash maps that are read in the order of insertion. -/
def insertionOrder : HashOrder := ⟨id, id, fun _ => .refl _, fun _ => .refl _⟩

/-- No constants, for programs without normalisations. -/
def noFloats : Floats := ⟨fun _ => none, fun _ => none, fun _ _ _ => none, fun _ => none⟩

/-- A number as a fixed-point number, or zero if it is out of range. -/
def fixedPoint (raw : ℤ) : I18 := (I18.ofInt? raw).getD default

/-- `(x + y) * w`, for `x = 2`, `y = 1.5` and `w = -0.5`. -/
def sumTimesWeight : AssemblerProgram where
  instructions := [⟨.eltwise .add, [.input 0, .input 1]⟩, ⟨.eltwise .mul, [.virtual 0, .weight 0]⟩]
  inputValues := [[fixedPoint (2 * scale18)], [fixedPoint (15 * scale18 / 10)]]
  weightValues := [[fixedPoint (-5 * scale18 / 10)]]

theorem satisfying_evaluates_sumTimesWeight : ∃ config cs regs es n, ∃ A : Assignment Fr,
    configure noFloats sumTimesWeight.instructions {} = .ok (config, cs) ∧
      config.assign noFloats insertionOrder sumTimesWeight true 0 = .ok (regs, es, n) ∧ Satisfies cs es A ∧
      ∃ values : Values,
        evaluateAll ⟨values.inputs, values.weights, []⟩ sumTimesWeight.instructions = some values.virtuals ∧
        List.Forall₂ (fun reg zs => Carries A reg.cells zs) regs.virtuals values.virtuals ∧
        ∀ instr ∈ sumTimesWeight.instructions, ∀ ref ∈ instr.inputs, ∃ reg xs, regs.get? ref = some reg ∧
          values.get? ref = some xs ∧ Carries A reg.cells xs := by
  have harith : ∀ instr ∈ sumTimesWeight.instructions, IsArithmetic instr.instruction := by
    simp [sumTimesWeight, IsArithmetic]
  have hok : (configure noFloats sumTimesWeight.instructions {}).toOption.isSome := by decide +kernel
  obtain ⟨⟨config, cs⟩, hsome⟩ := Option.isSome_iff_exists.mp hok
  have hconfigure := toOption_eq_some.mp hsome
  obtain ⟨-, -, hinstalled, -⟩ :=
    configureInternal_installed sumTimesWeight.instructions false config cs hconfigure
  have hhost : (config.hostProgram noFloats true sumTimesWeight).isSome := rfl
  obtain ⟨⟨regs, es, n⟩, hassign⟩ := (assign_decides hinstalled insertionOrder sumTimesWeight 0).2 ⟨trivial, hhost⟩
  have hA := honest_satisfies harith hconfigure hassign
  exact ⟨config, cs, regs, es, n, honest es, hconfigure, hassign, hA, satisfying_evaluates noFloats insertionOrder
    sumTimesWeight harith true config cs hconfigure 0 n regs es hassign (honest es) hA⟩

end AssemblerConfig

end Zkie.Assembler
