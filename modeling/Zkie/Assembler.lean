import Zkie.Isa

namespace Zkie.Assembler

open ScalarField FixedPoint Plonkish Synthesis Satisfaction RangeCheck DotProduct Eltwise Lookup RmsNorm Isa

/-- The texts of an overflow error. -/
inductive OverflowText where
  | fixedPoint (e : FixedPointError)
  | eltwiseAdd
  deriving DecidableEq, Repr

inductive RegisterKind where
  | input
  | weight
  | virtual
  deriving DecidableEq, Repr

inductive AssemblerError where
  | unconfiguredDotK (k : UInt64)
  | registerIndexOutOfRange (kind : RegisterKind) (index : UInt64)
  | dotGeneralInputCount (expected got : ℕ)
  | dotGeneralShapeMismatch (expectedA gotA expectedB gotB : ℕ)
  | dotGeneralBatchDimsUnsupported
  | eltwiseInputCount (expected got : ℕ)
  | eltwiseLengthMismatch (aLen bLen : ℕ)
  | unsupportedInstruction (instruction : Instruction)
  | overflow (text : OverflowText)
  | rmsNormInputCount (expected got : ℕ)
  | rmsNormShapeMismatch (dim gotX gotWeight : ℕ)
  | unconfiguredRmsNorm (dim epsilonMilli : UInt64)
  | rmsNorm (e : RmsNormError)
  deriving DecidableEq, Repr

/-- The host values of a register and its canonical cells, in the unshifted representation. -/
structure RegisterCells where
  values : List I18
  cells : List (AssignedCell Fr)

instance : Inhabited (AssignedCell Fr) := ⟨⟨⟨0, .advice 0, 0⟩, none⟩⟩

/-- The elements of a register at some indices. -/
def RegisterCells.pick (reg : RegisterCells) (indices : List ℕ) : RegisterCells :=
  ⟨Isa.pick reg.values indices, indices.map (reg.cells.getD · default)⟩

/-- The registers that an instruction may read. -/
structure Registers where
  inputs : List RegisterCells
  weights : List RegisterCells
  virtuals : List RegisterCells

def Registers.get? (regs : Registers) : RegisterRef → Option RegisterCells
  | .input i => regs.inputs[i.toNat]?
  | .weight i => regs.weights[i.toNat]?
  | .virtual i => regs.virtuals[i.toNat]?

def outOfRange : RegisterRef → AssemblerError
  | .input i => .registerIndexOutOfRange .input i
  | .weight i => .registerIndexOutOfRange .weight i
  | .virtual i => .registerIndexOutOfRange .virtual i

def resolve (regs : Registers) (reg : RegisterRef) : Except AssemblerError RegisterCells :=
  (regs.get? reg).elim (.error (outOfRange reg)) .ok

/-- The two hash maps are association lists in the order of insertion. -/
structure AssemblerConfig where
  dot : List (UInt64 × DotProductConfig)
  add : EltwiseAddConfig
  mul : EltwiseMulConfig
  rmsNorm : List ((UInt64 × UInt64) × RmsNormConfig)
  boundary : Column
  bridgeUnshifted : Column
  bridgeShifted : Column
  sBridge : ℕ
  publicInstance : Option Column
  deriving DecidableEq, Repr

/-- The order in which a run iterates over the two hash maps. -/
structure HashOrder where
  dot : List (UInt64 × DotProductConfig) → List (UInt64 × DotProductConfig)
  rmsNorm : List ((UInt64 × UInt64) × RmsNormConfig) → List ((UInt64 × UInt64) × RmsNormConfig)
  dot_perm : ∀ l, (dot l).Perm l
  rmsNorm_perm : ∀ l, (rmsNorm l).Perm l

/-- The domains that a caller gives for some `(dim, epsilon_milli)` pairs. -/
abbrev RmsNormDomains : Type := List ((UInt64 × UInt64) × RsqrtDomain)

def findKey {κ α : Type} [DecidableEq κ] (key : κ) (entries : List (κ × α)) : Option α :=
  (entries.find? fun e => e.1 = key).map Prod.snd

theorem findKey_mem {κ α : Type} [DecidableEq κ] {key : κ} {entries : List (κ × α)} {a : α}
    (h : findKey key entries = some a) : (key, a) ∈ entries := by
  simp only [findKey, Option.map_eq_some_iff] at h
  obtain ⟨e, he, rfl⟩ := h
  have hkey : e.1 = key := by simpa using List.find?_some he
  rw [← hkey]
  exact List.mem_of_find?_eq_some he

theorem findKey_isSome {κ α : Type} [DecidableEq κ] {key : κ} {entries : List (κ × α)} (h : key ∈ entries.map Prod.fst) :
    (findKey key entries).isSome := by
  obtain ⟨entry, hentry, rfl⟩ := List.mem_map.mp h
  rw [findKey, Option.isSome_map, List.find?_isSome]
  exact ⟨entry, hentry, by simp⟩

/-- The bit patterns of `0.1` and `10.0`. -/
def rmsNormDefaultRsqrtDomain : RsqrtDomain := .range 0x3FB999999999999A 0x4024000000000000 21

def dotKs (instructions : List AssemblerInstruction) : List UInt64 :=
  ((instructions.filterMap fun instr => match instr.instruction with
    | .dotGeneral _ _ k _ _ _ => some k
    | _ => none).insertionSort (· ≤ ·)).dedup

/-- The order of pairs of integers. -/
def KeyLe (p q : UInt64 × UInt64) : Prop := p.1 < q.1 ∨ p.1 = q.1 ∧ p.2 ≤ q.2

instance : DecidableRel KeyLe := fun _ _ => inferInstanceAs (Decidable (_ ∨ _))

def rmsNormKeys (instructions : List AssemblerInstruction) : List (UInt64 × UInt64) :=
  ((instructions.filterMap fun instr => match instr.instruction with
    | .rmsNorm dim epsilonMilli => some (dim, epsilonMilli)
    | _ => none).insertionSort KeyLe).dedup

namespace AssemblerConfig

/-- One set of columns is shared by all lengths. -/
def configureDot (bits : Column) (ks : List UInt64) : Configure Fr (List (UInt64 × DotProductConfig)) :=
  if ks = [] then pure []
  else do
    let a ← adviceColumn
    let b ← adviceColumn
    let accumulator ← adviceColumn
    let q ← adviceColumn
    let r ← adviceColumn
    let slack ← adviceColumn
    configureEach (fun k => do
      let dot ← DotProductConfig.configure a b accumulator q r slack bits k
      return (k, dot)) ks

def configureAdd (bits : Column) : Configure Fr EltwiseAddConfig := do
  let a ← adviceColumn
  let b ← adviceColumn
  let c ← adviceColumn
  EltwiseAddConfig.configure a b c bits

def configureMul (bits : Column) : Configure Fr EltwiseMulConfig := do
  let a ← adviceColumn
  let b ← adviceColumn
  let q ← adviceColumn
  let r ← adviceColumn
  let slack ← adviceColumn
  EltwiseMulConfig.configure a b q r slack bits

def configureRmsNorm (floats : Floats) (bits : Column) (domains : RmsNormDomains) (key : UInt64 × UInt64) :
    Configure Fr ((UInt64 × UInt64) × RmsNormConfig) := do
  let rsqrtDomain := (findKey key domains).getD rmsNormDefaultRsqrtDomain
  let values ← adviceColumn
  let sum ← adviceColumn
  let sumShift ← adviceColumn
  let meanQ ← adviceColumn
  let meanR ← adviceColumn
  let meanSlack ← adviceColumn
  let addA ← adviceColumn
  let addB ← adviceColumn
  let addC ← adviceColumn
  let mulA ← adviceColumn
  let mulB ← adviceColumn
  let mulQ ← adviceColumn
  let mulR ← adviceColumn
  let mulSlack ← adviceColumn
  let rsqrtInput ← adviceColumn
  let rsqrtOutput ← adviceColumn
  let xAnchor ← adviceColumn
  let weightAnchor ← adviceColumn
  let unshiftIn ← adviceColumn
  let unshiftOut ← adviceColumn
  let config ← RmsNormConfig.configure floats ⟨values, sum, sumShift, meanQ, meanR, meanSlack, addA, addB, addC,
    mulA, mulB, mulQ, mulR, mulSlack, rsqrtInput, rsqrtOutput, xAnchor, weightAnchor, unshiftIn, unshiftOut⟩
    bits key.1 key.2 rsqrtDomain
  return (key, config)

def bridgeGate (unshifted shifted : Column) : List (Expression Fr) :=
  [.query shifted 0 - .query unshifted 0 - .constant (i128ToFr signedShift)]

def configurePublic : Bool → Configure Fr (Option Column)
  | false => return none
  | true => do
      let c ← instanceColumn
      enableEquality c
      return some c

def configureInternal (floats : Floats) (instructions : List AssemblerInstruction) (domains : RmsNormDomains)
    (exposePublicInstances : Bool) : Configure Fr AssemblerConfig := do
  let bits ← adviceColumn
  let dot ← configureDot bits (dotKs instructions)
  let add ← configureAdd bits
  let mul ← configureMul bits
  let rmsNorm ← configureEach (configureRmsNorm floats bits domains) (rmsNormKeys instructions)
  let boundary ← adviceColumn
  enableEquality boundary
  let bridgeUnshifted ← adviceColumn
  let bridgeShifted ← adviceColumn
  enableEquality bridgeUnshifted
  enableEquality bridgeShifted
  let publicInstance ← configurePublic exposePublicInstances
  let sBridge ← selector
  createGate "assembler shift bridge" sBridge (bridgeGate bridgeUnshifted bridgeShifted)
  return { dot, add, mul, rmsNorm, boundary, bridgeUnshifted, bridgeShifted, sBridge, publicInstance }

/-- `configure`: no domains and no public instances. -/
def configure (floats : Floats) (instructions : List AssemblerInstruction) : Configure Fr AssemblerConfig :=
  configureInternal floats instructions [] false

/-- The byte tables of the operand range checks. -/
def loadRangeTables {ε : Type} (config : AssemblerConfig) (order : HashOrder) : Synth Fr ε Unit := do
  let _ ← Synth.forEach (fun entry => entry.2.loadRangeTables) (order.dot config.dot)
  config.mul.loadMulOperandRangeTable

def loadRmsNormTables {ε : Type} (config : AssemblerConfig) (floats : Floats) (order : HashOrder) :
    Synth Fr ε Unit := do
  let _ ← Synth.forEach (fun entry => do
    let domain ← Synth.unwrap "rsqrt domain" (entry.2.rsqrtDomain.table floats)
    entry.2.loadTable domain) (order.rmsNorm config.rmsNorm)
  return ()

/-- The region that witnesses an input or weight tensor, one row for each element. -/
def assignBoundary {ε : Type} (config : AssemblerConfig) (tensor : List I18) (known : Bool) :
    Synth Fr ε (List (AssignedCell Fr)) :=
  Synth.assignRegion "assembler boundary" fun region =>
    Synth.forEach (fun (row : ℕ) => Synth.assignAdvice region config.boundary row
      (witness known (i64ToFr (tensor.getD row default)))) (List.range tensor.length)

/-- A row with both representations of a value: the unshifted cell, then the shifted one. -/
def assignBridge {ε : Type} (config : AssemblerConfig) (v : I18) (known : Bool) :
    Synth Fr ε (AssignedCell Fr × AssignedCell Fr) :=
  Synth.assignRegion "assembler shift bridge" fun region => do
    Synth.enable config.sBridge region 0
    let unshifted ← Synth.assignAdvice region config.bridgeUnshifted 0 (witness known (i64ToFr v))
    let shifted ← Synth.assignAdvice region config.bridgeShifted 0 (witness known (i128ToFr (shiftedRaw v)))
    return (unshifted, shifted)

/-- The bridge from a chip's shifted output to the canonical cell of a register. -/
def assignOutput {ε : Type} (config : AssemblerConfig) (link : String) (v : I18) (output : AssignedCell Fr)
    (known : Bool) : Synth Fr ε (I18 × AssignedCell Fr) := do
  let (unshifted, shifted) ← config.assignBridge v known
  Synth.linkCells link [(shifted, output)]
  return (v, unshifted)

/-- The bridge from the canonical cell of a register to a shifted operand. -/
def assignOperand {ε : Type} (config : AssemblerConfig) (link : String) (v : I18) (cell : AssignedCell Fr)
    (known : Bool) : Synth Fr ε (AssignedCell Fr) := do
  let (unshifted, shifted) ← config.assignBridge v known
  Synth.linkCells link [(unshifted, cell)]
  return shifted

def twoInputs (e : ℕ → AssemblerError) : List RegisterRef → Except AssemblerError (RegisterRef × RegisterRef)
  | [a, b] => .ok (a, b)
  | inputs => .error (e inputs.length)

/-- The links of two operand vectors, pair by pair. -/
def operandLinks (aCells bCells : List (AssignedCell Fr)) (a b : RegisterCells) :
    List (AssignedCell Fr × AssignedCell Fr) :=
  ((aCells.zip a.cells).zip (bCells.zip b.cells)).flatMap fun p => [p.1, p.2]

/-- Element `(i, j)` of a matrix product. The sum is checked before the row computes it again. -/
def assignDotElement (config : AssemblerConfig) (dot : DotProductConfig) (i j : ℕ) (a b : RegisterCells)
    (known : Bool) : Synth Fr AssemblerError (I18 × AssignedCell Fr) := do
  Synth.check (SumsFit a.values b.values) "attempt to add with overflow"
  let (q, _) ← (Synth.ofExcept (requantizeRaw (dotSum a.values b.values))).mapError
    fun e => .overflow (.fixedPoint e)
  let (aCells, bCells, qCell) ← dot.assignDotRow a.values b.values known
  Synth.linkCells s!"assembler dot ({i},{j}) input links" (operandLinks aCells bCells a b)
  config.assignOutput s!"assembler dot ({i},{j}) output link" q qCell known

def assignDotGeneral (config : AssemblerConfig) (regs : Registers) (inputs : List RegisterRef) (m n k : UInt64)
    (batchDims : List UInt64) (transA transB known : Bool) : Synth Fr AssemblerError RegisterCells := do
  Synth.ensure (batchDims = []) .dotGeneralBatchDimsUnsupported
  let (aRef, bRef) ← Synth.ofExcept (twoInputs (.dotGeneralInputCount 2) inputs)
  let aReg ← Synth.ofExcept (resolve regs aRef)
  let bReg ← Synth.ofExcept (resolve regs bRef)
  Synth.check (m.toNat * k.toNat < 2 ^ 64) "attempt to multiply with overflow"
  Synth.check (k.toNat * n.toNat < 2 ^ 64) "attempt to multiply with overflow"
  Synth.ensure (aReg.values.length = m.toNat * k.toNat ∧ bReg.values.length = k.toNat * n.toNat)
    (.dotGeneralShapeMismatch (m.toNat * k.toNat) aReg.values.length (k.toNat * n.toNat) bReg.values.length)
  let dot ← Synth.ofExcept ((findKey k config.dot).elim (.error (.unconfiguredDotK k)) .ok)
  Synth.check (m.toNat * n.toNat < 2 ^ 64) "attempt to multiply with overflow"
  let outs ← Synth.forEach (fun (i, j) => config.assignDotElement dot i j
    (aReg.pick (rowA m.toNat k.toNat transA i)) (bReg.pick (columnB n.toNat k.toNat transB j)) known)
    (positions m.toNat n.toNat)
  return ⟨outs.map Prod.fst, outs.map Prod.snd⟩

def assignAddElement (config : AssemblerConfig) (idx : ℕ) (a b : I18) (aCell bCell : AssignedCell Fr)
    (known : Bool) : Synth Fr AssemblerError (I18 × AssignedCell Fr) := do
  let c ← Synth.ofExcept ((checkedAdd a b).elim (.error (.overflow .eltwiseAdd)) .ok)
  let aShift ← config.assignOperand s!"assembler add {idx} a link" a aCell known
  let bShift ← config.assignOperand s!"assembler add {idx} b link" b bCell known
  let (aRow, bRow, cRow) ← config.add.assignAddRow a b known
  Synth.linkCells s!"assembler add {idx} operand links" [(aRow, aShift), (bRow, bShift)]
  config.assignOutput s!"assembler add {idx} output link" c cRow known

def assignMulElement (config : AssemblerConfig) (idx : ℕ) (a b : I18) (aCell bCell : AssignedCell Fr)
    (known : Bool) : Synth Fr AssemblerError (I18 × AssignedCell Fr) := do
  let (q, _) ← (Synth.ofExcept (requantizeMul a b)).mapError fun e => .overflow (.fixedPoint e)
  let (aRow, bRow, qRow) ← config.mul.assignMulRow a b known
  Synth.linkCells s!"assembler mul {idx} operand links" [(aRow, aCell), (bRow, bCell)]
  config.assignOutput s!"assembler mul {idx} output link" q qRow known

def assignElement (config : AssemblerConfig) (op : EltwiseOp) (idx : ℕ) (a b : I18)
    (aCell bCell : AssignedCell Fr) (known : Bool) : Synth Fr AssemblerError (I18 × AssignedCell Fr) :=
  match op with
  | .add => config.assignAddElement idx a b aCell bCell known
  | .mul => config.assignMulElement idx a b aCell bCell known
  | .relu => Synth.fail (.unsupportedInstruction (.eltwise .relu))

/-- Broadcasting takes element `idx` of an operand at `idx % len`. The remainders are computed in
the order of the source, so an empty operand beside a nonempty one is a panic. -/
def assignEltwise (config : AssemblerConfig) (regs : Registers) (inputs : List RegisterRef) (op : EltwiseOp)
    (known : Bool) : Synth Fr AssemblerError RegisterCells := do
  let (aRef, bRef) ← Synth.ofExcept (twoInputs (.eltwiseInputCount 2) inputs)
  let aReg ← Synth.ofExcept (resolve regs aRef)
  let bReg ← Synth.ofExcept (resolve regs bRef)
  let lenA := aReg.values.length
  let lenB := bReg.values.length
  let outLen := max lenA lenB
  Synth.ensure (outLen ≠ 0) (.eltwiseLengthMismatch lenA lenB)
  Synth.check (lenA ≠ 0) "attempt to calculate the remainder with a divisor of zero"
  Synth.ensure (outLen % lenA = 0) (.eltwiseLengthMismatch lenA lenB)
  Synth.check (lenB ≠ 0) "attempt to calculate the remainder with a divisor of zero"
  Synth.ensure (outLen % lenB = 0) (.eltwiseLengthMismatch lenA lenB)
  let outs ← Synth.forEach (fun idx => config.assignElement op idx (aReg.values.getD (idx % lenA) default)
    (bReg.values.getD (idx % lenB) default) (aReg.cells.getD (idx % lenA) default)
    (bReg.cells.getD (idx % lenB) default) known) (List.range outLen)
  return ⟨outs.map Prod.fst, outs.map Prod.snd⟩

def assignRmsNorm (config : AssemblerConfig) (floats : Floats) (regs : Registers) (inputs : List RegisterRef)
    (dim epsilonMilli : UInt64) (known : Bool) : Synth Fr AssemblerError RegisterCells := do
  let (xRef, weightRef) ← Synth.ofExcept (twoInputs (.rmsNormInputCount 2) inputs)
  let xReg ← Synth.ofExcept (resolve regs xRef)
  let weightReg ← Synth.ofExcept (resolve regs weightRef)
  Synth.ensure (xReg.values.length = dim.toNat ∧ weightReg.values.length = dim.toNat)
    (.rmsNormShapeMismatch dim.toNat xReg.values.length weightReg.values.length)
  let rms ← Synth.ofExcept ((findKey (dim, epsilonMilli) config.rmsNorm).elim
    (.error (.unconfiguredRmsNorm dim epsilonMilli)) .ok)
  let domain ← Synth.unwrap "rsqrt domain" (rms.rsqrtDomain.table floats)
  let result ← (rms.assign domain xReg.values weightReg.values known).mapError .rmsNorm
  Synth.linkCells "assembler rms_norm input/weight links"
    (operandLinks result.inputCells result.weightCells xReg weightReg)
  let outs ← Synth.forEach (fun (i, v, cell) => config.assignOutput s!"assembler rms_norm {i} output link" v cell
    known) ((List.range result.outputs.length).zip (result.outputs.zip result.outputCells))
  return ⟨result.outputs, outs.map Prod.snd⟩

def assignInstruction (config : AssemblerConfig) (floats : Floats) (regs : Registers)
    (instr : AssemblerInstruction) (known : Bool) : Synth Fr AssemblerError RegisterCells :=
  match instr.instruction with
  | .dotGeneral m n k batchDims transA transB =>
      config.assignDotGeneral regs instr.inputs m n k batchDims transA transB known
  | .eltwise .add => config.assignEltwise regs instr.inputs .add known
  | .eltwise .mul => config.assignEltwise regs instr.inputs .mul known
  | .rmsNorm dim epsilonMilli => config.assignRmsNorm floats regs instr.inputs dim epsilonMilli known
  | other => Synth.fail (.unsupportedInstruction other)

/-- The instructions in order; each output becomes the next virtual register. -/
def assignInstructions (config : AssemblerConfig) (floats : Floats) (regs : Registers)
    (instructions : List AssemblerInstruction) (known : Bool) : Synth Fr AssemblerError (List RegisterCells) :=
  Synth.foldEach (fun virtuals instr => do
    let out ← config.assignInstruction floats { regs with virtuals } instr known
    return virtuals ++ [out]) regs.virtuals instructions

def assignTensors {ε : Type} (config : AssemblerConfig) (tensors : List (List I18)) (known : Bool) :
    Synth Fr ε (List RegisterCells) :=
  Synth.forEach (fun tensor => do
    let cells ← config.assignBoundary tensor known
    return ⟨tensor, cells⟩) tensors

/-- `assign_with_cells_with_witnesses`. The result holds the inputs, the weights and the virtual
registers. -/
def assign (config : AssemblerConfig) (floats : Floats) (order : HashOrder) (program : AssemblerProgram)
    (known : Bool) : Synth Fr AssemblerError Registers := do
  config.loadRangeTables order
  let inputs ← config.assignTensors program.inputValues known
  let weights ← config.assignTensors program.weightValues known
  let virtuals ← config.assignInstructions floats ⟨inputs, weights, []⟩ program.instructions known
  return ⟨inputs, weights, virtuals⟩

structure Installed (config : AssemblerConfig) (cs : ConstraintSystem Fr) : Prop where
  dot : ∀ entry ∈ config.dot, entry.2.Installed cs ∧ entry.2.k = entry.1.toNat
  add : config.add.Installed cs
  mul : config.mul.Installed cs
  rmsNorm : ∀ entry ∈ config.rmsNorm, entry.2.Installed cs ∧ entry.2.k = entry.1.1.toNat
  tables : config.rmsNorm.Pairwise fun entry entry' => entry.2.rsqrt.tableInput ≠ entry'.2.rsqrt.tableInput
  bridge : ⟨"assembler shift bridge", config.sBridge,
    bridgeGate config.bridgeUnshifted config.bridgeShifted⟩ ∈ cs.gates
  equality : ∀ c ∈ [config.boundary, config.bridgeUnshifted, config.bridgeShifted], c ∈ cs.equality
  distinct : config.bridgeUnshifted ≠ config.bridgeShifted
  publicInstance : ∀ c ∈ config.publicInstance, c ∈ cs.equality

/-- The normalisations are configured with the constants of their keys and the given domains. -/
def Constants (config : AssemblerConfig) (floats : Floats) (domains : RmsNormDomains) : Prop :=
  ∀ entry ∈ config.rmsNorm, floats.reciprocal entry.1.1 = some entry.2.reduceMean.reciprocal ∧
    floats.epsilon entry.1.2 = some entry.2.epsilon ∧
    entry.2.rsqrtDomain = (findKey entry.1 domains).getD rmsNormDefaultRsqrtDomain

section Configuration

variable {floats : Floats} {domains : RmsNormDomains} {bits : Column} {cs : ConstraintSystem Fr}

theorem configureDot_installed (hbits : cs.Allocated bits) (ks : List UInt64) :
    Configures (configureDot bits ks) cs fun dot cs' =>
      (∀ entry ∈ dot, entry.2.Installed cs' ∧ entry.2.k = entry.1.toNat) ∧ dot.map Prod.fst = ks := by
  unfold configureDot
  split
  · rename_i hks
    exact Configures.pure ⟨by simp, by simp [hks]⟩
  · refine Configures.of_columns 6 rfl fun cs₁ h₁ halloc => ?_
    have hnd := Configures.nodup_columns hbits 6
    refine Configures.configureEach (I := fun pre (done : List (UInt64 × DotProductConfig)) cs' =>
      (∀ entry ∈ done, entry.2.Installed cs' ∧ entry.2.k = entry.1.toNat) ∧ done.map Prod.fst = pre)
      (fun pre k done cs₂ h₂ ⟨hdone, hkeys⟩ => ?_) ⟨by simp, rfl⟩
    refine (DotProductConfig.configure_installed hnd fun c hc => ?_).bind fun dot cs₃ h₃ hdot => Configures.pure ?_
    · rcases List.mem_cons.mp hc with rfl | hc
      · exact hbits.mono (h₁.trans h₂)
      · exact (halloc c hc).mono h₂
    · refine ⟨List.forall_mem_append.mpr ⟨fun entry he => ?_, by simpa using hdot⟩, by simp [hkeys]⟩
      exact ⟨(hdone entry he).1.mono h₃, (hdone entry he).2⟩

theorem configureAdd_installed (hbits : cs.Allocated bits) :
    Configures (configureAdd bits) cs fun add cs' => add.Installed cs' :=
  Configures.of_columns 3 rfl fun _ _ _ => EltwiseAddConfig.configure_installed (Configures.nodup_columns hbits 3)

theorem configureMul_installed (hbits : cs.Allocated bits) :
    Configures (configureMul bits) cs fun mul cs' => mul.Installed cs' := by
  let c (i : ℕ) : Column := .advice (cs.numAdvice + i)
  refine Configures.of_columns (q := EltwiseMulConfig.configure (c 0) (c 1) (c 2) (c 3) (c 4) bits) 5 rfl
    fun cs₁ h₁ halloc => ?_
  refine (EltwiseMulConfig.configure_installed (Configures.nodup_columns hbits 5) fun c hc => ?_).mono
    fun _ _ _ h => h.1
  rcases List.mem_cons.mp hc with rfl | hc
  · exact hbits.mono h₁
  · exact halloc c hc

theorem configureRmsNorm_installed (hbits : cs.Allocated bits) (key : UInt64 × UInt64) :
    Configures (configureRmsNorm floats bits domains key) cs fun entry cs' =>
      (entry.2.Installed cs' ∧ entry.2.k = entry.1.1.toNat) ∧
      (floats.reciprocal entry.1.1 = some entry.2.reduceMean.reciprocal ∧
        floats.epsilon entry.1.2 = some entry.2.epsilon ∧
        entry.2.rsqrtDomain = (findKey entry.1 domains).getD rmsNormDefaultRsqrtDomain) ∧
      cs.numTables ≤ entry.2.rsqrt.tableInput ∧ entry.2.rsqrt.tableInput < cs'.numTables ∧ entry.1 = key := by
  let c (i : ℕ) : Column := .advice (cs.numAdvice + i)
  refine Configures.of_columns (q := do
    let config ← RmsNormConfig.configure floats ⟨c 0, c 1, c 2, c 3, c 4, c 5, c 6, c 7, c 8, c 9, c 10, c 11,
      c 12, c 13, c 14, c 15, c 16, c 17, c 18, c 19⟩ bits key.1 key.2
      ((findKey key domains).getD rmsNormDefaultRsqrtDomain)
    return (key, config)) 20 rfl fun cs₁ h₁ halloc => ?_
  refine (RmsNormConfig.configure_installed (Configures.nodup_columns hbits 20) fun c hc => ?_).bind
    fun rms cs₂ h₂ ⟨hrms, hk, hrecip, heps, hdom, hlow, hhigh⟩ => Configures.pure ?_
  · rcases List.mem_cons.mp hc with rfl | hc
    · exact hbits.mono h₁
    · exact halloc c hc
  · exact ⟨⟨hrms, hk⟩, ⟨hrecip, heps, hdom⟩, h₁.numTables.trans hlow, hhigh, rfl⟩

/-- What holds of the normalisations configured so far, for the keys `pre`. -/
structure RmsInvariant (floats : Floats) (domains : RmsNormDomains) (pre : List (UInt64 × UInt64))
    (done : List ((UInt64 × UInt64) × RmsNormConfig)) (cs : ConstraintSystem Fr) : Prop where
  installed : ∀ entry ∈ done, entry.2.Installed cs ∧ entry.2.k = entry.1.1.toNat
  constants : ∀ entry ∈ done, floats.reciprocal entry.1.1 = some entry.2.reduceMean.reciprocal ∧
    floats.epsilon entry.1.2 = some entry.2.epsilon ∧
    entry.2.rsqrtDomain = (findKey entry.1 domains).getD rmsNormDefaultRsqrtDomain
  bounded : ∀ entry ∈ done, entry.2.rsqrt.tableInput < cs.numTables
  tables : done.Pairwise fun entry entry' => entry.2.rsqrt.tableInput ≠ entry'.2.rsqrt.tableInput
  keys : done.map Prod.fst = pre

theorem configureRmsNorm_invariant (hbits : cs.Allocated bits) (keys : List (UInt64 × UInt64)) :
    Configures (configureEach (configureRmsNorm floats bits domains) keys) cs
      (RmsInvariant floats domains keys) := by
  refine Configures.configureEach (fun pre key done cs₁ h₁ hdone => ?_) ⟨by simp, by simp, by simp, .nil, rfl⟩
  refine (configureRmsNorm_installed (hbits.mono h₁) key).mono
    fun entry cs₂ h₂ ⟨hrms, hconst, hlow, hhigh, hkey⟩ => ?_
  have hold : ∀ e ∈ done, e.2.rsqrt.tableInput < entry.2.rsqrt.tableInput := fun e he =>
    (hdone.bounded e he).trans_le hlow
  refine ⟨List.forall_mem_append.mpr ⟨fun e he => ?_, by simpa using hrms⟩,
    List.forall_mem_append.mpr ⟨hdone.constants, by simpa using hconst⟩,
    List.forall_mem_append.mpr ⟨fun e he => (hold e he).trans hhigh, by simpa using hhigh⟩, ?_,
    by rw [List.map_append, hdone.keys, ← hkey]; rfl⟩
  · exact ⟨(hdone.installed e he).1.mono h₂, (hdone.installed e he).2⟩
  · refine List.pairwise_append.mpr ⟨hdone.tables, List.pairwise_singleton _ _, fun e he e' he' => ?_⟩
    rw [List.mem_singleton.mp he']
    exact (hold e he).ne

/-- The tables of all lookups, with the rows that their disabled rows look up. -/
def idles (config : AssemblerConfig) : List (List ℕ × List Fr) :=
  config.dot.flatMap (fun entry => [entry.2.rangeA.idle, entry.2.rangeB.idle]) ++
    ([config.mul.rangeA.idle, config.mul.rangeB.idle] ++
      config.rmsNorm.flatMap fun entry => [entry.2.mul.rangeA.idle, entry.2.mul.rangeB.idle, entry.2.rsqrt.idle])

theorem configureDot_adds (ks : List UInt64) (L : List (List ℕ × List Fr)) :
    Adds L (configureDot bits ks) fun dot =>
      L ++ dot.flatMap fun entry => [entry.2.rangeA.idle, entry.2.rangeB.idle] := by
  unfold configureDot
  split
  · exact Adds.pure (by simp)
  · let c (i j : ℕ) : Column := .advice (i + j)
    refine Adds.of_columns (q := fun i => configureEach (fun k => do
      let dot ← DotProductConfig.configure (c i 0) (c i 1) (c i 2) (c i 3) (c i 4) (c i 5) bits k
      return (k, dot)) ks) 6 (fun _ => rfl) fun i => Adds.configureEach fun k L => ?_
    exact (DotProductConfig.configure_adds _ _ _ _ _ _ _ k L).bind fun dot => Adds.pure rfl

theorem configureRmsNorm_adds (key : UInt64 × UInt64) (L : List (List ℕ × List Fr)) :
    Adds L (configureRmsNorm floats bits domains key) fun entry =>
      L ++ [entry.2.mul.rangeA.idle, entry.2.mul.rangeB.idle, entry.2.rsqrt.idle] := by
  let c (i j : ℕ) : Column := .advice (i + j)
  refine Adds.of_columns (q := fun i => do
    let config ← RmsNormConfig.configure floats ⟨c i 0, c i 1, c i 2, c i 3, c i 4, c i 5, c i 6, c i 7, c i 8, c i 9,
      c i 10, c i 11, c i 12, c i 13, c i 14, c i 15, c i 16, c i 17, c i 18, c i 19⟩ bits key.1 key.2
      ((findKey key domains).getD rmsNormDefaultRsqrtDomain)
    return (key, config)) 20 (fun _ => rfl) fun i => ?_
  exact (RmsNormConfig.configure_adds _ _ _ _ _ _ L).bind fun config => Adds.pure rfl

theorem configureAdd_adds (L : List (List ℕ × List Fr)) : Adds L (configureAdd bits) fun _ => L :=
  Adds.of_columns (q := fun i => EltwiseAddConfig.configure (.advice (i + 0)) (.advice (i + 1)) (.advice (i + 2)) bits) 3
    (fun _ => rfl) fun _ => EltwiseAddConfig.configure_adds _ _ _ _ L

theorem configureMul_adds (L : List (List ℕ × List Fr)) :
    Adds L (configureMul bits) fun mul => L ++ [mul.rangeA.idle, mul.rangeB.idle] :=
  Adds.of_columns (q := fun i => EltwiseMulConfig.configure (.advice (i + 0)) (.advice (i + 1)) (.advice (i + 2))
    (.advice (i + 3)) (.advice (i + 4)) bits) 5 (fun _ => rfl) fun _ => EltwiseMulConfig.configure_adds _ _ _ _ _ _ L

/-- Configuration adds the lookups of the chips and no others. -/
theorem configureInternal_adds (instructions : List AssemblerInstruction) (exposePublicInstances : Bool) :
    Adds [] (configureInternal floats instructions domains exposePublicInstances) idles := by
  refine Adds.adviceColumn.bind fun bits => (configureDot_adds _ _).bind fun dot => ?_
  refine (configureAdd_adds _).bind fun add => (configureMul_adds _).bind fun mul => ?_
  refine (Adds.configureEach fun key L => configureRmsNorm_adds key L).bind fun rms => ?_
  rintro cs config cs' h hL
  have hidles : cs.lookups.map Lookup.idle = dot.flatMap (fun entry => [entry.2.rangeA.idle, entry.2.rangeB.idle]) ++
    ([mul.rangeA.idle, mul.rangeB.idle] ++ rms.flatMap fun entry =>
      [entry.2.mul.rangeA.idle, entry.2.mul.rangeB.idle, entry.2.rsqrt.idle]) := by
    rw [hL]
    simp
  cases exposePublicInstances with
  | false => cases h; exact hidles
  | true => cases h; exact hidles

theorem configureInternal_installed (instructions : List AssemblerInstruction) (exposePublicInstances : Bool) :
    Configures (configureInternal floats instructions domains exposePublicInstances) cs fun config cs' =>
      config.Installed cs' ∧ config.Constants floats domains ∧
        config.dot.map Prod.fst = dotKs instructions ∧ config.rmsNorm.map Prod.fst = rmsNormKeys instructions ∧
        (exposePublicInstances → config.publicInstance.isSome) := by
  refine Configures.adviceColumn.bind fun bits cs₁ _ ⟨hbits, _⟩ => ?_
  refine (configureDot_installed hbits _).bind fun dot cs₂ h₂ ⟨hdot, hks⟩ => ?_
  refine (configureAdd_installed (hbits.mono h₂)).bind fun add cs₃ h₃ hadd => ?_
  refine (configureMul_installed (hbits.mono (h₂.trans h₃))).bind fun mul cs₄ h₄ hmul => ?_
  have hbits₄ := hbits.mono ((h₂.trans h₃).trans h₄)
  refine (configureRmsNorm_invariant hbits₄ _).bind fun rms cs₅ h₅ hrms => ?_
  refine Configures.adviceColumn.bind fun boundary cs₆ h₆ _ => ?_
  refine (Configures.enableEquality boundary).bind fun _ cs₇ h₇ hboundary => ?_
  refine Configures.adviceColumn.bind fun unshifted cs₈ h₈ ⟨hunshifted, _⟩ => ?_
  refine Configures.adviceColumn.bind fun shifted cs₉ h₉ ⟨_, hshifted⟩ => ?_
  refine (Configures.enableEquality unshifted).bind fun _ cs₁₀ h₁₀ heq => ?_
  refine (Configures.enableEquality shifted).bind fun _ cs₁₁ h₁₁ heq' => ?_
  refine Configures.bind (Q := fun c cs' => (∀ d ∈ c, d ∈ cs'.equality) ∧ (exposePublicInstances → c.isSome)) ?_
    fun publicInstance cs₁₂ h₁₂ hpublic => ?_
  · cases exposePublicInstances with
    | false => exact Configures.pure ⟨by simp, by simp⟩
    | true =>
        refine Configures.instanceColumn.bind fun c _ _ _ => ?_
        exact (Configures.enableEquality c).bind fun _ _ _ hc => Configures.pure ⟨by simpa using hc, by simp⟩
  refine Configures.gate _ _ fun cs₁₃ h₁₃ hbridge => Configures.pure ?_
  have t₁₁ := h₁₂.trans h₁₃
  have t₁₀ := h₁₁.trans t₁₁
  have t₇ := (h₈.trans h₉).trans (h₁₀.trans t₁₀)
  have t₅ := (h₆.trans h₇).trans t₇
  have t₄ := h₅.trans t₅
  have t₂ := (h₃.trans h₄).trans t₄
  refine ⟨?_, hrms.constants, hks, hrms.keys, hpublic.2⟩
  exact
    { dot := fun entry he => ⟨(hdot entry he).1.mono t₂, (hdot entry he).2⟩
      add := hadd.mono (h₄.trans t₄)
      mul := hmul.mono t₄
      rmsNorm := fun entry he => ⟨(hrms.installed entry he).1.mono t₅, (hrms.installed entry he).2⟩
      tables := hrms.tables
      bridge := hbridge
      equality := by
        simp only [List.forall_mem_cons, List.not_mem_nil, false_implies, implies_true, and_true]
        exact ⟨t₇.equality hboundary, t₁₀.equality heq, t₁₁.equality heq'⟩
      distinct := hshifted unshifted hunshifted
      publicInstance := fun c hc => h₁₃.equality (hpublic.1 c hc) }

end Configuration

end AssemblerConfig

end Zkie.Assembler
