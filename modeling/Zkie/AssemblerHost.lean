import Zkie.AssemblerComplete

namespace Zkie.Assembler

open ScalarField FixedPoint Plonkish Synthesis Satisfaction HostRun RangeCheck DotProduct Eltwise Lookup RmsNorm Isa

/-- The host values of the registers, without their cells. -/
structure Values where
  inputs : List (List I18)
  weights : List (List I18)
  virtuals : List (List I18)
  deriving DecidableEq, Repr

def Values.get? (values : Values) : RegisterRef → Option (List I18)
  | .input i => values.inputs[i.toNat]?
  | .weight i => values.weights[i.toNat]?
  | .virtual i => values.virtuals[i.toNat]?

def Registers.toValues (regs : Registers) : Values :=
  ⟨regs.inputs.map RegisterCells.values, regs.weights.map RegisterCells.values,
    regs.virtuals.map RegisterCells.values⟩

theorem Registers.toValues_get? (regs : Registers) (ref : RegisterRef) :
    regs.toValues.get? ref = (regs.get? ref).map RegisterCells.values := by
  cases ref <;> simp [Registers.toValues, Values.get?, Registers.get?]

/-- The value of a dot product whose partial sums fit an `i128`. With a witness, the sums are also
converted, which excludes `i128::MIN`. -/
def hostDot (known : Bool) (a b : List I18) : Option I18 :=
  if SumsFit a b ∧ (known = true → ∀ i < a.length, partialSum a b (i + 1) ≠ i128Min) then dotFloor a b else none

/-- The lengths that `assign_eltwise` accepts. -/
def Broadcastable (lenA lenB : ℕ) : Prop :=
  lenA ≠ 0 ∧ max lenA lenB % lenA = 0 ∧ lenB ≠ 0 ∧ max lenA lenB % lenB = 0

instance (lenA lenB : ℕ) : Decidable (Broadcastable lenA lenB) := inferInstanceAs (Decidable (_ ∧ _))

/-- The shapes and sizes that `assign_dot_general` accepts. -/
def DotShape (config : AssemblerConfig) (m n k : UInt64) (lenA lenB : ℕ) : Prop :=
  m.toNat * k.toNat < 2 ^ 64 ∧ k.toNat * n.toNat < 2 ^ 64 ∧
    (lenA = m.toNat * k.toNat ∧ lenB = k.toNat * n.toNat) ∧ (findKey k config.dot).isSome ∧ m.toNat * n.toNat < 2 ^ 64

instance (config : AssemblerConfig) (m n k : UInt64) (lenA lenB : ℕ) : Decidable (DotShape config m n k lenA lenB) :=
  inferInstanceAs (Decidable (_ ∧ _))

namespace AssemblerConfig

/-- The value of an instruction on its operands, or nothing where the assembler fails. -/
def hostBinary (config : AssemblerConfig) (floats : Floats) (known : Bool) (a b : List I18) :
    Instruction → Option (List I18)
  | .dotGeneral m n k batchDims transA transB =>
      if batchDims = [] ∧ DotShape config m n k a.length b.length then
        (positions m.toNat n.toNat).mapM fun p => hostDot known (pick a (rowA m.toNat k.toNat transA p.1))
          (pick b (columnB n.toNat k.toNat transB p.2))
      else none
  | .eltwise .add => if Broadcastable a.length b.length then broadcast checkedAdd a b else none
  | .eltwise .mul => if Broadcastable a.length b.length then broadcast mulFloor a b else none
  | .rmsNorm dim epsilonMilli =>
      if a.length = dim.toNat ∧ b.length = dim.toNat then do
        let rms ← findKey (dim, epsilonMilli) config.rmsNorm
        let domain ← rms.rsqrtDomain.table floats
        RmsNorm.rmsNorm rms.reduceMean.reciprocal rms.epsilon domain a b
      else none
  | _ => none

/-- The two operands of an instruction, by value. -/
def hostOperands (values : Values) (f : List I18 → List I18 → Option (List I18)) :
    List RegisterRef → Option (List I18)
  | [aRef, bRef] => do
      let a ← values.get? aRef
      let b ← values.get? bRef
      f a b
  | _ => none

def hostInstruction (config : AssemblerConfig) (floats : Floats) (known : Bool) (values : Values)
    (instr : AssemblerInstruction) : Option (List I18) :=
  hostOperands values (fun a b => config.hostBinary floats known a b instr.instruction) instr.inputs

/-- The values of the virtual registers after some instructions. -/
def hostInstructions (config : AssemblerConfig) (floats : Floats) (known : Bool) (values : Values)
    (instructions : List AssemblerInstruction) : Option (List (List I18)) :=
  instructions.foldlM (fun virtuals instr => do
    let out ← config.hostInstruction floats known { values with virtuals } instr
    return virtuals ++ [out]) values.virtuals

def hostProgram (config : AssemblerConfig) (floats : Floats) (known : Bool) (program : AssemblerProgram) :
    Option (List (List I18)) :=
  config.hostInstructions floats known ⟨program.inputValues, program.weightValues, []⟩ program.instructions

variable {ε : Type} {config : AssemblerConfig} {cs : ConstraintSystem Fr} {known : Bool} {floats : Floats}

theorem assignBridge_decides (v : I18) : Decides (config.assignBridge (ε := ε) v known) True fun _ => True :=
  Decides.region (assignBridge_lays v)

theorem assignOutput_decides (link : String) (v : I18) (output : AssignedCell Fr) :
    Decides (config.assignOutput (ε := ε) link v output known) True fun c => c.1 = v := by
  refine Decides.iff (c := True ∧ True ∧ True) (P := fun c => c.1 = v) ?_ (by simp) fun _ _ => id
  exact (assignBridge_decides v).bind fun _ _ => Decides.linkCells.bind fun _ _ => Decides.pure rfl

theorem assignOperand_decides (link : String) (v : I18) (cell : AssignedCell Fr) :
    Decides (config.assignOperand (ε := ε) link v cell known) True fun _ => True :=
  ((assignBridge_decides v).bind fun _ _ => Decides.linkCells.bind fun _ _ => Decides.pure trivial).iff (by simp)
    fun _ _ => id

theorem requantizeRaw_ok_iff {v : ℤ} {q : I18} : (∃ r, requantizeRaw v = .ok (q, r)) ↔ I18.ofInt? (v / scale18) = some q := by
  rw [ofInt?_eq_some]
  constructor
  · rintro ⟨r, hr⟩
    exact (requantizeRaw_eq_ok.mp hr).1
  · intro hq
    exact ⟨_, requantizeRaw_eq_ok.mpr ⟨hq, rfl⟩⟩

theorem hostDot_eq_some {a b : List I18} {q : I18} : hostDot known a b = some q ↔ (SumsFit a b ∧
    (known = true → ∀ i < a.length, partialSum a b (i + 1) ≠ i128Min)) ∧ dotFloor a b = some q := by
  unfold hostDot
  split
  · simp_all
  · simp_all

theorem rowFits_iff {dot : DotProductConfig} {a b : List I18} (ha : a.length = dot.k) (hb : b.length = dot.k) :
    DotProductConfig.RowFits dot a b known ↔ (hostDot known a b).isSome := by
  have hneg : ¬DotProductConfig.Negates dot a b known ↔
      (known = true → ∀ i < a.length, partialSum a b (i + 1) ≠ i128Min) := by
    rw [DotProductConfig.Negates, ha]
    push Not
    rfl
  have hfloor : (requantizeRaw (dotSum a b)).toOption.isSome ↔ ∃ q, dotFloor a b = some q := by
    simp only [Option.isSome_iff_exists, toOption_eq_some, dotFloor, ← requantizeRaw_ok_iff]
    exact ⟨fun ⟨⟨q, r⟩, h⟩ => ⟨q, r, h⟩, fun ⟨q, r, h⟩ => ⟨(q, r), h⟩⟩
  simp only [DotProductConfig.RowFits, ha, hb, hneg, hfloor, Option.isSome_iff_exists, hostDot_eq_some]
  constructor
  · rintro ⟨-, -, hs, ⟨q, hq⟩, hn⟩
    exact ⟨q, ⟨hs, hn⟩, hq⟩
  · rintro ⟨q, ⟨hs, hn⟩, hq⟩
    exact ⟨trivial, trivial, hs, ⟨q, hq⟩, hn⟩

theorem assignDotElement_decides {dot : DotProductConfig} (hdot : dot.Installed cs) (i j : ℕ) {a b : RegisterCells}
    (ha : a.values.length = dot.k) (hb : b.values.length = dot.k) :
    Decides (config.assignDotElement dot i j a b known) (True ∧ (hostDot known a.values b.values).isSome)
      fun c => hostDot known a.values b.values = some c.1 := by
  refine Decides.iff (c := SumsFit a.values b.values ∧ (∃ qr, requantizeRaw (dotSum a.values b.values) = .ok qr) ∧
    DotProductConfig.RowFits dot a.values b.values known ∧ True ∧ True)
    (P := fun c => dotFloor a.values b.values = some c.1) ?_ ?_ fun h c hc => ?_
  · refine Decides.check.bind fun _ _ => Decides.bind (Decides.mapError (Decides.ofExcept fun _ h => h))
      fun ⟨q, r⟩ hq => (DotProductConfig.assignDotRow_decides hdot).bind fun _ _ => Decides.linkCells.bind fun _ _ =>
        (assignOutput_decides _ q _).mono fun c hc => ?_
    rw [hc]
    exact requantizeRaw_ok_iff.mp ⟨r, hq⟩
  · rw [rowFits_iff ha hb]
    constructor
    · rintro ⟨-, -, h, -⟩
      exact ⟨trivial, h⟩
    · rintro ⟨-, h⟩
      obtain ⟨q, hq⟩ := Option.isSome_iff_exists.mp h
      obtain ⟨⟨hs, -⟩, hq⟩ := hostDot_eq_some.mp hq
      obtain ⟨r, hr⟩ := requantizeRaw_ok_iff.mpr hq
      exact ⟨hs, ⟨_, hr⟩, h, trivial, trivial⟩
  · obtain ⟨q, hq⟩ := Option.isSome_iff_exists.mp h.2
    exact hostDot_eq_some.mpr ⟨(hostDot_eq_some.mp hq).1, hc⟩

theorem assignElement_decides (h : config.Installed cs) (op : EltwiseOp) (idx : ℕ) (a b : I18)
    (aCell bCell : AssignedCell Fr) :
    Decides (config.assignElement op idx a b aCell bCell known) (True ∧ (hostOp op a b).isSome)
      fun c => hostOp op a b = some c.1 := by
  cases op with
  | add =>
      refine Decides.iff (c := (∃ c, (checkedAdd a b).elim (.error (AssemblerError.overflow .eltwiseAdd)) Except.ok =
        .ok c) ∧ True ∧ True ∧ (checkedAdd a b).isSome ∧ True ∧ True) (P := fun c => checkedAdd a b = some c.1) ?_ ?_ fun _ _ => id
      · refine Decides.bind (Decides.ofExcept fun c hc => elim_eq_ok hc) fun c hc => ?_
        refine (assignOperand_decides _ a aCell).bind fun _ _ => (assignOperand_decides _ b bCell).bind fun _ _ => ?_
        refine (EltwiseAddConfig.assignAddRow_decides h.add a b known).bind fun _ _ => Decides.linkCells.bind fun _ _ => ?_
        exact (assignOutput_decides _ c _).mono fun out hout => by rw [hout, hc]
      · rw [hostOp]
        cases checkedAdd a b <;> simp
  | mul =>
      refine Decides.iff (c := (∃ qr, requantizeMul a b = .ok qr) ∧ (requantizeMul a b).toOption.isSome ∧ True ∧ True)
        (P := fun c => mulFloor a b = some c.1) ?_ ?_ fun _ _ => id
      · refine Decides.bind (Decides.mapError (Decides.ofExcept fun _ h => h)) fun ⟨q, r⟩ hq => ?_
        refine (EltwiseMulConfig.assignMulRow_decides h.mul a b known).bind fun _ _ => Decides.linkCells.bind fun _ _ => ?_
        refine (assignOutput_decides _ q _).mono fun out hout => ?_
        rw [hout, mulFloor, toOption_eq_some.mpr hq, Option.map_some]
      · rw [hostOp, mulFloor]
        cases requantizeMul a b <;> simp [Except.toOption]
  | relu => exact Decides.fail.iff (by simp [hostOp]) fun _ _ => id

/-- Resolving the operands succeeds as it does on values. -/
theorem operands_decides {regs : Registers} {inputs : List RegisterRef} {e : ℕ → AssemblerError}
    {f : RegisterCells → RegisterCells → Synth Fr AssemblerError RegisterCells}
    {v : List I18 → List I18 → Option (List I18)}
    (hf : ∀ a b, Decides (f a b) (True ∧ (v a.values b.values).isSome) fun out => v a.values b.values = some out.values) :
    Decides (do
      let (aRef, bRef) ← Synth.ofExcept (twoInputs e inputs)
      let a ← Synth.ofExcept (resolve regs aRef)
      let b ← Synth.ofExcept (resolve regs bRef)
      f a b) (True ∧ (hostOperands regs.toValues v inputs).isSome)
      fun out => hostOperands regs.toValues v inputs = some out.values := by
  by_cases htwo : ∃ aRef bRef, inputs = [aRef, bRef]
  · obtain ⟨aRef, bRef, rfl⟩ := htwo
    have hval : hostOperands regs.toValues v [aRef, bRef] =
        (regs.get? aRef).bind fun a => (regs.get? bRef).bind fun b => v a.values b.values := by
      simp only [hostOperands, Registers.toValues_get?, Option.bind_eq_bind, Option.bind_map]
      rfl
    rw [hval]
    refine Decides.iff (c := True ∧ True ∧ _) (P := fun out => _ = some out.values) ?_ (by rw [true_and]) fun _ _ => id
    refine Decides.bind (P := fun p => p = (aRef, bRef)) (Decides.pure rfl) fun p hp => ?_
    subst hp
    exact Decides.elim_bind fun a _ => Decides.elim_bind fun b _ => hf a b
  · have hnone : hostOperands regs.toValues v inputs = none := by
      unfold hostOperands
      split
      · exact absurd ⟨_, _, rfl⟩ htwo
      · rfl
    rw [hnone]
    refine (Decides.of_fails (Fails.bind_left fun n r hrun => htwo ?_)).iff (by simp) fun _ _ => id
    cases htwo' : twoInputs e inputs with
    | error _ => rw [htwo'] at hrun; cases hrun
    | ok p => exact ⟨_, _, twoInputs_eq_ok htwo'⟩

theorem forEach_values {α : Type} {f : α → Synth Fr AssemblerError (I18 × AssignedCell Fr)} {v : α → Option I18}
    {xs : List α} (h : ∀ x ∈ xs, Decides (f x) (True ∧ (v x).isSome) fun c => v x = some c.1) :
    Decides (do
      let outs ← Synth.forEach f xs
      return (⟨outs.map Prod.fst, outs.map Prod.snd⟩ : RegisterCells)) (True ∧ (xs.mapM v).isSome)
      fun out => xs.mapM v = some out.values := by
  refine Decides.iff (c := (True ∧ (xs.mapM v).isSome) ∧ True) (P := fun out => xs.mapM v = some out.values) ?_
    (by simp) fun _ _ => id
  exact (Decides.forEach_some h).bind fun outs houts => Decides.pure houts

theorem ite_broadcastable {lenA lenB : ℕ} {γ : Type} (v : Option γ) : (if Broadcastable lenA lenB then v else none) =
    if max lenA lenB ≠ 0 then if lenA ≠ 0 then if max lenA lenB % lenA = 0 then if lenB ≠ 0 then
      if max lenA lenB % lenB = 0 then v else none else none else none else none else none := by
  by_cases h : Broadcastable lenA lenB
  · have hmax : max lenA lenB ≠ 0 := by have := h.1; omega
    rw [if_pos h, if_pos hmax, if_pos h.1, if_pos h.2.1, if_pos h.2.2.1, if_pos h.2.2.2]
  · rw [if_neg h]
    split_ifs with h₁ h₂ h₃ h₄ h₅
    · exact absurd ⟨h₂, h₃, h₄, h₅⟩ h
    all_goals rfl

theorem ite_dotShape {m n k : UInt64} {lenA lenB : ℕ} {γ : Type} (v : Option γ) :
    (if DotShape config m n k lenA lenB then v else none) =
    if m.toNat * k.toNat < 2 ^ 64 then if k.toNat * n.toNat < 2 ^ 64 then
      if lenA = m.toNat * k.toNat ∧ lenB = k.toNat * n.toNat then (findKey k config.dot).bind fun _ =>
        if m.toNat * n.toNat < 2 ^ 64 then v else none else none else none else none := by
  by_cases h : DotShape config m n k lenA lenB
  · obtain ⟨h₁, h₂, h₃, h₄, h₅⟩ := h
    obtain ⟨dot, hdot⟩ := Option.isSome_iff_exists.mp h₄
    rw [if_pos ⟨h₁, h₂, h₃, h₄, h₅⟩, if_pos h₁, if_pos h₂, if_pos h₃, hdot, Option.bind_some, if_pos h₅]
  · rw [if_neg h]
    cases hdot : findKey k config.dot with
    | none => simp
    | some dot =>
        rw [Option.bind_some]
        split_ifs with h₁ h₂ h₃ h₅
        · exact absurd ⟨h₁, h₂, h₃, by rw [hdot]; rfl, h₅⟩ h
        all_goals rfl

theorem hostOperands_none (values : Values) (inputs : List RegisterRef) :
    hostOperands values (fun _ _ => none) inputs = none := by
  unfold hostOperands
  split
  · cases values.get? _ <;> cases values.get? _ <;> rfl
  · rfl

theorem assignDotGeneral_decides (h : config.Installed cs) (regs : Registers) (inputs : List RegisterRef)
    (m n k : UInt64) (batchDims : List UInt64) (transA transB : Bool) :
    Decides (config.assignDotGeneral regs inputs m n k batchDims transA transB known)
      (True ∧ (config.hostInstruction floats known regs.toValues
        ⟨.dotGeneral m n k batchDims transA transB, inputs⟩).isSome)
      fun out => config.hostInstruction floats known regs.toValues
        ⟨.dotGeneral m n k batchDims transA transB, inputs⟩ = some out.values := by
  have hval : config.hostInstruction floats known regs.toValues ⟨.dotGeneral m n k batchDims transA transB, inputs⟩ =
      if batchDims = [] then hostOperands regs.toValues (fun a b =>
        config.hostBinary floats known a b (.dotGeneral m n k [] transA transB)) inputs else none := by
    split
    · rename_i hb
      rw [hb]
      rfl
    · rename_i hb
      simp only [hostInstruction, hostBinary, hb, false_and, if_false]
      exact hostOperands_none _ _
  rw [hval]
  refine Decides.guard Decides.ensure fun hb => operands_decides fun a b => ?_
  simp only [hostBinary, true_and]
  rw [ite_dotShape, ← true_and (Option.isSome _ = true)]
  refine Decides.guard Decides.check fun _ => ?_
  refine Decides.guard Decides.check fun _ => Decides.guard Decides.ensure fun _ => Decides.elim_bind fun dot hdot => ?_
  obtain ⟨hinst, hk⟩ := h.dot _ (findKey_mem hdot)
  simp only at hinst hk
  refine Decides.guard Decides.check fun _ => forEach_values fun p _ => ?_
  exact assignDotElement_decides hinst p.1 p.2 (by simp [RegisterCells.pick, pick, rowA, hk])
    (by simp [RegisterCells.pick, pick, columnB, hk])

theorem assignEltwise_decides (h : config.Installed cs) (regs : Registers) (inputs : List RegisterRef)
    (op : EltwiseOp) :
    Decides (config.assignEltwise regs inputs op known)
      (True ∧ (hostOperands regs.toValues (fun a b => if Broadcastable a.length b.length then
        broadcast (hostOp op) a b else none) inputs).isSome)
      fun out => hostOperands regs.toValues (fun a b => if Broadcastable a.length b.length then
        broadcast (hostOp op) a b else none) inputs = some out.values := by
  refine operands_decides fun a b => ?_
  rw [ite_broadcastable]
  refine Decides.guard Decides.ensure fun _ => Decides.guard Decides.check fun _ => ?_
  refine Decides.guard Decides.ensure fun _ => Decides.guard Decides.check fun _ => ?_
  refine Decides.guard Decides.ensure fun _ => forEach_values fun idx _ => ?_
  exact assignElement_decides h op idx _ _ _ _

theorem assignRmsNorm_decides (h : config.Installed cs) (regs : Registers) (inputs : List RegisterRef)
    (dim epsilonMilli : UInt64) :
    Decides (config.assignRmsNorm floats regs inputs dim epsilonMilli known)
      (True ∧ (config.hostInstruction floats known regs.toValues ⟨.rmsNorm dim epsilonMilli, inputs⟩).isSome)
      fun out => config.hostInstruction floats known regs.toValues ⟨.rmsNorm dim epsilonMilli, inputs⟩ =
        some out.values := by
  refine operands_decides fun x w => Decides.guard Decides.ensure fun ⟨hx, hw⟩ => ?_
  refine Decides.elim_bind fun rms hrms => Decides.unwrap_some fun domain hdomain => ?_
  obtain ⟨hinst, hk⟩ := h.rmsNorm _ (findKey_mem hrms)
  simp only at hinst hk
  let v := RmsNorm.rmsNorm rms.reduceMean.reciprocal rms.epsilon domain x.values w.values
  refine Decides.iff (c := ((x.values.length = rms.k ∧ w.values.length = rms.k) ∧ v.isSome) ∧ True ∧ True ∧ True)
    (P := fun out => v = some out.values) ?_ ?_ fun _ _ => id
  · refine (Decides.mapError (RmsNormConfig.assign_decides hinst domain x.values w.values)).bind fun result hres => ?_
    refine Decides.linkCells.bind fun _ _ => Decides.bind (Decides.forEach_always fun p _ => ?_) fun outs _ =>
      Decides.pure hres
    exact (assignOutput_decides _ _ _).mono fun _ _ => trivial
  · simp [hx, hw, hk, v]

theorem assignInstruction_decides (h : config.Installed cs) (regs : Registers) (instr : AssemblerInstruction) :
    Decides (config.assignInstruction floats regs instr known)
      (True ∧ (config.hostInstruction floats known regs.toValues instr).isSome)
      fun out => config.hostInstruction floats known regs.toValues instr = some out.values := by
  obtain ⟨instruction, inputs⟩ := instr
  have hunsupported : ∀ {e : AssemblerError}, Decides (F := Fr) (Synth.fail e)
      (True ∧ (hostOperands regs.toValues (fun _ _ => none) inputs).isSome)
      fun out : RegisterCells => hostOperands regs.toValues (fun _ _ => none) inputs = some out.values :=
    Decides.fail.iff (by simp [hostOperands_none]) fun _ _ => id
  cases instruction with
  | dotGeneral m n k batchDims transA transB => exact assignDotGeneral_decides h regs inputs m n k batchDims transA transB
  | eltwise op =>
      cases op with
      | add => exact assignEltwise_decides h regs inputs .add
      | mul => exact assignEltwise_decides h regs inputs .mul
      | relu => exact hunsupported
  | rmsNorm dim epsilonMilli => exact assignRmsNorm_decides h regs inputs dim epsilonMilli
  | softmax | gelu | layerNorm | reduce | embedLookup | patchEmbed => exact hunsupported

theorem assignInstructions_decides (h : config.Installed cs) (regs : Registers)
    (instructions : List AssemblerInstruction) :
    Decides (config.assignInstructions floats regs instructions known)
      (True ∧ (config.hostInstructions floats known regs.toValues instructions).isSome)
      fun virtuals => config.hostInstructions floats known regs.toValues instructions =
        some (virtuals.map RegisterCells.values) := by
  refine Decides.foldEach_some (g := fun virtuals => virtuals.map RegisterCells.values) (fun virtuals instr _ => ?_)
    regs.virtuals
  have hstep : Decides (config.assignInstruction floats { regs with virtuals } instr known) _ _ :=
    assignInstruction_decides h { regs with virtuals } instr
  change Decides _ (True ∧ ((config.hostInstruction floats known (Registers.toValues { regs with virtuals }) instr).bind
    fun out => some (virtuals.map RegisterCells.values ++ [out])).isSome) fun virtuals' =>
      ((config.hostInstruction floats known (Registers.toValues { regs with virtuals }) instr).bind
    fun out => some (virtuals.map RegisterCells.values ++ [out])) = some (List.map RegisterCells.values virtuals')
  generalize config.hostInstruction floats known (Registers.toValues { regs with virtuals }) instr = v at hstep ⊢
  refine Decides.iff (c := (True ∧ v.isSome) ∧ True) (P := fun virtuals' => (v.bind fun out =>
    some (virtuals.map RegisterCells.values ++ [out])) = some (virtuals'.map RegisterCells.values)) ?_
    (by cases v <;> simp) fun _ _ => id
  exact hstep.bind fun out hout => Decides.pure (by simp [hout])

theorem assignTensors_decides (tensors : List (List I18)) :
    Decides (config.assignTensors (ε := ε) tensors known) True
      fun regs => regs.map RegisterCells.values = tensors := by
  refine (Decides.forEach (c := fun _ => True) (Q := fun tensor reg => reg.values = tensor) fun tensor _ => ?_).iff
    (by simp) fun _ regs hregs => ?_
  · refine Decides.iff (c := True ∧ True) (P := fun reg => reg.values = tensor) ?_ (by simp) fun _ _ => id
    exact (Decides.region (assignBoundary_lays tensor)).bind fun _ _ => Decides.pure rfl
  · exact List.forall₂_eq_eq_eq ▸ List.forall₂_map_left_iff.mpr hregs.flip

/-- A program is laid down exactly when its instructions have values on the host. -/
theorem assign_decides (h : config.Installed cs) (order : HashOrder) (program : AssemblerProgram) :
    Decides (config.assign floats order program known)
      (True ∧ (config.hostProgram floats known program).isSome)
      fun regs => regs.inputs.map RegisterCells.values = program.inputValues ∧
        regs.weights.map RegisterCells.values = program.weightValues ∧
        config.hostProgram floats known program = some (regs.virtuals.map RegisterCells.values) := by
  refine Decides.iff (c := True ∧ True ∧ True ∧ (True ∧ (config.hostProgram floats known program).isSome) ∧ True)
    (P := fun regs => regs.inputs.map RegisterCells.values = program.inputValues ∧
        regs.weights.map RegisterCells.values = program.weightValues ∧
        config.hostProgram floats known program = some (regs.virtuals.map RegisterCells.values))
    ?_ (by simp) fun _ _ => id
  refine Decides.bind (Decides.of_emits (loadRangeTables_emits order) (P := fun _ => True) trivial) fun _ _ => ?_
  refine (assignTensors_decides program.inputValues).bind fun inputs hinputs => ?_
  refine (assignTensors_decides program.weightValues).bind fun weights hweights => ?_
  have hrun : Decides (config.assignInstructions floats ⟨inputs, weights, []⟩ program.instructions known) _ _ :=
    assignInstructions_decides h ⟨inputs, weights, []⟩ program.instructions
  simp only [Registers.toValues, hinputs, hweights, List.map_nil] at hrun
  exact hrun.bind fun virtuals hv => Decides.pure ⟨hinputs, hweights, hv⟩

end AssemblerConfig

end Zkie.Assembler
