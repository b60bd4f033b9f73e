import Zkie.AssemblerHost

namespace Zkie.Assembler

open ScalarField FixedPoint Plonkish Synthesis Satisfaction Skeleton RangeCheck DotProduct Eltwise Lookup RmsNorm Isa

/-- Two registers with the same cells, up to the values they hold. -/
structure SameShape (reg reg' : RegisterCells) : Prop where
  cells : SameCells reg.cells reg'.cells
  values : reg.values.length = reg'.values.length

structure SameRegisters (regs regs' : Registers) : Prop where
  inputs : List.Forall₂ SameShape regs.inputs regs'.inputs
  weights : List.Forall₂ SameShape regs.weights regs'.weights
  virtuals : List.Forall₂ SameShape regs.virtuals regs'.virtuals

theorem forall₂_getElem? {α β : Type} {R : α → β → Prop} {xs : List α} {ys : List β} (h : List.Forall₂ R xs ys)
    {i : ℕ} {x : α} {y : β} (hx : xs[i]? = some x) (hy : ys[i]? = some y) : R x y := by
  obtain ⟨hi, rfl⟩ := List.getElem?_eq_some_iff.mp hx
  obtain ⟨hj, rfl⟩ := List.getElem?_eq_some_iff.mp hy
  exact (List.forall₂_iff_get.mp h).2 i hi hj

theorem SameRegisters.get? {regs regs' : Registers} (h : SameRegisters regs regs') {ref : RegisterRef}
    {reg reg' : RegisterCells} (hreg : regs.get? ref = some reg) (hreg' : regs'.get? ref = some reg') :
    SameShape reg reg' := by
  cases ref with
  | input i => exact forall₂_getElem? h.inputs hreg hreg'
  | weight i => exact forall₂_getElem? h.weights hreg hreg'
  | virtual i => exact forall₂_getElem? h.virtuals hreg hreg'

theorem SameShape.pick {reg reg' : RegisterCells} (h : SameShape reg reg') (indices : List ℕ) :
    SameShape (reg.pick indices) (reg'.pick indices) where
  cells := by
    rw [SameCells, RegisterCells.pick, RegisterCells.pick, List.forall₂_map_left_iff, List.forall₂_map_right_iff,
      List.forall₂_same]
    exact fun t _ => h.cells.getD t _
  values := by simp [RegisterCells.pick, Isa.pick]

theorem operandLinks_agree {aCells aCells' bCells bCells' : List (AssignedCell Fr)} {a a' b b' : RegisterCells}
    (haCells : SameCells aCells aCells') (hbCells : SameCells bCells bCells') (ha : SameShape a a')
    (hb : SameShape b b') :
    List.Forall₂ (fun p q => p.1.cell = q.1.cell ∧ p.2.cell = q.2.cell)
      (AssemblerConfig.operandLinks aCells bCells a b) (AssemblerConfig.operandLinks aCells' bCells' a' b') := by
  refine List.rel_flatMap (forall₂_zip_zip (haCells.zip ha.cells) (hbCells.zip hb.cells)) fun p q hpq => ?_
  exact .cons hpq.1 (.cons hpq.2 .nil)

namespace AssemblerConfig

/-- The configurations differ in the constants of their normalisations only. -/
structure Similar (config config' : AssemblerConfig) : Prop where
  dot : config'.dot = config.dot
  add : config'.add = config.add
  mul : config'.mul = config.mul
  rmsNorm : List.Forall₂ (fun entry entry' => entry'.1 = entry.1 ∧ ∃ b d, entry'.2 = entry.2.deviate b d)
    config.rmsNorm config'.rmsNorm
  boundary : config'.boundary = config.boundary
  bridgeUnshifted : config'.bridgeUnshifted = config.bridgeUnshifted
  bridgeShifted : config'.bridgeShifted = config.bridgeShifted
  sBridge : config'.sBridge = config.sBridge

theorem Similar.refl (config : AssemblerConfig) : config.Similar config :=
  ⟨rfl, rfl, rfl, List.forall₂_same.mpr fun entry _ => ⟨rfl, entry.2.epsilon, entry.2.rsqrtDomain, rfl⟩,
    rfl, rfl, rfl, rfl⟩

theorem findKey_forall₂ {κ α β : Type} [DecidableEq κ] {R : α → β → Prop} {xs : List (κ × α)} {ys : List (κ × β)}
    (h : List.Forall₂ (fun x y => y.1 = x.1 ∧ R x.2 y.2) xs ys) {key : κ} {a : α} {b : β}
    (ha : findKey key xs = some a) (hb : findKey key ys = some b) : R a b := by
  induction h with
  | nil => cases ha
  | @cons x y xs ys hxy _ ih =>
      simp only [findKey, List.find?_cons] at ha hb
      by_cases hkey : x.1 = key
      · simp only [hxy.1, hkey, decide_true, Option.map_some, Option.some.injEq] at ha hb
        exact ha ▸ hb ▸ hxy.2
      · simp only [hxy.1, hkey, decide_false] at ha hb
        exact ih ha hb

variable {ε : Type} {config config' : AssemblerConfig} {cs : ConstraintSystem Fr} {known known' : Bool}
  {floats floats' : Floats} {regs regs' : Registers}

theorem assignBridge_agree (h : config.Similar config') (v v' : I18) :
    Agree (config.assignBridge (ε := ε) v known) (config'.assignBridge (ε := ε) v' known') fun c c' =>
      c.1.cell = c'.1.cell ∧ c.2.cell = c'.2.cell := by
  refine .of_lays (assignBridge_lays v) (assignBridge_lays v') (fun r => ?_) fun r => ⟨?_, ?_⟩
  · simp only [List.map_cons, List.map_nil, skeleton, h.bridgeUnshifted, h.bridgeShifted, h.sBridge]
  · simp only [h.bridgeUnshifted]
  · simp only [h.bridgeShifted]

theorem assignOutput_agree (h : config.Similar config') (link : String) (v v' : I18) {output output' : AssignedCell Fr}
    (ho : output.cell = output'.cell) :
    Agree (config.assignOutput (ε := ε) link v output known) (config'.assignOutput (ε := ε) link v' output' known')
      fun c c' => c.2.cell = c'.2.cell := by
  refine (assignBridge_agree h v v').bind fun ⟨unshifted, shifted⟩ ⟨unshifted', shifted'⟩ hc => ?_
  refine (Agree.linkCells ?_).bind fun _ _ _ => .pure hc.1
  exact .cons ⟨hc.2, ho⟩ .nil

theorem assignOperand_agree (h : config.Similar config') (link : String) (v v' : I18) {cell cell' : AssignedCell Fr}
    (hcell : cell.cell = cell'.cell) :
    Agree (config.assignOperand (ε := ε) link v cell known) (config'.assignOperand (ε := ε) link v' cell' known')
      fun c c' => c.cell = c'.cell := by
  refine (assignBridge_agree h v v').bind fun ⟨unshifted, shifted⟩ ⟨unshifted', shifted'⟩ hc => ?_
  refine (Agree.linkCells ?_).bind fun _ _ _ => .pure hc.2
  exact .cons ⟨hc.1, hcell⟩ .nil

theorem assignDotElement_agree (h : config.Similar config') {dot : DotProductConfig} (hdot : dot.Installed cs)
    (i j : ℕ) {a a' b b' : RegisterCells} (ha : SameShape a a') (hb : SameShape b b') :
    Agree (config.assignDotElement dot i j a b known) (config'.assignDotElement dot i j a' b' known')
      fun c c' => c.2.cell = c'.2.cell := by
  refine Agree.check.bind fun _ _ _ => ?_
  refine (Agree.mapError (Agree.ofExcept (R := fun _ _ => True) fun _ _ _ _ => trivial)).bind
    fun ⟨q, _⟩ ⟨q', _⟩ _ => ?_
  refine (DotProductConfig.assignDotRow_agree hdot a'.values b'.values known').bind
    fun ⟨aCells, bCells, qCell⟩ ⟨aCells', bCells', qCell'⟩ ⟨hac, hbc, hqc⟩ => ?_
  refine (Agree.linkCells (operandLinks_agree hac hbc ha hb)).bind fun _ _ _ => ?_
  exact assignOutput_agree h _ q q' hqc

theorem assignElement_agree (h : config.Similar config') (hinst : config.Installed cs) (op : EltwiseOp) (idx : ℕ)
    (a a' b b' : I18) {aCell aCell' bCell bCell' : AssignedCell Fr} (ha : aCell.cell = aCell'.cell)
    (hb : bCell.cell = bCell'.cell) :
    Agree (config.assignElement op idx a b aCell bCell known) (config'.assignElement op idx a' b' aCell' bCell' known')
      fun c c' => c.2.cell = c'.2.cell := by
  cases op with
  | add =>
      refine (Agree.ofExcept (R := fun _ _ => True) fun _ _ _ _ => trivial).bind fun c c' _ => ?_
      refine (assignOperand_agree h _ a a' ha).bind fun aShift aShift' has => ?_
      refine (assignOperand_agree h _ b b' hb).bind fun bShift bShift' hbs => ?_
      rw [h.add]
      refine (EltwiseAddConfig.assignAddRow_agree hinst.add a a' b b' known known').bind
        fun ⟨aRow, bRow, cRow⟩ ⟨aRow', bRow', cRow'⟩ ⟨har, hbr, hcr⟩ => ?_
      refine (Agree.linkCells ?_).bind fun _ _ _ => assignOutput_agree h _ c c' hcr
      exact .cons ⟨har, has⟩ (.cons ⟨hbr, hbs⟩ .nil)
  | mul =>
      refine (Agree.mapError (Agree.ofExcept (R := fun _ _ => True) fun _ _ _ _ => trivial)).bind
        fun ⟨q, _⟩ ⟨q', _⟩ _ => ?_
      rw [h.mul]
      refine (EltwiseMulConfig.assignMulRow_agree hinst.mul a a' b b' known known').bind
        fun ⟨aRow, bRow, qRow⟩ ⟨aRow', bRow', qRow'⟩ ⟨har, hbr, hqr⟩ => ?_
      refine (Agree.linkCells ?_).bind fun _ _ _ => assignOutput_agree h _ q q' hqr
      exact .cons ⟨har, ha⟩ (.cons ⟨hbr, hb⟩ .nil)
  | relu => exact Agree.fail_left

theorem operands_agree {inputs : List RegisterRef} {e : ℕ → AssemblerError} {β : Type}
    {f g : RegisterCells → RegisterCells → Synth Fr AssemblerError β} {S : β → β → Prop}
    (hregs : SameRegisters regs regs')
    (hf : ∀ a b a' b', SameShape a a' → SameShape b b' → Agree (f a b) (g a' b') S) :
    Agree (do
      let (aRef, bRef) ← Synth.ofExcept (twoInputs e inputs)
      let a ← Synth.ofExcept (resolve regs aRef)
      let b ← Synth.ofExcept (resolve regs bRef)
      f a b) (do
      let (aRef, bRef) ← Synth.ofExcept (twoInputs e inputs)
      let a ← Synth.ofExcept (resolve regs' aRef)
      let b ← Synth.ofExcept (resolve regs' bRef)
      g a b) S := by
  refine (Agree.ofExcept (R := fun p q => p = q) fun p q hp hq => ?_).bind fun ⟨aRef, bRef⟩ q hq => ?_
  · rw [hp] at hq
    exact Except.ok.inj hq
  subst hq
  refine (Agree.ofExcept fun a a' ha ha' => hregs.get? (resolve_eq_ok ha) (resolve_eq_ok ha')).bind fun a a' ha => ?_
  refine (Agree.ofExcept fun b b' hb hb' => hregs.get? (resolve_eq_ok hb) (resolve_eq_ok hb')).bind fun b b' hb => ?_
  exact hf a b a' b' ha hb

theorem outs_agree {α α' : Type} {f : α → Synth Fr AssemblerError (I18 × AssignedCell Fr)}
    {g : α' → Synth Fr AssemblerError (I18 × AssignedCell Fr)} {R : α → α' → Prop} {xs : List α} {ys : List α'}
    (hxy : List.Forall₂ R xs ys) (h : ∀ x y, R x y → Agree (f x) (g y) fun c c' => c.2.cell = c'.2.cell) :
    Agree (do
      let outs ← Synth.forEach f xs
      return (⟨outs.map Prod.fst, outs.map Prod.snd⟩ : RegisterCells)) (do
      let outs ← Synth.forEach g ys
      return (⟨outs.map Prod.fst, outs.map Prod.snd⟩ : RegisterCells)) SameShape := by
  refine (Agree.forEach hxy h).bind fun outs outs' houts => .pure ⟨?_, ?_⟩
  · exact List.forall₂_map_left_iff.mpr (List.forall₂_map_right_iff.mpr houts)
  · simpa using houts.length_eq

theorem assignInstruction_agree (h : config.Similar config') (hinst : config.Installed cs)
    (hregs : SameRegisters regs regs') (instr : AssemblerInstruction) :
    Agree (config.assignInstruction floats regs instr known) (config'.assignInstruction floats' regs' instr known')
      SameShape := by
  obtain ⟨instruction, inputs⟩ := instr
  cases instruction with
  | dotGeneral m n k batchDims transA transB =>
      refine Agree.ensure.bind fun _ _ _ => operands_agree hregs fun a b a' b' ha hb => ?_
      refine Agree.check.bind fun _ _ _ => Agree.check.bind fun _ _ _ => Agree.ensure.bind fun _ _ _ => ?_
      refine (Agree.ofExcept (R := fun dot dot' => dot' = dot ∧ dot.Installed cs) fun dot dot' hdot hdot' => ?_).bind
        fun dot dot' hdot => ?_
      · have hdot := elim_eq_ok hdot
        have hdot' := elim_eq_ok hdot'
        rw [h.dot, hdot] at hdot'
        exact ⟨(Option.some.inj hdot').symm, (hinst.dot _ (findKey_mem hdot)).1⟩
      obtain ⟨rfl, hdot⟩ := hdot
      refine Agree.check.bind fun _ _ _ => outs_agree (R := fun p q => p = q) (List.forall₂_same.mpr fun _ _ => rfl)
        fun p q hpq => ?_
      subst hpq
      exact assignDotElement_agree h hdot p.1 p.2 (ha.pick _) (hb.pick _)
  | eltwise op =>
      have helt : ∀ op, Agree (config.assignEltwise regs inputs op known)
          (config'.assignEltwise regs' inputs op known') SameShape := fun op => by
        refine operands_agree hregs fun a b a' b' ha hb => ?_
        refine Agree.ensure.bind fun _ _ _ => Agree.check.bind fun _ _ _ => Agree.ensure.bind fun _ _ _ => ?_
        refine Agree.check.bind fun _ _ _ => Agree.ensure.bind fun _ _ _ => ?_
        rw [ha.values, hb.values]
        refine outs_agree (R := fun p q => p = q) (List.forall₂_same.mpr fun _ _ => rfl) fun p q hpq => ?_
        subst hpq
        exact assignElement_agree h hinst op p _ _ _ _ (ha.cells.getD _ _) (hb.cells.getD _ _)
      cases op with
      | add => exact helt .add
      | mul => exact helt .mul
      | relu => exact Agree.fail_left
  | rmsNorm dim epsilonMilli =>
      refine operands_agree hregs fun x w x' w' hx hw => Agree.ensure.bind fun _ _ _ => ?_
      refine (Agree.ofExcept (R := fun rms rms' => (∃ b d, rms' = rms.deviate b d) ∧ rms.Installed cs)
        fun rms rms' hrms hrms' => ?_).bind fun rms rms' hrms => ?_
      · have hrms := elim_eq_ok hrms
        exact ⟨findKey_forall₂ (R := fun rms rms' => ∃ b d, rms' = rms.deviate b d) h.rmsNorm hrms (elim_eq_ok hrms'), (hinst.rmsNorm _ (findKey_mem hrms)).1⟩
      obtain ⟨⟨b, d, rfl⟩, hrms⟩ := hrms
      refine (Agree.unwrap (R := fun _ _ => True) fun _ _ _ _ => trivial).bind fun domain domain' _ => ?_
      refine (Agree.mapError (RmsNormConfig.assign_agree hrms domain domain')).bind
        fun result result' ⟨hxc, hwc, hout, hlen⟩ => ?_
      refine (Agree.linkCells (operandLinks_agree hxc hwc hx hw)).bind fun _ _ _ => ?_
      refine (Agree.forEach (S := fun c c' => c.2.cell = c'.2.cell) (forall₂_zip_zip (R := fun p q => p.2.cell = q.2.cell)
        (List.forall₂_eq_eq_eq ▸ congrArg List.range hlen) ((forall₂_zip_zip (forall₂_of_length hlen) hout).imp
          fun _ _ hc => hc.2)) fun p q hpq => ?_).bind fun outs outs' houts => .pure ⟨?_, hlen⟩
      · obtain ⟨i, v, cell⟩ := p
        obtain ⟨i', v', cell'⟩ := q
        obtain ⟨hi, hcell⟩ := hpq
        simp only at hi hcell
        subst hi
        exact assignOutput_agree h _ v v' hcell
      · exact List.forall₂_map_left_iff.mpr (List.forall₂_map_right_iff.mpr houts)
  | softmax | gelu | layerNorm | reduce | embedLookup | patchEmbed => exact Agree.fail_left

theorem assignInstructions_agree (h : config.Similar config') (hinst : config.Installed cs)
    (hregs : SameRegisters regs regs') (instructions : List AssemblerInstruction) :
    Agree (config.assignInstructions floats regs instructions known)
      (config'.assignInstructions floats' regs' instructions known') (List.Forall₂ SameShape) := by
  refine Agree.foldEach (R := fun p q => p = q) (List.forall₂_same.mpr fun _ _ => rfl)
    (fun virtuals virtuals' instr instr' hv hinstr => ?_) hregs.virtuals
  subst hinstr
  have hregs' : SameRegisters { regs with virtuals } { regs' with virtuals := virtuals' } :=
    ⟨hregs.inputs, hregs.weights, hv⟩
  refine (assignInstruction_agree h hinst hregs' instr).bind fun out out' hout => .pure ?_
  exact List.rel_append hv (.cons hout .nil)

theorem assignTensors_agree (h : config.Similar config') {tensors tensors' : List (List I18)}
    (ht : List.Forall₂ (fun t t' => t.length = t'.length) tensors tensors') :
    Agree (config.assignTensors (ε := ε) tensors known) (config'.assignTensors (ε := ε) tensors' known')
      (List.Forall₂ SameShape) := by
  refine Agree.forEach ht fun tensor tensor' hlen => ?_
  refine Agree.bind (R := fun cells cells' => SameCells cells cells') ?_ fun cells cells' hcells => .pure ⟨hcells, hlen⟩
  refine .of_lays (assignBoundary_lays tensor) (assignBoundary_lays tensor') (fun r => ?_) fun r => ?_
  · simp only [List.map_cons, List.map_flatMap, List.map_nil, skeleton, h.boundary, hlen]
  · rw [h.boundary, hlen, SameCells, List.forall₂_map_left_iff, List.forall₂_map_right_iff, List.forall₂_same]
    exact fun _ _ => rfl

/-- Two programs with the same instructions. The shapes of their tensors agree. -/
structure SameProgram (program program' : AssemblerProgram) : Prop where
  instructions : program'.instructions = program.instructions
  inputs : List.Forall₂ (fun t t' => t.length = t'.length) program.inputValues program'.inputValues
  weights : List.Forall₂ (fun t t' => t.length = t'.length) program.weightValues program'.weightValues

/-- What a program lays down depends on its instructions and on the shapes of its tensors only. -/
theorem assign_agree (h : config.Similar config') (hinst : config.Installed cs) (order : HashOrder)
    {program program' : AssemblerProgram} (hp : SameProgram program program') :
    Agree (config.assign floats order program known) (config'.assign floats' order program' known')
      SameRegisters := by
  refine Agree.bind (R := fun _ _ => True) (.of_emits (loadRangeTables_emits order) (loadRangeTables_emits order) ?_
    trivial) fun _ _ _ => ?_
  · simp only [rangeTables, h.dot, h.mul]
  refine (assignTensors_agree h hp.inputs).bind fun inputs inputs' hinputs => ?_
  refine (assignTensors_agree h hp.weights).bind fun weights weights' hweights => ?_
  rw [hp.instructions]
  exact (assignInstructions_agree h hinst ⟨hinputs, hweights, .nil⟩ program.instructions).bind
    fun virtuals virtuals' hv => .pure ⟨hinputs, hweights, hv⟩

end AssemblerConfig

end Zkie.Assembler
