import Zkie.AssemblerSound

namespace Zkie.Assembler

open ScalarField FixedPoint Plonkish Synthesis Satisfaction HostRun Placement RangeCheck Rescale DotProduct
  Eltwise Lookup RmsNorm Isa

section Cells

variable {cs : ConstraintSystem Fr} {A : Assignment Fr} {cells : List (AssignedCell Fr)} {xs : List I18}

theorem copyable_getD (h : Copyable cs A cells xs) {t : ℕ} (ht : t < xs.length) :
    (cells.getD t default).cell.column ∈ cs.equality ∧
      A.cell (cells.getD t default).cell = ((xs.getD t default).raw : Fr) := by
  have ht' : t < cells.length := h.length_eq ▸ ht
  rw [List.getD_eq_getElem?_getD, List.getD_eq_getElem?_getD, List.getElem?_eq_getElem ht,
    List.getElem?_eq_getElem ht']
  exact (List.forall₂_iff_get.mp h).2 t ht' ht

theorem copyable_pick {reg : RegisterCells} (h : Copyable cs A reg.cells reg.values) {indices : List ℕ}
    (hin : ∀ t ∈ indices, t < reg.values.length) :
    Copyable cs A (reg.pick indices).cells (reg.pick indices).values := by
  rw [Copyable, RegisterCells.pick, pick, List.forall₂_map_left_iff, List.forall₂_map_right_iff, List.forall₂_same]
  exact fun t ht => copyable_getD h (hin t ht)

theorem copyable_zip {cells' : List (AssignedCell Fr)} (h : Copyable cs A cells xs) (h' : Copyable cs A cells' xs) :
    ∀ p ∈ cells.zip cells', p.1.cell.column ∈ cs.equality ∧ p.2.cell.column ∈ cs.equality ∧
      A.cell p.1.cell = A.cell p.2.cell := by
  induction h generalizing cells' with
  | nil => simp
  | cons hc _ ih =>
      cases h' with
      | cons hc' h' =>
          rw [List.zip_cons_cons, List.forall_mem_cons]
          exact ⟨⟨hc.1, hc'.1, hc.2.trans hc'.2.symm⟩, ih h'⟩

theorem operandLinks_complete {aCells bCells : List (AssignedCell Fr)} {a b : RegisterCells} {xs ys : List I18}
    (hxs : Copyable cs A aCells xs) (hys : Copyable cs A bCells ys) (ha : Copyable cs A a.cells xs)
    (hb : Copyable cs A b.cells ys) :
    ∀ p ∈ AssemblerConfig.operandLinks aCells bCells a b,
      p.1.cell.column ∈ cs.equality ∧ p.2.cell.column ∈ cs.equality ∧ A.cell p.1.cell = A.cell p.2.cell := by
  intro p hp
  obtain ⟨pq, hpq, hp⟩ := List.mem_flatMap.mp hp
  obtain ⟨hp₁, hp₂⟩ := List.of_mem_zip hpq
  simp only [List.mem_cons, List.not_mem_nil, or_false] at hp
  rcases hp with rfl | rfl
  · exact copyable_zip hxs ha _ hp₁
  · exact copyable_zip hys hb _ hp₂

end Cells

namespace AssemblerConfig

variable {ε : Type} {config : AssemblerConfig} {cs : ConstraintSystem Fr} {T : List ℕ → List Fr → Prop}
  {A : Assignment Fr}

/-- The byte tables of all operand range checks hold every byte. -/
structure BytesLoaded (config : AssemblerConfig) (T : List ℕ → List Fr → Prop) : Prop where
  dot : ∀ entry ∈ config.dot, entry.2.rangeA.BytesLoaded T ∧ entry.2.rangeB.BytesLoaded T
  mul : config.mul.rangeA.BytesLoaded T ∧ config.mul.rangeB.BytesLoaded T

/-- The tables of the normalisations hold the rows that a run uses, and their operand checks every byte. -/
def RmsLoaded (config : AssemblerConfig) (floats : Floats) (T : List ℕ → List Fr → Prop) : Prop :=
  ∀ entry ∈ config.rmsNorm, ∀ domain, entry.2.rsqrtDomain.table floats = some domain →
    (entry.2.mul.rangeA.BytesLoaded T ∧ entry.2.mul.rangeB.BytesLoaded T) ∧
    ∃ table, entry.2.rsqrt.TableIs T table ∧ ∀ p ∈ domain, p ∈ table ++ [padRow]

theorem assignBridge_complete (hwf : cs.WellFormed) (h : config.Installed cs) (v : I18) :
    Complete cs T A (config.assignBridge (ε := ε) v true) fun c =>
      A.Has c.1 config.bridgeUnshifted (v.raw : Fr) ∧ A.Has c.2 config.bridgeShifted (shiftedRaw v : Fr) := by
  refine .of_lays (assignBridge_lays v) fun r hr => ?_
  simp only [List.forall_mem_cons, List.not_mem_nil, false_implies, implies_true, and_true,
    Witnessed, witness, if_true, i128ToFr_cast, i64ToFr_cast, true_and] at hr
  refine ⟨?_, ⟨rfl, hr.1⟩, rfl, hr.2⟩
  simp only [List.forall_mem_cons, List.not_mem_nil, false_implies, implies_true, and_true,
    holds_bridge hwf h, hr.1, hr.2]
  exact ⟨trivial, shift_zero v, trivial, trivial⟩

theorem assignOutput_complete (hwf : cs.WellFormed) (h : config.Installed cs) (link : String) {v : I18}
    {output : AssignedCell Fr}
    (ho : output.cell.column ∈ cs.equality ∧ A.cell output.cell = (shiftedRaw v : Fr)) :
    Complete cs T A (config.assignOutput (ε := ε) link v output true) fun c =>
      c.1 = v ∧ c.2.cell.column ∈ cs.equality ∧ A.cell c.2.cell = (v.raw : Fr) := by
  have heq := h.equality
  refine (assignBridge_complete hwf h v).bind fun ⟨unshifted, shifted⟩ ⟨hu, hs⟩ => ?_
  refine (Complete.linkCells ?_).bind fun _ _ => .pure
    ⟨rfl, hu.column ▸ heq config.bridgeUnshifted (by simp), hu.value⟩
  simp only [List.forall_mem_cons, List.not_mem_nil, false_implies, implies_true, and_true]
  exact hs.link ⟨rfl, ho.2⟩ (heq _ (by simp)) ho.1

theorem assignOperand_complete (hwf : cs.WellFormed) (h : config.Installed cs) (link : String) {v : I18}
    {cell : AssignedCell Fr} (hc : cell.cell.column ∈ cs.equality ∧ A.cell cell.cell = (v.raw : Fr)) :
    Complete cs T A (config.assignOperand (ε := ε) link v cell true) fun c =>
      A.Has c config.bridgeShifted (shiftedRaw v : Fr) := by
  refine (assignBridge_complete hwf h v).bind fun ⟨unshifted, shifted⟩ ⟨hu, hs⟩ => ?_
  refine (Complete.linkCells ?_).bind fun _ _ => .pure hs
  simp only [List.forall_mem_cons, List.not_mem_nil, false_implies, implies_true, and_true]
  exact hu.link ⟨rfl, hc.2⟩ (h.equality _ (by simp)) hc.1

theorem assignDotElement_complete (hwf : cs.WellFormed) (h : config.Installed cs) {dot : DotProductConfig}
    (hdot : dot.Installed cs) (hA : dot.rangeA.BytesLoaded T) (hB : dot.rangeB.BytesLoaded T) (i j : ℕ)
    {a b : RegisterCells} (ha : Copyable cs A a.cells a.values) (hb : Copyable cs A b.cells b.values) :
    Complete cs T A (config.assignDotElement dot i j a b true) fun c =>
      c.2.cell.column ∈ cs.equality ∧ A.cell c.2.cell = (c.1.raw : Fr) := by
  refine Triple.check.bind fun _ _ => ?_
  refine Triple.bind (Triple.mapError (.ofExcept fun _ hq => requantizeRaw_eq_ok.mp hq)) fun ⟨q, _⟩ ⟨hq, _⟩ => ?_
  refine (DotProductConfig.assignDotRow_complete hwf hdot hA hB).bind
    fun ⟨aCells, bCells, qCell⟩ ⟨z, hz, hac, hbc, hqc⟩ => ?_
  obtain rfl : q = z := I18.ext (hq.trans hz.symm)
  have heq := hdot.equality
  refine (Complete.linkCells (operandLinks_complete (hac.imp fun _ _ hc => ?_) (hbc.imp fun _ _ hc => ?_) ha hb)).bind
    fun _ _ => ?_
  · exact ⟨hc.column ▸ heq _ (by simp), hc.value⟩
  · exact ⟨hc.column ▸ heq _ (by simp), hc.value⟩
  · refine (assignOutput_complete hwf h _ ⟨hqc.column ▸ heq _ (by simp), hqc.value⟩).mono fun c hc => ?_
    rw [hc.1]
    exact hc.2

theorem assignElement_complete (hwf : cs.WellFormed) (h : config.Installed cs) (hB : config.BytesLoaded T)
    (op : EltwiseOp) (idx : ℕ) {a b : I18} {aCell bCell : AssignedCell Fr}
    (ha : aCell.cell.column ∈ cs.equality ∧ A.cell aCell.cell = (a.raw : Fr))
    (hb : bCell.cell.column ∈ cs.equality ∧ A.cell bCell.cell = (b.raw : Fr)) :
    Complete cs T A (config.assignElement op idx a b aCell bCell true) fun c =>
      c.2.cell.column ∈ cs.equality ∧ A.cell c.2.cell = (c.1.raw : Fr) := by
  cases op with
  | add =>
      refine Triple.bind (.ofExcept fun c hc => elim_eq_ok hc) fun c hc => ?_
      refine (assignOperand_complete hwf h _ ha).bind fun aShift has => ?_
      refine (assignOperand_complete hwf h _ hb).bind fun bShift hbs => ?_
      refine (EltwiseAddConfig.assignAddRow_complete hwf h.add a b).bind
        fun ⟨aRow, bRow, cRow⟩ ⟨z, hz, har, hbr, hcr⟩ => ?_
      obtain rfl : c = z := Option.some.inj (hc.symm.trans hz)
      obtain ⟨hea, heb, hec⟩ := h.add.equality
      have hes := h.equality config.bridgeShifted (by simp)
      refine (Complete.linkCells ?_).bind fun _ _ => ?_
      · simp only [List.forall_mem_cons, List.not_mem_nil, false_implies, implies_true, and_true]
        exact ⟨har.link has hea hes, hbr.link hbs heb hes⟩
      · refine (assignOutput_complete hwf h _ ⟨hcr.column ▸ hec, hcr.value⟩).mono fun out hout => ?_
        rw [hout.1]
        exact hout.2
  | mul =>
      refine Triple.bind (Triple.mapError (.ofExcept fun _ hq => requantizeMul_eq_ok.mp hq)) fun ⟨q, _⟩ ⟨hq, _⟩ => ?_
      refine (EltwiseMulConfig.assignMulRow_complete hwf h.mul hB.mul.1 hB.mul.2 a b).bind
        fun ⟨aRow, bRow, qRow⟩ ⟨z, hz, har, hbr, hqr⟩ => ?_
      obtain rfl : q = z := I18.ext (hq.trans hz.symm)
      have heq := h.mul.equality
      refine (Complete.linkCells ?_).bind fun _ _ => ?_
      · simp only [List.forall_mem_cons, List.not_mem_nil, false_implies, implies_true, and_true]
        exact ⟨har.link ⟨rfl, ha.2⟩ (heq _ (by simp)) ha.1, hbr.link ⟨rfl, hb.2⟩ (heq _ (by simp)) hb.1⟩
      · refine (assignOutput_complete hwf h _ ⟨hqr.column ▸ heq _ (by simp), hqr.value⟩).mono fun out hout => ?_
        rw [hout.1]
        exact hout.2
  | relu => exact Triple.fail

/-- The cells of every register hold its values and may be copied. -/
def Ready (cs : ConstraintSystem Fr) (A : Assignment Fr) (regs : Registers) : Prop :=
  ∀ ref reg, regs.get? ref = some reg → Copyable cs A reg.cells reg.values

theorem operands_complete {regs : Registers} {inputs : List RegisterRef} {e : ℕ → AssemblerError} {β : Type}
    {f : RegisterCells → RegisterCells → Synth Fr AssemblerError β} {Q : β → Prop} (hregs : Ready cs A regs)
    (hf : ∀ a b, Copyable cs A a.cells a.values → Copyable cs A b.cells b.values → Complete cs T A (f a b) Q) :
    Complete cs T A (do
      let (aRef, bRef) ← Synth.ofExcept (twoInputs e inputs)
      let a ← Synth.ofExcept (resolve regs aRef)
      let b ← Synth.ofExcept (resolve regs bRef)
      f a b) Q := by
  refine Triple.bind (.ofExcept fun p hp => twoInputs_eq_ok hp) fun ⟨aRef, bRef⟩ hinputs => ?_
  refine Triple.bind (.ofExcept fun a ha => resolve_eq_ok ha) fun a ha => ?_
  refine Triple.bind (.ofExcept fun b hb => resolve_eq_ok hb) fun b hb => ?_
  exact hf a b (hregs aRef a ha) (hregs bRef b hb)

theorem copyable_outs {α : Type} {xs : List α} {outs : List (I18 × AssignedCell Fr)}
    (h : List.Forall₂ (fun _ c => c.2.cell.column ∈ cs.equality ∧ A.cell c.2.cell = (c.1.raw : Fr)) xs outs) :
    Copyable cs A (outs.map Prod.snd) (outs.map Prod.fst) := by
  rw [Copyable, List.forall₂_map_left_iff, List.forall₂_map_right_iff, List.forall₂_same]
  intro c hc
  obtain ⟨-, -, hcell⟩ := forall₂_exists_of_mem h.flip hc
  exact hcell

theorem assignInstruction_complete (hwf : cs.WellFormed) (h : config.Installed cs) (hB : config.BytesLoaded T)
    {floats : Floats} {regs : Registers} (hregs : Ready cs A regs) (instr : AssemblerInstruction)
    (hR : ∀ dim epsilonMilli, instr.instruction = .rmsNorm dim epsilonMilli → config.RmsLoaded floats T) :
    Complete cs T A (config.assignInstruction floats regs instr true) fun out =>
      Copyable cs A out.cells out.values := by
  obtain ⟨instruction, inputs⟩ := instr
  cases instruction with
  | dotGeneral m n k batchDims transA transB =>
      refine Triple.ensure.bind fun _ _ => operands_complete hregs fun a b ha hb => ?_
      refine Triple.check.bind fun _ _ => Triple.check.bind fun _ _ => Triple.ensure.bind fun _ ⟨halen, hblen⟩ => ?_
      refine Triple.bind (.ofExcept fun dot hdot => elim_eq_ok hdot) fun dot hdot => Triple.check.bind fun _ _ => ?_
      have hmem := findKey_mem hdot
      obtain ⟨hA, hB⟩ := hB.dot _ hmem
      refine Triple.bind (.forEach fun ⟨i, j⟩ hij => assignDotElement_complete hwf h (h.dot _ hmem).1 hA hB i j
        (copyable_pick ha fun t ht => ?_) (copyable_pick hb fun t ht => ?_)) fun outs houts => .pure (copyable_outs houts)
      · obtain ⟨l, hl, rfl⟩ := List.mem_map.mp ht
        rw [halen]
        exact physA_lt transA (List.mem_range.mp (List.pair_mem_product.mp hij).1) (List.mem_range.mp hl)
      · obtain ⟨l, hl, rfl⟩ := List.mem_map.mp ht
        rw [hblen]
        exact physB_lt transB (List.mem_range.mp hl) (List.mem_range.mp (List.pair_mem_product.mp hij).2)
  | eltwise op =>
      have helt : ∀ op, Complete cs T A (config.assignEltwise regs inputs op true) fun out =>
          Copyable cs A out.cells out.values := fun op => by
        refine operands_complete hregs fun a b ha hb => ?_
        refine Triple.ensure.bind fun _ _ => Triple.check.bind fun _ ha0 => Triple.ensure.bind fun _ _ => ?_
        refine Triple.check.bind fun _ hb0 => Triple.ensure.bind fun _ _ => ?_
        exact Triple.bind (.forEach fun e _ => assignElement_complete hwf h hB op e
          (copyable_getD ha (Nat.mod_lt e (Nat.pos_of_ne_zero ha0)))
          (copyable_getD hb (Nat.mod_lt e (Nat.pos_of_ne_zero hb0)))) fun outs houts => .pure (copyable_outs houts)
      cases op with
      | add => exact helt .add
      | mul => exact helt .mul
      | relu => exact Triple.fail
  | rmsNorm dim epsilonMilli =>
      refine operands_complete hregs fun x w hx hw => Triple.ensure.bind fun _ _ => ?_
      refine Triple.bind (.ofExcept fun rms hrms => elim_eq_ok hrms) fun rms hrms => ?_
      refine Triple.bind (.unwrap fun _ => id) fun domain hdomain => ?_
      have hmem := findKey_mem hrms
      obtain ⟨⟨hA, hB⟩, table, hT, hsub⟩ := hR dim epsilonMilli rfl _ hmem domain hdomain
      refine (Triple.mapError (RmsNormConfig.assign_complete hwf (h.rmsNorm _ hmem).1 hA hB hT hsub x.values
        w.values)).bind fun result ⟨hxc, hwc, hout⟩ => ?_
      refine (Complete.linkCells (operandLinks_complete hxc hwc hx hw)).bind fun _ _ => ?_
      refine Triple.bind (.forEach (Q := fun p c => c.2.cell.column ∈ cs.equality ∧
        A.cell c.2.cell = (p.2.1.raw : Fr)) fun ⟨i, v, cell⟩ hp => ?_) fun outs houts => .pure ?_
      · have hcell := List.forall₂_zip hout.flip (List.of_mem_zip hp).2
        exact (assignOutput_complete hwf h _ hcell).mono fun c hc => hc.2
      · rw [Copyable, ← enumerate_values hout.length_eq.symm, List.forall₂_map_left_iff,
          List.forall₂_map_right_iff]
        exact houts.flip
  | softmax | gelu | layerNorm | reduce | embedLookup | patchEmbed => exact Triple.fail

/-- The columns of the byte tables, in the order of loading. -/
def rangeTables (config : AssemblerConfig) (order : HashOrder) : List ℕ :=
  (order.dot config.dot).flatMap (fun entry => [entry.2.rangeA.table, entry.2.rangeB.table]) ++
    [config.mul.rangeA.table, config.mul.rangeB.table]

theorem loadRangeTables_emits (order : HashOrder) :
    Emits (config.loadRangeTables (ε := ε) order) ()
      ((config.rangeTables order).map fun t => .table [t] LookupRangeCheckConfig.byteTable) := by
  rw [rangeTables, List.map_append, List.map_flatMap]
  exact Emits.bind (Emits.forEach (g := fun _ => ()) fun entry _ _ => rfl) fun _ => rfl

theorem Ready.append {regs : Registers} {virtuals : List RegisterCells} {out : RegisterCells}
    (h : Ready cs A { regs with virtuals }) (hout : Copyable cs A out.cells out.values) :
    Ready cs A { regs with virtuals := virtuals ++ [out] } := by
  intro ref reg hreg
  cases ref with
  | input i => exact h (.input i) reg hreg
  | weight i => exact h (.weight i) reg hreg
  | virtual i =>
      rcases Nat.lt_or_ge i.toNat virtuals.length with hi | hi
      · refine h (.virtual i) reg ?_
        rwa [Registers.get?, List.getElem?_append_left hi] at hreg
      · rw [Registers.get?, List.getElem?_append_right hi] at hreg
        rw [List.mem_singleton.mp (List.mem_of_getElem? hreg)]
        exact hout

theorem assignInstructions_complete (hwf : cs.WellFormed) (h : config.Installed cs) (hB : config.BytesLoaded T)
    {floats : Floats} {regs : Registers} (hregs : Ready cs A regs) (instructions : List AssemblerInstruction)
    (hR : usesRmsNorm instructions → config.RmsLoaded floats T) :
    Complete cs T A (config.assignInstructions floats regs instructions true) fun virtuals =>
      Ready cs A { regs with virtuals } := by
  refine Triple.foldEach (I := fun _ virtuals => Ready cs A { regs with virtuals })
    (fun done instr rest hsplit virtuals hdone => ?_) hregs
  have hmem : instr ∈ instructions := by simp [hsplit]
  exact (assignInstruction_complete hwf h hB hdone instr fun dim e he => hR ⟨instr, hmem, dim, e, he⟩).bind
    fun out hout => .pure (hdone.append hout)

theorem assignTensors_complete (h : config.Installed cs) (tensors : List (List I18)) :
    Complete cs T A (config.assignTensors (ε := ε) tensors true) fun regs =>
      ∀ reg ∈ regs, Copyable cs A reg.cells reg.values := by
  refine Triple.mono (.forEach (Q := fun _ reg => Copyable cs A reg.cells reg.values) fun tensor _ => ?_)
    fun regs hregs reg hreg => ?_
  · refine Triple.bind (Q := fun cells => Copyable cs A cells tensor) ?_ fun cells hcells => .pure hcells
    refine .of_lays (assignBoundary_lays tensor) fun r hr => ⟨fun e he => ?_, ?_⟩
    · rcases List.mem_cons.mp he with rfl | he
      · trivial
      · obtain ⟨row, -, he⟩ := List.mem_flatMap.mp he
        rw [List.mem_singleton.mp he]
        trivial
    · rw [Copyable, ← DotProductConfig.map_getD_range (a := tensor) rfl, List.forall₂_map_right_iff]
      simp only [List.length_map, List.length_range]
      rw [List.forall₂_map_left_iff, List.forall₂_same]
      intro row hrow
      refine ⟨h.equality config.boundary (by simp), ?_⟩
      have hw := hr (.advice ⟨r, config.boundary, row⟩ (witness true (i64ToFr (tensor.getD row default))))
        (List.mem_cons_of_mem _ (List.mem_flatMap.mpr ⟨row, hrow, by simp⟩))
      simpa only [Witnessed, witness, if_true, i64ToFr_cast] using hw
  · obtain ⟨-, -, hc⟩ := forall₂_exists_of_mem hregs.flip hreg
    exact hc

theorem assign_complete (hwf : cs.WellFormed) (h : config.Installed cs) (hB : config.BytesLoaded T)
    {floats : Floats} (order : HashOrder) (program : AssemblerProgram)
    (hR : usesRmsNorm program.instructions → config.RmsLoaded floats T) :
    Complete cs T A (config.assign floats order program true) fun regs => Ready cs A regs := by
  refine Triple.bind (Q := fun _ => True) (.of_emits (loadRangeTables_emits order) fun _ => ⟨fun e he => ?_, trivial⟩)
    fun _ _ => ?_
  · obtain ⟨t, -, rfl⟩ := List.mem_map.mp he
    trivial
  refine (assignTensors_complete h program.inputValues).bind fun inputs hinputs => ?_
  refine (assignTensors_complete h program.weightValues).bind fun weights hweights => ?_
  have hregs : Ready cs A ⟨inputs, weights, []⟩ := by
    intro ref reg hreg
    cases ref with
    | input i => exact hinputs reg (List.mem_of_getElem? hreg)
    | weight i => exact hweights reg (List.mem_of_getElem? hreg)
    | virtual i => simp [Registers.get?] at hreg
  exact (assignInstructions_complete hwf h hB hregs program.instructions hR).bind fun virtuals hrun => .pure hrun

end AssemblerConfig

end Zkie.Assembler
