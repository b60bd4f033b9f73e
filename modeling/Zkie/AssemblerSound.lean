import Zkie.Assembler

namespace Zkie.Assembler

open ScalarField FixedPoint Plonkish Synthesis Satisfaction HostRun Placement RangeCheck Rescale DotProduct
  Eltwise Lookup RmsNorm Isa

section Cells

variable {A : Assignment Fr} {cells : List (AssignedCell Fr)} {xs : List I18}

theorem exists_carries (h : ∀ c ∈ cells, ∃ v : I18, A.cell c.cell = (v.raw : Fr)) : ∃ xs, Carries A cells xs := by
  induction cells with
  | nil => exact ⟨[], .nil⟩
  | cons c cells ih =>
      obtain ⟨⟨v, hv⟩, hcells⟩ := List.forall_mem_cons.mp h
      obtain ⟨xs, hxs⟩ := ih hcells
      exact ⟨v :: xs, .cons hv hxs⟩

theorem carries_getD (h : Carries A cells xs) {t : ℕ} (ht : t < cells.length) :
    A.cell (cells.getD t default).cell = ((xs.getD t default).raw : Fr) := by
  have ht' : t < xs.length := h.length_eq ▸ ht
  rw [List.getD_eq_getElem?_getD, List.getD_eq_getElem?_getD, List.getElem?_eq_getElem ht,
    List.getElem?_eq_getElem ht']
  exact (List.forall₂_iff_get.mp h).2 t ht ht'

theorem carries_map {α : Type} {f : α → AssignedCell Fr} {g : α → I18} {l : List α}
    (h : ∀ a ∈ l, A.cell (f a).cell = ((g a).raw : Fr)) : Carries A (l.map f) (l.map g) := by
  rw [Carries, List.forall₂_map_left_iff, List.forall₂_map_right_iff, List.forall₂_same]
  exact h

theorem carries_pick {reg : RegisterCells} (h : Carries A reg.cells xs) (indices : List ℕ)
    (hin : ∀ t ∈ indices, t < reg.cells.length) : Carries A (reg.pick indices).cells (pick xs indices) :=
  carries_map fun t ht => carries_getD h (hin t ht)

theorem exists_carries_of_getD (h : ∀ t < cells.length, ∃ v : I18, A.cell (cells.getD t default).cell = (v.raw : Fr)) :
    ∃ xs, Carries A cells xs := by
  refine exists_carries fun c hc => ?_
  obtain ⟨t, ht, rfl⟩ := List.mem_iff_getElem.mp hc
  obtain ⟨v, hv⟩ := h t ht
  rw [List.getD_eq_getElem?_getD, List.getElem?_eq_getElem ht] at hv
  exact ⟨v, hv⟩

theorem pick_getD {reg : RegisterCells} {f : ℕ → ℕ} {k l : ℕ} {xs : List I18}
    (h : Carries A (reg.pick ((List.range k).map f)).cells xs) (hl : l < k) :
    A.cell (reg.cells.getD (f l) default).cell = ((xs.getD l default).raw : Fr) := by
  have hcell := carries_getD h (t := l) (by simpa [RegisterCells.pick] using hl)
  rw [← hcell, RegisterCells.pick, List.map_map, List.getD_eq_getElem?_getD (l := List.map _ _)]
  simp [hl]

/-- A prover's values for the operands of a row are those of the registers it is linked to. -/
theorem carries_of_operandLinks {aCells bCells : List (AssignedCell Fr)} {a b : RegisterCells} {xs ys : List I18}
    (hxs : Carries A aCells xs) (hys : Carries A bCells ys) (ha : aCells.length = a.cells.length)
    (hb : bCells.length = b.cells.length) (hab : aCells.length = bCells.length)
    (h : ∀ p ∈ AssemblerConfig.operandLinks aCells bCells a b, A.cell p.1.cell = A.cell p.2.cell) :
    Carries A a.cells xs ∧ Carries A b.cells ys := by
  have hlink : ∀ pq ∈ (aCells.zip a.cells).zip (bCells.zip b.cells),
      A.cell pq.1.1.cell = A.cell pq.1.2.cell ∧ A.cell pq.2.1.cell = A.cell pq.2.2.cell := fun pq hpq =>
    ⟨h _ (List.mem_flatMap.mpr ⟨pq, hpq, by simp⟩), h _ (List.mem_flatMap.mpr ⟨pq, hpq, by simp⟩)⟩
  have hlen : (aCells.zip a.cells).length = (bCells.zip b.cells).length := by simp; omega
  constructor
  · refine forall₂_of_zip ha hxs fun p hp x hx => ?_
    rw [← List.map_fst_zip hlen.le] at hp
    obtain ⟨pq, hpq, rfl⟩ := List.mem_map.mp hp
    exact (hlink pq hpq).1 ▸ hx
  · refine forall₂_of_zip hb hys fun p hp x hx => ?_
    rw [← List.map_snd_zip hlen.ge] at hp
    obtain ⟨pq, hpq, rfl⟩ := List.mem_map.mp hp
    exact (hlink pq hpq).2 ▸ hx

end Cells

namespace AssemblerConfig

variable {ε : Type} {config : AssemblerConfig} {cs : ConstraintSystem Fr} {T : List ℕ → List Fr → Prop}
  {A : Assignment Fr} {known : Bool}

theorem assignBridge_lays (v : I18) : Lays (config.assignBridge (ε := ε) v known)
    (fun r => (⟨⟨r, config.bridgeUnshifted, 0⟩, witness known (i64ToFr v)⟩,
      ⟨⟨r, config.bridgeShifted, 0⟩, witness known (i128ToFr (shiftedRaw v))⟩))
    fun r => [.region "assembler shift bridge" r, .enable config.sBridge r 0,
      .advice ⟨r, config.bridgeUnshifted, 0⟩ (witness known (i64ToFr v)),
      .advice ⟨r, config.bridgeShifted, 0⟩ (witness known (i128ToFr (shiftedRaw v)))] :=
  Emits.lays _ fun _ _ => rfl

theorem holds_bridge (hwf : cs.WellFormed) (h : config.Installed cs) (r : ℕ) :
    Holds cs T A (.enable config.sBridge r 0) ↔
      A.cell ⟨r, config.bridgeShifted, 0⟩ - A.cell ⟨r, config.bridgeUnshifted, 0⟩ - i128ToFr signedShift = 0 := by
  rw [holds_gate hwf h.bridge]
  simp [bridgeGate, Assignment.row]

/-- The bridge ties the two representations of a value in both directions. -/
theorem assignBridge_sound (hwf : cs.WellFormed) (h : config.Installed cs) (v : I18) :
    Sound cs T A (config.assignBridge (ε := ε) v known) fun c =>
      ∀ z : I18, A.cell c.2.cell = (shiftedRaw z : Fr) ↔ A.cell c.1.cell = (z.raw : Fr) := by
  refine .of_lays (assignBridge_lays v) fun r hr => ⟨fun _ _ => trivial, fun z => ?_⟩
  have hgate := (holds_bridge hwf h r).mp (hr _ (by simp))
  rw [sub_sub, sub_eq_zero, i128ToFr_cast] at hgate
  simp only [hgate, shiftedRaw, Int.cast_add]
  exact add_left_inj _

theorem assignOutput_sound (hwf : cs.WellFormed) (h : config.Installed cs) (link : String) (v : I18)
    (output : AssignedCell Fr) :
    Sound cs T A (config.assignOutput (ε := ε) link v output known) fun c =>
      ∀ z : I18, A.cell output.cell = (shiftedRaw z : Fr) → A.cell c.2.cell = (z.raw : Fr) := by
  refine (assignBridge_sound hwf h v).bind fun ⟨unshifted, shifted⟩ hbridge => ?_
  refine Sound.linkCells.bind fun _ hlink => .pure fun z hz => (hbridge z).mp ?_
  rw [← hz]
  exact hlink (shifted, output) (by simp)

theorem assignOperand_sound (hwf : cs.WellFormed) (h : config.Installed cs) (link : String) (v : I18)
    (cell : AssignedCell Fr) :
    Sound cs T A (config.assignOperand (ε := ε) link v cell known) fun c =>
      ∀ z : I18, A.cell c.cell = (shiftedRaw z : Fr) → A.cell cell.cell = (z.raw : Fr) := by
  refine (assignBridge_sound hwf h v).bind fun ⟨unshifted, shifted⟩ hbridge => ?_
  refine Sound.linkCells.bind fun _ hlink => .pure fun z hz => ?_
  rw [← hlink (unshifted, cell) (by simp)]
  exact (hbridge z).mp hz

theorem assignDotElement_sound (hwf : cs.WellFormed) (h : config.Installed cs)
    (hT : LookupRangeCheckConfig.OnlyBytes T) {dot : DotProductConfig} (hdot : dot.Installed cs) (i j : ℕ)
    {a b : RegisterCells} (ha : a.cells.length = dot.k) (hb : b.cells.length = dot.k) :
    Sound cs T A (config.assignDotElement dot i j a b known) fun c =>
      ∃ xs ys z, Carries A a.cells xs ∧ Carries A b.cells ys ∧ A.cell c.2.cell = (z.raw : Fr) ∧
        dotFloor xs ys = some z := by
  refine Triple.check.bind fun _ _ => ?_
  refine Triple.bind (Triple.mapError (.ofExcept (Q := fun _ => True) fun _ _ => trivial)) fun ⟨q, _⟩ _ => ?_
  refine (DotProductConfig.assignDotRow_sound hwf hdot hT).bind
    fun ⟨aCells, bCells, qCell⟩ ⟨xs, ys, z, hxs, hys, hz, hraw, hxlen, hylen⟩ => ?_
  refine Sound.linkCells.bind fun _ hlinks => ?_
  refine (assignOutput_sound hwf h _ q qCell).mono fun c hc => ?_
  have halen : aCells.length = dot.k := hxs.length_eq.trans hxlen
  have hblen : bCells.length = dot.k := hys.length_eq.trans hylen
  obtain ⟨hax, hby⟩ := carries_of_operandLinks hxs hys (halen.trans ha.symm) (hblen.trans hb.symm)
    (halen.trans hblen.symm) hlinks
  exact ⟨xs, ys, z, hax, hby, hc z hz, ofInt?_eq_some.mpr hraw⟩

theorem assignAddElement_sound (hwf : cs.WellFormed) (h : config.Installed cs) (idx : ℕ) (a b : I18)
    (aCell bCell : AssignedCell Fr) :
    Sound cs T A (config.assignAddElement idx a b aCell bCell known) fun c =>
      ∃ x y z : I18, A.cell aCell.cell = (x.raw : Fr) ∧ A.cell bCell.cell = (y.raw : Fr) ∧
        A.cell c.2.cell = (z.raw : Fr) ∧ checkedAdd x y = some z := by
  refine Triple.bind (.ofExcept (Q := fun _ => True) fun _ _ => trivial) fun c _ => ?_
  refine (assignOperand_sound hwf h _ a aCell).bind fun aShift ha => ?_
  refine (assignOperand_sound hwf h _ b bCell).bind fun bShift hb => ?_
  refine (EltwiseAddConfig.assignAddRow_sound hwf h.add a b known).bind
    fun ⟨aRow, bRow, cRow⟩ ⟨x, y, z, hx, hy, hz, hraw⟩ => ?_
  refine Sound.linkCells.bind fun _ hlinks => ?_
  simp only [List.forall_mem_cons, List.not_mem_nil, false_implies, implies_true, and_true] at hlinks
  refine (assignOutput_sound hwf h _ c cRow).mono fun out hout => ?_
  exact ⟨x, y, z, ha x (hlinks.1.symm.trans hx), hb y (hlinks.2.symm.trans hy), hout z hz,
    checkedAdd_eq_some.mpr hraw⟩

theorem assignMulElement_sound (hwf : cs.WellFormed) (h : config.Installed cs)
    (hT : LookupRangeCheckConfig.OnlyBytes T) (idx : ℕ) (a b : I18) (aCell bCell : AssignedCell Fr) :
    Sound cs T A (config.assignMulElement idx a b aCell bCell known) fun c =>
      ∃ x y z : I18, A.cell aCell.cell = (x.raw : Fr) ∧ A.cell bCell.cell = (y.raw : Fr) ∧
        A.cell c.2.cell = (z.raw : Fr) ∧ mulFloor x y = some z := by
  refine Triple.bind (Triple.mapError (.ofExcept (Q := fun _ => True) fun _ _ => trivial)) fun ⟨q, _⟩ _ => ?_
  refine (EltwiseMulConfig.assignMulRow_sound hwf h.mul hT a b known).bind
    fun ⟨aRow, bRow, qRow⟩ ⟨x, y, z, hx, hy, hz, hraw⟩ => ?_
  refine Sound.linkCells.bind fun _ hlinks => ?_
  simp only [List.forall_mem_cons, List.not_mem_nil, false_implies, implies_true, and_true] at hlinks
  refine (assignOutput_sound hwf h _ q qRow).mono fun out hout => ?_
  exact ⟨x, y, z, hlinks.1.symm.trans hx, hlinks.2.symm.trans hy, hout z hz, mulFloor_eq_some.mpr hraw⟩

/-- Every register has one cell for each value. -/
def Sized (regs : Registers) : Prop := ∀ ref reg, regs.get? ref = some reg → reg.cells.length = reg.values.length

/-- The instructions that read every element of their operands. -/
def Live : Instruction → Prop
  | .dotGeneral m n .. => 0 < m.toNat ∧ 0 < n.toNat
  | _ => True

/-- What the circuit enforces between the operands and the result of an instruction. A
normalisation may use any row of its table that the prover can reach. -/
def Enforced (config : AssemblerConfig) (floats : Floats) (xs ys zs : List I18) : Instruction → Prop
  | .rmsNorm dim epsilonMilli => ∃ rms table, findKey (dim, epsilonMilli) config.rmsNorm = some rms ∧
      rms.rsqrtDomain.table floats = some table ∧
      RmsNormConfig.Reachable rms.reduceMean.reciprocal table xs ys zs
  | .dotGeneral m n k _ transA transB => dotGeneral m.toNat n.toNat k.toNat transA transB xs ys = some zs
  | .eltwise .add => broadcast checkedAdd xs ys = some zs
  | .eltwise .mul => broadcast mulFloor xs ys = some zs
  | _ => False

/-- An assignment relates the registers of an instruction as the circuit enforces. -/
structure StepHolds (config : AssemblerConfig) (floats : Floats) (A : Assignment Fr) (regs : Registers)
    (instr : AssemblerInstruction) (out : RegisterCells) : Prop where
  sized : out.cells.length = out.values.length
  holds : ∃ aRef bRef a b, instr.inputs = [aRef, bRef] ∧ regs.get? aRef = some a ∧ regs.get? bRef = some b ∧
    (Live instr.instruction → ∃ xs ys zs, Carries A a.cells xs ∧ Carries A b.cells ys ∧
      Carries A out.cells zs ∧ config.Enforced floats xs ys zs instr.instruction)

theorem twoInputs_eq_ok {e : ℕ → AssemblerError} {inputs : List RegisterRef} {p : RegisterRef × RegisterRef}
    (h : twoInputs e inputs = .ok p) : inputs = [p.1, p.2] := by
  unfold twoInputs at h
  split at h <;> cases h
  rfl

theorem resolve_eq_ok {regs : Registers} {ref : RegisterRef} {reg : RegisterCells}
    (h : resolve regs ref = .ok reg) : regs.get? ref = some reg := by
  unfold resolve at h
  cases hget : regs.get? ref with
  | none => rw [hget] at h; cases h
  | some r => rw [hget] at h; cases h; rfl

theorem elim_eq_ok {α ε : Type} {x : Option α} {e : ε} {a : α} (h : x.elim (.error e) Except.ok = .ok a) :
    x = some a := by
  cases x with
  | none => cases h
  | some b => cases h; rfl

/-- The two operands of an instruction. -/
theorem operands_sound {regs : Registers} {inputs : List RegisterRef} {e : ℕ → AssemblerError} {β : Type}
    {f : RegisterCells → RegisterCells → Synth Fr AssemblerError β} {Q : β → Prop}
    (hf : ∀ aRef bRef a b, inputs = [aRef, bRef] → regs.get? aRef = some a → regs.get? bRef = some b →
      Sound cs T A (f a b) Q) :
    Sound cs T A (do
      let (aRef, bRef) ← Synth.ofExcept (twoInputs e inputs)
      let a ← Synth.ofExcept (resolve regs aRef)
      let b ← Synth.ofExcept (resolve regs bRef)
      f a b) Q := by
  refine Triple.bind (.ofExcept fun p hp => twoInputs_eq_ok hp) fun ⟨aRef, bRef⟩ hinputs => ?_
  refine Triple.bind (.ofExcept fun a ha => resolve_eq_ok ha) fun a ha => ?_
  refine Triple.bind (.ofExcept fun b hb => resolve_eq_ok hb) fun b hb => ?_
  exact hf aRef bRef a b hinputs ha hb

/-- The elements of a matrix product read every cell of both operands, and agree on what they read. -/
theorem dot_carries {m n k : ℕ} {transA transB : Bool} {a b : RegisterCells} {outs : List (I18 × AssignedCell Fr)}
    (halen : a.cells.length = m * k) (hblen : b.cells.length = k * n) (hm : 0 < m) (hn : 0 < n)
    (houts : List.Forall₂ (fun p c => ∃ xs ys z, Carries A (a.pick (rowA m k transA p.1)).cells xs ∧
      Carries A (b.pick (columnB n k transB p.2)).cells ys ∧ A.cell c.2.cell = (z.raw : Fr) ∧
      dotFloor xs ys = some z) (positions m n) outs) :
    ∃ xs ys zs, Carries A a.cells xs ∧ Carries A b.cells ys ∧ Carries A (outs.map Prod.snd) zs ∧
      dotGeneral m n k transA transB xs ys = some zs := by
  have hpos : ∀ {i j}, i < m → j < n → (i, j) ∈ positions m n := fun hi hj =>
    List.pair_mem_product.mpr ⟨List.mem_range.mpr hi, List.mem_range.mpr hj⟩
  obtain ⟨xs, hxs⟩ : ∃ xs, Carries A a.cells xs := by
    refine exists_carries_of_getD fun t ht => ?_
    obtain ⟨i, hi, l, hl, rfl⟩ := exists_physA transA (halen ▸ ht)
    obtain ⟨-, -, xs', -, -, hxs', -⟩ := forall₂_exists_of_mem houts (hpos hi hn)
    exact ⟨_, pick_getD hxs' hl⟩
  obtain ⟨ys, hys⟩ : ∃ ys, Carries A b.cells ys := by
    refine exists_carries_of_getD fun t ht => ?_
    obtain ⟨j, hj, l, hl, rfl⟩ := exists_physB transB (hblen ▸ ht)
    obtain ⟨-, -, -, ys', -, -, hys', -⟩ := forall₂_exists_of_mem houts (hpos hm hj)
    exact ⟨_, pick_getD (f := (physB n k transB · j)) hys' hl⟩
  have hstep : List.Forall₂ (fun p c => ∃ z : I18, A.cell c.2.cell = (z.raw : Fr) ∧
      dotFloor (pick xs (rowA m k transA p.1)) (pick ys (columnB n k transB p.2)) = some z)
      (positions m n) outs := by
    refine List.forall₂_iff_zip.mpr ⟨houts.length_eq, fun {p c} hpc => ?_⟩
    obtain ⟨xs', ys', z, hxs', hys', hz, hdot⟩ := List.forall₂_zip houts hpc
    obtain ⟨hi, hj⟩ := List.pair_mem_product.mp (List.of_mem_zip hpc).1
    have hx := hxs'.unique (carries_pick hxs (rowA m k transA p.1) fun t ht => by
      obtain ⟨l, hl, rfl⟩ := List.mem_map.mp ht
      exact halen ▸ physA_lt transA (List.mem_range.mp hi) (List.mem_range.mp hl))
    have hy := hys'.unique (carries_pick hys (columnB n k transB p.2) fun t ht => by
      obtain ⟨l, hl, rfl⟩ := List.mem_map.mp ht
      exact hblen ▸ physB_lt transB (List.mem_range.mp hl) (List.mem_range.mp hj))
    exact ⟨z, hz, hx ▸ hy ▸ hdot⟩
  obtain ⟨zs, hzs, heval⟩ := exists_mapM hstep
  exact ⟨xs, ys, zs, hxs, hys, List.forall₂_map_left_iff.mpr hzs, heval⟩

theorem assignDotGeneral_sound (hwf : cs.WellFormed) (h : config.Installed cs)
    (hT : LookupRangeCheckConfig.OnlyBytes T) (floats : Floats) {regs : Registers} (hregs : Sized regs)
    (inputs : List RegisterRef) (m n k : UInt64) (batchDims : List UInt64) (transA transB : Bool) :
    Sound cs T A (config.assignDotGeneral regs inputs m n k batchDims transA transB known)
      (config.StepHolds floats A regs ⟨.dotGeneral m n k batchDims transA transB, inputs⟩) := by
  refine Triple.ensure.bind fun _ _ => operands_sound fun aRef bRef a b hinputs ha hb => ?_
  refine Triple.check.bind fun _ _ => Triple.check.bind fun _ _ => Triple.ensure.bind fun _ ⟨halen, hblen⟩ => ?_
  refine Triple.bind (.ofExcept fun dot hdot => elim_eq_ok hdot) fun dot hdot => ?_
  refine Triple.check.bind fun _ _ => ?_
  obtain ⟨hinst, hk⟩ := h.dot _ (findKey_mem hdot)
  have hlen : ∀ (reg : RegisterCells) (f : ℕ → ℕ), (reg.pick ((List.range k.toNat).map f)).cells.length = dot.k :=
    fun reg f => by simpa only [RegisterCells.pick, List.length_map, List.length_range] using hk.symm
  refine Triple.bind (.forEach (Q := fun p c => ∃ xs ys z, Carries A (a.pick (rowA m.toNat k.toNat transA p.1)).cells xs ∧
    Carries A (b.pick (columnB n.toNat k.toNat transB p.2)).cells ys ∧ A.cell c.2.cell = (z.raw : Fr) ∧
    dotFloor xs ys = some z) fun ⟨i, j⟩ _ => assignDotElement_sound hwf h hT hinst i j (hlen a _) (hlen b _))
    fun outs houts => .pure ⟨by simp, aRef, bRef, a, b, hinputs, ha, hb, fun ⟨hm, hn⟩ => ?_⟩
  exact dot_carries (by rw [hregs _ _ ha, halen]) (by rw [hregs _ _ hb, hblen]) hm hn houts

/-- Broadcasting reads every cell of both operands. -/
theorem broadcast_carries {op : I18 → I18 → Option I18} {a b : List (AssignedCell Fr)}
    {outs : List (I18 × AssignedCell Fr)} (ha : 0 < a.length) (hb : 0 < b.length)
    (houts : List.Forall₂ (fun e c => ∃ x y z : I18, A.cell (a.getD (e % a.length) default).cell = (x.raw : Fr) ∧
      A.cell (b.getD (e % b.length) default).cell = (y.raw : Fr) ∧ A.cell c.2.cell = (z.raw : Fr) ∧
      op x y = some z) (List.range (max a.length b.length)) outs) :
    ∃ xs ys zs, Carries A a xs ∧ Carries A b ys ∧ Carries A (outs.map Prod.snd) zs ∧
      broadcast op xs ys = some zs := by
  obtain ⟨xs, hxs⟩ : ∃ xs, Carries A a xs := by
    refine exists_carries_of_getD fun t ht => ?_
    obtain ⟨-, -, x, -, -, hx, -⟩ := forall₂_exists_of_mem houts (List.mem_range.mpr (ht.trans_le (le_max_left _ _)))
    rw [Nat.mod_eq_of_lt ht] at hx
    exact ⟨x, hx⟩
  obtain ⟨ys, hys⟩ : ∃ ys, Carries A b ys := by
    refine exists_carries_of_getD fun t ht => ?_
    obtain ⟨-, -, -, y, -, -, hy, -⟩ :=
      forall₂_exists_of_mem houts (List.mem_range.mpr (ht.trans_le (le_max_right _ _)))
    rw [Nat.mod_eq_of_lt ht] at hy
    exact ⟨y, hy⟩
  have hstep : List.Forall₂ (fun e c => ∃ z : I18, A.cell c.2.cell = (z.raw : Fr) ∧
      op (xs.getD (e % a.length) default) (ys.getD (e % b.length) default) = some z)
      (List.range (max a.length b.length)) outs := by
    refine houts.imp fun e c ⟨x, y, z, hx, hy, hz, hop⟩ => ⟨z, hz, ?_⟩
    rw [← raw_inj (hx.symm.trans (carries_getD hxs (Nat.mod_lt e ha))),
      ← raw_inj (hy.symm.trans (carries_getD hys (Nat.mod_lt e hb))), hop]
  obtain ⟨zs, hzs, heval⟩ := exists_mapM hstep
  refine ⟨xs, ys, zs, hxs, hys, List.forall₂_map_left_iff.mpr hzs, ?_⟩
  rw [broadcast, ← hxs.length_eq, ← hys.length_eq]
  exact heval

/-- The host function of an elementwise operation. -/
def hostOp : EltwiseOp → I18 → I18 → Option I18
  | .add => checkedAdd
  | .mul => mulFloor
  | .relu => fun _ _ => none

theorem assignElement_sound (hwf : cs.WellFormed) (h : config.Installed cs)
    (hT : LookupRangeCheckConfig.OnlyBytes T) (op : EltwiseOp) (idx : ℕ) (a b : I18)
    (aCell bCell : AssignedCell Fr) :
    Sound cs T A (config.assignElement op idx a b aCell bCell known) fun c =>
      ∃ x y z : I18, A.cell aCell.cell = (x.raw : Fr) ∧ A.cell bCell.cell = (y.raw : Fr) ∧
        A.cell c.2.cell = (z.raw : Fr) ∧ hostOp op x y = some z := by
  cases op with
  | add => exact assignAddElement_sound hwf h idx a b aCell bCell
  | mul => exact assignMulElement_sound hwf h hT idx a b aCell bCell
  | relu => exact Triple.fail

theorem assignEltwise_sound (hwf : cs.WellFormed) (h : config.Installed cs)
    (hT : LookupRangeCheckConfig.OnlyBytes T) {regs : Registers} (hregs : Sized regs)
    (inputs : List RegisterRef) (op : EltwiseOp) :
    Sound cs T A (config.assignEltwise regs inputs op known) fun out => out.cells.length = out.values.length ∧
      ∃ aRef bRef a b, inputs = [aRef, bRef] ∧ regs.get? aRef = some a ∧ regs.get? bRef = some b ∧
        ∃ xs ys zs, Carries A a.cells xs ∧ Carries A b.cells ys ∧ Carries A out.cells zs ∧
          broadcast (hostOp op) xs ys = some zs := by
  refine operands_sound fun aRef bRef a b hinputs ha hb => ?_
  refine Triple.ensure.bind fun _ _ => Triple.check.bind fun _ ha0 => Triple.ensure.bind fun _ _ => ?_
  refine Triple.check.bind fun _ hb0 => Triple.ensure.bind fun _ _ => ?_
  refine Triple.bind (.forEach fun e _ => assignElement_sound hwf h hT op e _ _ _ _) fun outs houts =>
    .pure ⟨by simp, aRef, bRef, a, b, hinputs, ha, hb, ?_⟩
  rw [← hregs _ _ ha] at houts ha0
  rw [← hregs _ _ hb] at houts hb0
  exact broadcast_carries (Nat.pos_of_ne_zero ha0) (Nat.pos_of_ne_zero hb0) houts

/-- The table of a normalisation, once loaded, holds the rows of its domain. -/
def TablesLoaded (config : AssemblerConfig) (floats : Floats) (T : List ℕ → List Fr → Prop) : Prop :=
  ∀ entry ∈ config.rmsNorm, ∀ table, entry.2.rsqrtDomain.table floats = some table → entry.2.rsqrt.TableIs T table

theorem enumerate_cells {outputs : List I18} {cells : List (AssignedCell Fr)} (hlen : outputs.length = cells.length) :
    ((List.range outputs.length).zip (outputs.zip cells)).map (fun p => p.2.2) = cells :=
  calc ((List.range outputs.length).zip (outputs.zip cells)).map (fun p => p.2.2)
      = (((List.range outputs.length).zip (outputs.zip cells)).map Prod.snd).map Prod.snd := (List.map_map ..).symm
    _ = (outputs.zip cells).map Prod.snd := by rw [List.map_snd_zip (by simp)]
    _ = cells := List.map_snd_zip hlen.ge

theorem enumerate_values {outputs : List I18} {cells : List (AssignedCell Fr)} (hlen : outputs.length = cells.length) :
    ((List.range outputs.length).zip (outputs.zip cells)).map (fun p => p.2.1) = outputs :=
  calc ((List.range outputs.length).zip (outputs.zip cells)).map (fun p => p.2.1)
      = (((List.range outputs.length).zip (outputs.zip cells)).map Prod.snd).map Prod.fst := (List.map_map ..).symm
    _ = (outputs.zip cells).map Prod.fst := by rw [List.map_snd_zip (by simp)]
    _ = outputs := List.map_fst_zip hlen.le

theorem assignRmsNorm_sound (hwf : cs.WellFormed) (h : config.Installed cs)
    (hT : LookupRangeCheckConfig.OnlyBytes T) {floats : Floats} (hR : config.TablesLoaded floats T)
    {regs : Registers} (hregs : Sized regs) (inputs : List RegisterRef) (dim epsilonMilli : UInt64) :
    Sound cs T A (config.assignRmsNorm floats regs inputs dim epsilonMilli known)
      (config.StepHolds floats A regs ⟨.rmsNorm dim epsilonMilli, inputs⟩) := by
  refine operands_sound fun xRef wRef x w hinputs hx hw => ?_
  refine Triple.ensure.bind fun _ ⟨hxlen, hwlen⟩ => ?_
  refine Triple.bind (.ofExcept fun rms hrms => elim_eq_ok hrms) fun rms hrms => ?_
  refine Triple.bind (.unwrap fun _ => id) fun table htable => ?_
  obtain ⟨hinst, hk⟩ := h.rmsNorm _ (findKey_mem hrms)
  simp only at hinst hk
  refine (Triple.mapError (RmsNormConfig.assign_sound hwf hinst hT (hR _ (findKey_mem hrms) table htable) table
    x.values w.values)).bind fun result ⟨xs, ws, ys, hxs, hws, hys, hxk, hwk, hlen, hreach⟩ => ?_
  refine Sound.linkCells.bind fun _ hlinks => ?_
  obtain ⟨hxr, hwr⟩ := carries_of_operandLinks hxs hws (by rw [hxk, hk, hregs _ _ hx, hxlen])
    (by rw [hwk, hk, hregs _ _ hw, hwlen]) (hxk.trans hwk.symm) hlinks
  refine Triple.bind (.forEach (Q := fun p c => ∀ z : I18, A.cell p.2.2.cell = (shiftedRaw z : Fr) →
    A.cell c.2.cell = (z.raw : Fr)) fun ⟨i, v, cell⟩ _ => assignOutput_sound hwf h _ v cell) fun outs houts => .pure
    ⟨?_, xRef, wRef, x, w, hinputs, hx, hw, fun _ => ⟨xs, ws, ys, hxr, hwr, ?_, rms, table, hrms, htable, hreach⟩⟩
  · rw [List.length_map, ← houts.length_eq]
    simp [hlen]
  · rw [CarriesShifted, ← enumerate_cells hlen, List.forall₂_map_left_iff] at hys
    refine List.forall₂_map_left_iff.mpr (forall₂_of_zip houts.length_eq hys fun p hp y hy => ?_)
    exact List.forall₂_zip houts hp y hy

theorem assignInstruction_sound (hwf : cs.WellFormed) (h : config.Installed cs)
    (hT : LookupRangeCheckConfig.OnlyBytes T) {floats : Floats} {regs : Registers} (hregs : Sized regs)
    (instr : AssemblerInstruction)
    (hR : ∀ dim epsilonMilli, instr.instruction = .rmsNorm dim epsilonMilli → config.TablesLoaded floats T) :
    Sound cs T A (config.assignInstruction floats regs instr known) (config.StepHolds floats A regs instr) := by
  obtain ⟨instruction, inputs⟩ := instr
  cases instruction with
  | dotGeneral m n k batchDims transA transB =>
      exact assignDotGeneral_sound hwf h hT floats hregs inputs m n k batchDims transA transB
  | eltwise op =>
      cases op with
      | add =>
          refine (assignEltwise_sound hwf h hT hregs inputs .add).mono
            fun out ⟨hlen, aRef, bRef, a, b, hi, ha, hb, hout⟩ => ⟨hlen, aRef, bRef, a, b, hi, ha, hb, fun _ => hout⟩
      | mul =>
          refine (assignEltwise_sound hwf h hT hregs inputs .mul).mono
            fun out ⟨hlen, aRef, bRef, a, b, hi, ha, hb, hout⟩ => ⟨hlen, aRef, bRef, a, b, hi, ha, hb, fun _ => hout⟩
      | relu => exact Triple.fail
  | rmsNorm dim epsilonMilli => exact assignRmsNorm_sound hwf h hT (hR _ _ rfl) hregs inputs dim epsilonMilli
  | softmax | gelu | layerNorm | reduce | embedLookup | patchEmbed => exact Triple.fail

section Placed

variable {floats : Floats} {regs : Registers}

theorem assignBridge_placed (h : config.Installed cs) (v : I18) : Placed (config.assignBridge (ε := ε) v known) :=
  .of_row [config.bridgeUnshifted, config.bridgeShifted] (assignBridge_lays v) (fun _ => rfl)
    (by simpa using h.distinct) fun _ => by simp [IsInner]

theorem assignOutput_placed (h : config.Installed cs) (link : String) (v : I18) (output : AssignedCell Fr) :
    Placed (config.assignOutput (ε := ε) link v output known) :=
  (assignBridge_placed h v).bind fun _ => Placed.linkCells.bind fun _ => .pure

theorem assignOperand_placed (h : config.Installed cs) (link : String) (v : I18) (cell : AssignedCell Fr) :
    Placed (config.assignOperand (ε := ε) link v cell known) :=
  (assignBridge_placed h v).bind fun _ => Placed.linkCells.bind fun _ => .pure

theorem assignDotElement_placed (h : config.Installed cs) {dot : DotProductConfig} (hdot : dot.Installed cs)
    (i j : ℕ) (a b : RegisterCells) : Placed (config.assignDotElement dot i j a b known) :=
  Placed.check.bind fun _ => (Placed.mapError Placed.ofExcept).bind fun _ =>
    (DotProductConfig.assignDotRow_placed hdot).bind fun _ => Placed.linkCells.bind fun _ =>
      assignOutput_placed h _ _ _

theorem assignElement_placed (h : config.Installed cs) (op : EltwiseOp) (idx : ℕ) (a b : I18)
    (aCell bCell : AssignedCell Fr) : Placed (config.assignElement op idx a b aCell bCell known) := by
  cases op with
  | add =>
      exact Placed.ofExcept.bind fun _ => (assignOperand_placed h _ _ _).bind fun _ =>
        (assignOperand_placed h _ _ _).bind fun _ => (EltwiseAddConfig.assignAddRow_placed h.add _ _ _).bind fun _ =>
          Placed.linkCells.bind fun _ => assignOutput_placed h _ _ _
  | mul =>
      exact (Placed.mapError Placed.ofExcept).bind fun _ => (EltwiseMulConfig.assignMulRow_placed h.mul _ _ _).bind
        fun _ => Placed.linkCells.bind fun _ => assignOutput_placed h _ _ _
  | relu => exact Placed.fail

theorem operands_placed {inputs : List RegisterRef} {e : ℕ → AssemblerError} {β : Type}
    {f : RegisterCells → RegisterCells → Synth Fr AssemblerError β} (hf : ∀ a b, Placed (f a b)) :
    Placed (do
      let (aRef, bRef) ← Synth.ofExcept (twoInputs e inputs)
      let a ← Synth.ofExcept (resolve regs aRef)
      let b ← Synth.ofExcept (resolve regs bRef)
      f a b) :=
  Placed.ofExcept.bind fun _ => Placed.ofExcept.bind fun a => Placed.ofExcept.bind fun b => hf a b

theorem assignInstruction_placed (h : config.Installed cs) (instr : AssemblerInstruction) :
    Placed (config.assignInstruction floats regs instr known) := by
  obtain ⟨instruction, inputs⟩ := instr
  cases instruction with
  | dotGeneral m n k batchDims transA transB =>
      refine Placed.ensure.bind fun _ => operands_placed fun a b => ?_
      refine Placed.check.bind fun _ => Placed.check.bind fun _ => Placed.ensure.bind fun _ => ?_
      refine Placed.ofExcept_bind fun dot hdot => Placed.check.bind fun _ => ?_
      have hinst := (h.dot _ (findKey_mem (elim_eq_ok hdot))).1
      exact (Placed.forEach fun p _ => assignDotElement_placed h hinst p.1 p.2 _ _).bind fun _ => .pure
  | eltwise op =>
      have helt : ∀ op, Placed (config.assignEltwise regs inputs op known) := fun op =>
        operands_placed fun a b => Placed.ensure.bind fun _ => Placed.check.bind fun _ => Placed.ensure.bind fun _ =>
          Placed.check.bind fun _ => Placed.ensure.bind fun _ =>
            (Placed.forEach fun e _ => assignElement_placed h op e _ _ _ _).bind fun _ => .pure
      cases op with
      | add => exact helt .add
      | mul => exact helt .mul
      | relu => exact Placed.fail
  | rmsNorm dim epsilonMilli =>
      refine operands_placed fun x w => Placed.ensure.bind fun _ => Placed.ofExcept_bind fun rms hrms => ?_
      have hinst := (h.rmsNorm _ (findKey_mem (elim_eq_ok hrms))).1
      exact Placed.unwrap.bind fun domain => (Placed.mapError (RmsNormConfig.assign_placed hinst domain _ _)).bind
        fun _ => Placed.linkCells.bind fun _ => (Placed.forEach fun p _ => assignOutput_placed h _ _ _).bind
          fun _ => .pure
  | softmax | gelu | layerNorm | reduce | embedLookup | patchEmbed => exact Placed.fail

theorem assignInstructions_placed (h : config.Installed cs) (instructions : List AssemblerInstruction) :
    Placed (config.assignInstructions floats regs instructions known) :=
  Placed.foldEach (fun _ instr _ => (assignInstruction_placed h instr).bind fun _ => .pure) _

theorem assignBoundary_lays (tensor : List I18) : Lays (config.assignBoundary (ε := ε) tensor known)
    (fun r => (List.range tensor.length).map fun row : ℕ =>
      ⟨⟨r, config.boundary, row⟩, witness known (i64ToFr (tensor.getD row default))⟩)
    fun r => .region "assembler boundary" r :: (List.range tensor.length).flatMap fun row : ℕ =>
      [.advice ⟨r, config.boundary, row⟩ (witness known (i64ToFr (tensor.getD row default)))] :=
  Emits.lays _ fun _ => Emits.forEach fun _ _ _ => rfl

theorem assignTensors_placed (tensors : List (List I18)) :
    Placed (config.assignTensors (ε := ε) tensors known) := by
  refine Placed.forEach fun tensor _ => Placed.bind ?_ fun _ => .pure
  have hcells : ∀ r : ℕ, cellsOf (F := Fr) (.region "assembler boundary" r :: (List.range tensor.length).flatMap
      fun row : ℕ => [.advice ⟨r, config.boundary, row⟩ (witness known (i64ToFr (tensor.getD row default)))]) =
      (List.range tensor.length).map fun row : ℕ => ⟨r, config.boundary, row⟩ := fun r => by
    simp only [cellsOf, List.filterMap_cons, written, List.filterMap_flatMap, List.filterMap_nil]
    rw [← List.flatMap_pure_eq_map]
    rfl
  refine .of_lays (assignBoundary_lays tensor) (fun r c hc => ?_) (fun r => ?_) fun r e he => ?_
  · rw [hcells] at hc
    obtain ⟨row, -, rfl⟩ := List.mem_map.mp hc
    rfl
  · rw [hcells]
    exact List.nodup_range.map fun i j hij => by simpa using hij
  · rcases List.mem_cons.mp he with rfl | he
    · trivial
    · obtain ⟨row, -, he⟩ := List.mem_flatMap.mp he
      rw [List.mem_singleton.mp he]
      trivial

end Placed

section Runs

variable {floats : Floats} {order : HashOrder}

/-- Every instruction of a run holds over the registers that came before it. -/
structure RunHolds (config : AssemblerConfig) (floats : Floats) (A : Assignment Fr) (regs : Registers)
    (instructions : List AssemblerInstruction) (virtuals : List RegisterCells) : Prop where
  length : virtuals.length = instructions.length
  sized : Sized { regs with virtuals }
  steps : ∀ j instr out, instructions[j]? = some instr → virtuals[j]? = some out →
    config.StepHolds floats A { regs with virtuals := virtuals.take j } instr out

theorem RunHolds.append {regs : Registers} {instructions : List AssemblerInstruction} {virtuals : List RegisterCells}
    {instr : AssemblerInstruction} {out : RegisterCells}
    (h : config.RunHolds floats A regs instructions virtuals)
    (hout : config.StepHolds floats A { regs with virtuals } instr out) :
    config.RunHolds floats A regs (instructions ++ [instr]) (virtuals ++ [out]) where
  length := by simp [h.length]
  sized := by
    intro ref reg hreg
    cases ref with
    | input i => exact h.sized (.input i) reg hreg
    | weight i => exact h.sized (.weight i) reg hreg
    | virtual i =>
        rcases Nat.lt_or_ge i.toNat virtuals.length with hi | hi
        · refine h.sized (.virtual i) reg ?_
          rwa [Registers.get?, List.getElem?_append_left hi] at hreg
        · rw [Registers.get?, List.getElem?_append_right hi] at hreg
          rw [List.mem_singleton.mp (List.mem_of_getElem? hreg)]
          exact hout.sized
  steps := by
    intro j instr' out' hinstr hout'
    rcases Nat.lt_or_ge j virtuals.length with hj | hj
    · rw [List.getElem?_append_left (h.length ▸ hj)] at hinstr
      rw [List.getElem?_append_left hj] at hout'
      rw [List.take_append_of_le_length hj.le]
      exact h.steps j instr' out' hinstr hout'
    · rw [List.getElem?_append_right hj] at hout'
      rw [List.getElem?_append_right (h.length ▸ hj)] at hinstr
      obtain rfl : j = virtuals.length := by
        have := (List.getElem?_eq_some_iff.mp hout').1
        simp only [List.length_singleton] at this
        omega
      rw [List.mem_singleton.mp (List.mem_of_getElem? hinstr), List.mem_singleton.mp (List.mem_of_getElem? hout'),
        List.take_left' rfl]
      exact hout

def usesRmsNorm (instructions : List AssemblerInstruction) : Prop :=
  ∃ instr ∈ instructions, ∃ dim epsilonMilli, instr.instruction = .rmsNorm dim epsilonMilli

theorem assignInstructions_sound (hwf : cs.WellFormed) (h : config.Installed cs)
    (hT : LookupRangeCheckConfig.OnlyBytes T) {inputs weights : List RegisterCells}
    (hregs : Sized ⟨inputs, weights, []⟩) (instructions : List AssemblerInstruction)
    (hR : usesRmsNorm instructions → config.TablesLoaded floats T) :
    Sound cs T A (config.assignInstructions floats ⟨inputs, weights, []⟩ instructions known)
      (config.RunHolds floats A ⟨inputs, weights, []⟩ instructions) := by
  refine Triple.foldEach (I := config.RunHolds floats A ⟨inputs, weights, []⟩)
    (fun done instr rest hsplit virtuals hdone => ?_) ⟨rfl, hregs, by simp⟩
  have hmem : instr ∈ instructions := by simp [hsplit]
  refine (assignInstruction_sound hwf h hT hdone.sized instr fun dim e he => hR ⟨instr, hmem, dim, e, he⟩).bind
    fun out hout => .pure (hdone.append hout)

theorem assignTensors_sound (tensors : List (List I18)) :
    Sound cs T A (config.assignTensors (ε := ε) tensors known) fun regs =>
      List.Forall₂ (fun tensor reg => reg.values = tensor ∧ reg.cells.length = tensor.length) tensors regs := by
  refine Triple.forEach fun tensor _ => Triple.bind (Q := fun cells => cells.length = tensor.length)
    (.of_lays (assignBoundary_lays tensor) fun _ _ => ⟨fun _ _ => trivial, by simp⟩) fun cells hcells => .pure ?_
  exact ⟨rfl, hcells⟩

theorem sized_of_tensors {inputs weights : List (List I18)} {inputRegs weightRegs : List RegisterCells}
    (hi : List.Forall₂ (fun tensor reg => reg.values = tensor ∧ reg.cells.length = tensor.length) inputs inputRegs)
    (hw : List.Forall₂ (fun tensor reg => reg.values = tensor ∧ reg.cells.length = tensor.length) weights weightRegs) :
    Sized ⟨inputRegs, weightRegs, []⟩ := by
  intro ref reg hreg
  cases ref with
  | input i =>
      obtain ⟨tensor, -, hv, hlen⟩ := forall₂_exists_of_mem hi.flip (List.mem_of_getElem? hreg)
      rw [hlen, hv]
  | weight i =>
      obtain ⟨tensor, -, hv, hlen⟩ := forall₂_exists_of_mem hw.flip (List.mem_of_getElem? hreg)
      rw [hlen, hv]
  | virtual i => simp [Registers.get?] at hreg

theorem assign_sound (hwf : cs.WellFormed) (h : config.Installed cs) (hT : LookupRangeCheckConfig.OnlyBytes T)
    (program : AssemblerProgram) (hR : usesRmsNorm program.instructions → config.TablesLoaded floats T) :
    Sound cs T A (config.assign floats order program known) fun regs =>
      config.RunHolds floats A regs program.instructions regs.virtuals := by
  refine Triple.bind (Q := fun _ => True) (fun _ _ _ _ _ _ => ⟨fun _ _ => trivial, trivial⟩) fun _ _ => ?_
  refine (assignTensors_sound program.inputValues).bind fun inputs hinputs => ?_
  refine (assignTensors_sound program.weightValues).bind fun weights hweights => ?_
  exact (assignInstructions_sound hwf h hT (sized_of_tensors hinputs hweights) program.instructions hR).bind
    fun virtuals hrun => .pure ⟨hrun.length, hrun.sized, hrun.steps⟩

/-- A single-column table holds the bytes. -/
def BytesOnly : Event Fr → Prop
  | .table [_] rows => rows = LookupRangeCheckConfig.byteTable
  | _ => True

theorem bytesOnly_of_inner {e : Event Fr} (h : IsInner e) : BytesOnly e := by
  cases e <;> trivial

theorem onlyBytes_of_events {es : List (Event Fr)} (h : ∀ e ∈ es, BytesOnly e) :
    LookupRangeCheckConfig.OnlyBytes (Loaded es) := by
  rintro t row ⟨rows, hmem, hrow⟩
  have hrows : rows = LookupRangeCheckConfig.byteTable := h _ hmem
  exact hrows ▸ hrow

end Runs

end AssemblerConfig

end Zkie.Assembler
