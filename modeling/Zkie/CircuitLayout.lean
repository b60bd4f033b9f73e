import Zkie.CircuitShape
import Zkie.ProgramKeygen

namespace Zkie.ProgramCircuit

open ScalarField FixedPoint Plonkish Synthesis Satisfaction HostRun Skeleton RmsNorm Isa Assembler PoseidonBoundary

section Commitment

variable {ε : Type} {config : PoseidonBoundaryConfig} {params : PoseidonParameters}

theorem assignRound_agree (region : ℕ) {cells cells' : List (AssignedCell Fr)} (round : ℕ) :
    Agree (config.assignRound (ε := ε) params region cells round) (config.assignRound (ε := ε) params region cells' round)
      SameCells := by
  apply (Agree.emit rfl).bind
  intro _ _ _
  apply Agree.bind (R := List.Forall₂ fun _ _ => True)
  · apply Agree.forEach (R := (· = ·)) (List.forall₂_same.mpr fun _ _ => rfl)
    rintro column _ rfl
    exact Agree.emit rfl
  · intro _ _ _
    apply Agree.forEach (R := (· = ·)) (List.forall₂_same.mpr fun _ _ => rfl)
    rintro row _ rfl
    exact Agree.assignAdvice _ _ _ _ _

theorem headD_cell {cells cells' : List (AssignedCell Fr)} (h : SameCells cells cells') {c c' : AssignedCell Fr}
    (hc : c.cell = c'.cell) : (cells.headD c).cell = (cells'.headD c').cell := by
  cases h with
  | nil => exact hc
  | cons hhead _ => exact hhead

/-- Which cells a compression reads decides what it lays down, not what they hold. -/
theorem hashPair_agree {left left' right right' : AssignedCell Fr} (hleft : left.cell = left'.cell)
    (hright : right.cell = right'.cell) :
    Agree (config.hashPair (ε := ε) params left right) (config.hashPair (ε := ε) params left' right')
      fun c c' => c.cell = c'.cell := by
  apply Agree.assignRegion
  intro region
  apply (Agree.assignAdvice _ _ _ _ _).bind
  intro zero zero' hzero
  apply (Agree.emit (by simp only [skeleton, hzero])).bind
  intro _ _ _
  apply (Agree.assignAdvice _ _ _ _ _).bind
  intro leftCopy leftCopy' hleftCopy
  apply (Agree.emit (by simp only [skeleton, hleft, hleftCopy])).bind
  intro _ _ _
  apply (Agree.assignAdvice _ _ _ _ _).bind
  intro rightCopy rightCopy' hrightCopy
  apply (Agree.emit (by simp only [skeleton, hright, hrightCopy])).bind
  intro _ _ _
  apply Agree.bind (R := SameCells)
  · apply Agree.foldEach (R := (· = ·)) (List.forall₂_same.mpr fun _ _ => rfl)
    · rintro cells cells' round _ _ rfl
      exact assignRound_agree region round
    · exact .cons hzero (.cons hleftCopy (.cons hrightCopy .nil))
  · intro cells cells' hcells
    exact .pure (headD_cell hcells hzero)

theorem assignConstant_agree (value : Fr) :
    Agree (config.assignConstant (ε := ε) value) (config.assignConstant (ε := ε) value) fun c c' => c.cell = c'.cell := by
  apply Agree.assignRegion
  intro region
  apply (Agree.assignAdvice _ _ _ _ _).bind
  intro cell cell' hcell
  exact (Agree.emit (by simp only [skeleton, hcell])).bind fun _ _ _ => .pure hcell

theorem assignPublicValue_agree (value value' : Fr) :
    Agree (config.assignPublicValue (ε := ε) value) (config.assignPublicValue (ε := ε) value')
      fun c c' => c.cell = c'.cell :=
  Agree.assignRegion fun _ => Agree.assignAdvice _ _ _ _ _

theorem constrainEqualToConstant_agree {cell cell' : AssignedCell Fr} (hcell : cell.cell = cell'.cell) (value : Fr) :
    Agree (config.constrainEqualToConstant (ε := ε) cell value) (config.constrainEqualToConstant (ε := ε) cell' value)
      fun _ _ => True :=
  (assignConstant_agree value).bind fun _ _ hconstant => Agree.linkCells (.cons ⟨hcell, hconstant⟩ .nil)

theorem commitAssigned_agree (blake3 : Blake3) (e : ε) (descriptor : BoundaryDescriptor)
    {values values' : List (AssignedCell Fr)} (h : SameCells values values') :
    Agree (config.commitAssigned params blake3 e descriptor values) (config.commitAssigned params blake3 e descriptor values')
      fun c c' => c.cell = c'.cell := by
  apply Agree.ensure.bind
  intro _ _ _
  apply (assignConstant_agree _).bind
  intro domain domain' hdomain
  apply Agree.bind (R := fun c c' => c.cell = c'.cell)
  · refine Agree.foldEach (R := (· = ·)) (S := fun (c c' : AssignedCell Fr) => c.cell = c'.cell) (List.forall₂_same.mpr fun _ _ => rfl) ?_ hdomain
    rintro state state' field _ hstate rfl
    exact (assignConstant_agree field).bind fun _ _ hfield => hashPair_agree hstate hfield
  · intro described described' hdescribed
    rw [h.length_eq]
    apply (assignConstant_agree _).bind
    intro count count' hcount
    apply (hashPair_agree hdescribed hcount).bind
    intro counted counted' hcounted
    exact Agree.foldEach h (fun state state' value value' hstate hvalue => hashPair_agree hstate hvalue) hcounted

end Commitment

section Exposure

variable {prims : Primitives} {poseidon : PoseidonBoundaryConfig} {column : Column} {assigned assigned' : Registers}

theorem expose_agree (offset : ℕ) {cell cell' : AssignedCell Fr} (h : cell.cell = cell'.cell) :
    Agree (expose column offset cell) (expose column offset cell') (· = ·) := by
  unfold expose Synth.constrainInstance
  rw [h]
  exact (Agree.emit rfl).bind fun _ _ _ => .pure rfl

theorem exposeCells_agree {cells cells' : List (AssignedCell Fr)} (h : SameCells cells cells') (offset : ℕ) :
    Agree (Synth.foldEach (expose column) offset cells) (Synth.foldEach (expose column) offset cells') (· = ·) := by
  refine Agree.foldEach h ?_ rfl
  rintro offset _ cell cell' rfl hcell
  exact expose_agree offset hcell

theorem exposeConstant_agree (offset : ℕ) (value : Fr) :
    Agree (exposeConstant poseidon column offset value) (exposeConstant poseidon column offset value) (· = ·) :=
  (assignConstant_agree value).bind fun _ _ hcell => expose_agree offset hcell

theorem exposeConstants_agree (offset : ℕ) (values : List Fr) :
    Agree (Synth.foldEach (exposeConstant poseidon column) offset values)
      (Synth.foldEach (exposeConstant poseidon column) offset values) (· = ·) := by
  refine Agree.foldEach (R := (· = ·)) (List.forall₂_same.mpr fun _ _ => rfl) ?_ rfl
  rintro offset _ value _ rfl rfl
  exact exposeConstant_agree offset value

theorem getTensor_agree {regs regs' : List RegisterCells} (h : List.Forall₂ SameShape regs regs') (i : ℕ) :
    Agree (getTensor regs[i]?) (getTensor regs'[i]?) SameShape := by
  apply Agree.ofExcept
  intro reg reg' hreg hreg'
  exact forall₂_getElem? h (AssemblerConfig.elim_eq_ok hreg) (AssemblerConfig.elim_eq_ok hreg')

theorem exposeInput_agree (h : List.Forall₂ SameShape assigned.inputs assigned'.inputs) (offset : ℕ)
    (entry : BoundaryDescriptor × ℕ) :
    Agree (exposeInput prims poseidon column assigned offset entry) (exposeInput prims poseidon column assigned' offset entry)
      (· = ·) := by
  apply (exposeConstants_agree offset _).bind
  rintro offset _ rfl
  apply (getTensor_agree h entry.2).bind
  intro tensor tensor' htensor
  exact (commitAssigned_agree _ _ _ htensor.cells).bind fun _ _ hcell => expose_agree offset hcell

theorem exposeOutput_agree (h : List.Forall₂ SameShape assigned.virtuals assigned'.virtuals) (offset : ℕ)
    (entry : ℕ × BoundaryDescriptor) :
    Agree (exposeOutput prims poseidon column assigned offset entry)
      (exposeOutput prims poseidon column assigned' offset entry) (· = ·) := by
  apply (exposeConstants_agree offset _).bind
  rintro offset _ rfl
  apply (getTensor_agree h entry.1).bind
  intro tensor tensor' htensor
  apply Agree.ensure.bind
  intro _ _ _
  exact (commitAssigned_agree _ _ _ htensor.cells).bind fun _ _ hcell => expose_agree offset hcell

theorem exposeWeights_agree {tensor tensor' : RegisterCells} (h : SameShape tensor tensor') (fixed : List I18) (offset : ℕ) :
    Agree (exposeWeights poseidon column offset (tensor, fixed)) (exposeWeights poseidon column offset (tensor', fixed))
      (· = ·) := by
  refine Agree.foldEach (forall₂_zip_zip h.cells (List.forall₂_same.mpr fun value _ => rfl)) ?_ rfl
  rintro offset _ ⟨cell, value⟩ ⟨cell', _⟩ rfl ⟨hcell, rfl⟩
  exact (constrainEqualToConstant_agree hcell _).bind fun _ _ _ => expose_agree offset hcell

end Exposure

section Order

/-- Tables belong to no region; the order in which they are loaded is not part of a layout. -/
def isTable : Event Fr → Bool
  | .table .. => true
  | _ => false

/-- The two layouts load the same tables, in any order, and agree otherwise, in order. -/
structure SameLayout (es fs : List (Event Fr)) : Prop where
  tables : (es.filter isTable).Perm (fs.filter isTable)
  rest : (es.filter (!isTable ·)).map skeleton = (fs.filter (!isTable ·)).map skeleton

variable {es es' fs fs' : List (Event Fr)}

theorem isTable_skeleton (e : Event Fr) : isTable (skeleton e) = isTable e := by
  cases e <;> rfl

theorem SameLayout.of_skeleton (h : es.map skeleton = fs.map skeleton) : SameLayout es fs := by
  have hcomp : ∀ b : Bool, (es.filter (isTable · == b)).map skeleton = (fs.filter (isTable · == b)).map skeleton := by
    intro b
    have hfilter := congrArg (List.filter (isTable · == b)) h
    simpa only [List.filter_map, Function.comp_def, isTable_skeleton] using hfilter
  have hsame : ∀ l : List (Event Fr), (l.filter isTable).map skeleton = l.filter isTable := by
    intro l
    refine (List.map_congr_left (g := id) fun e he => ?_).trans (List.map_id _)
    cases e <;> first | rfl | cases (List.mem_filter.mp he).2
  constructor
  · have htrue := hcomp true
    simp only [beq_true, hsame] at htrue
    exact List.Perm.of_eq htrue
  · have hfalse := hcomp false
    simpa only [beq_false] using hfalse

theorem SameLayout.of_tables (htable : ∀ e ∈ es, isTable e = true) (h : es.Perm fs) : SameLayout es fs := by
  have htable' : ∀ e ∈ fs, isTable e = true := fun e he => htable e (h.mem_iff.mpr he)
  constructor
  · exact h.filter _
  · rw [List.filter_eq_nil_iff.mpr, List.filter_eq_nil_iff.mpr]
    · intro e he
      simp [htable' e he]
    · intro e he
      simp [htable e he]

theorem SameLayout.append (h : SameLayout es fs) (h' : SameLayout es' fs') : SameLayout (es ++ es') (fs ++ fs') := by
  constructor
  · rw [List.filter_append, List.filter_append]
    exact h.tables.append h'.tables
  · rw [List.filter_append, List.filter_append, List.map_append, List.map_append, h.rest, h'.rest]

theorem SameLayout.symm (h : SameLayout es fs) : SameLayout fs es := ⟨h.tables.symm, h.rest.symm⟩

theorem SameLayout.trans (h : SameLayout es fs) (h' : SameLayout fs fs') : SameLayout es fs' :=
  ⟨h.tables.trans h'.tables, h.rest.trans h'.rest⟩

end Order

namespace AssemblerCircuit

section Reorder

variable {ε : Type} {config : AssemblerConfig} {floats : Floats}

/-- The tables of an entry whose domain exists. -/
def entryTables (floats : Floats) (entry : (UInt64 × UInt64) × RmsNormConfig) : List (Event Fr) :=
  (entry.2.rsqrtDomain.table floats).elim [] (AssemblerConfig.normTables entry.2)

theorem loadRmsNormTables_emits (h : TablesExist config floats) (order : HashOrder) :
    Emits (config.loadRmsNormTables (ε := ε) floats order) ()
      ((order.rmsNorm config.rmsNorm).flatMap (entryTables floats)) := by
  have heach : Emits (Synth.forEach (ε := ε) (fun entry : (UInt64 × UInt64) × RmsNormConfig => do
      let domain ← Synth.unwrap "rsqrt domain" (entry.2.rsqrtDomain.table floats)
      entry.2.loadTable domain) (order.rmsNorm config.rmsNorm)) _ _ :=
    Emits.forEach (g := fun _ => ()) (e := entryTables floats) fun entry hentry => by
      obtain ⟨table, htable⟩ := Option.isSome_iff_exists.mp (h entry ((order.rmsNorm_perm _).mem_iff.mp hentry))
      intro n
      simp only [entryTables, htable]
      rfl
  rw [← List.append_nil (List.flatMap _ _)]
  exact heach.bind (Emits.pure ())

theorem isTable_entryTables {entries : List ((UInt64 × UInt64) × RmsNormConfig)} :
    ∀ e ∈ entries.flatMap (entryTables floats), isTable e = true := by
  intro e he
  obtain ⟨entry, -, hentry⟩ := List.mem_flatMap.mp he
  unfold entryTables at hentry
  cases htable : entry.2.rsqrtDomain.table floats with
  | none =>
      rw [htable] at hentry
      cases hentry
  | some table =>
      rw [htable] at hentry
      simp only [Option.elim_some, AssemblerConfig.normTables, List.mem_cons, List.not_mem_nil, or_false] at hentry
      obtain rfl | rfl | rfl := hentry <;> rfl

/-- With another order of the hash maps the same tables are loaded. -/
theorem loadRmsNormTables_reorder (order order' : HashOrder) {n n' : ℕ} {es : List (Event Fr)}
    (h : config.loadRmsNormTables (ε := ε) floats order n = .ok ((), es, n')) :
    ∃ fs, config.loadRmsNormTables (ε := ε) floats order' n = .ok ((), fs, n') ∧ SameLayout es fs := by
  have hexist : TablesExist config floats := ((loadRmsNormTables_decides config floats order n).1 _ _ _ h).1
  rw [loadRmsNormTables_emits hexist order n] at h
  cases h
  refine ⟨_, loadRmsNormTables_emits hexist order' n, SameLayout.of_tables isTable_entryTables ?_⟩
  exact List.Perm.flatMap_right _ ((order.rmsNorm_perm _).trans (order'.rmsNorm_perm _).symm)

theorem assign_reorder (order order' : HashOrder) {program : AssemblerProgram} {known : Bool} {n n' : ℕ}
    {regs : Registers} {es : List (Event Fr)} (h : config.assign floats order program known n = .ok (regs, es, n')) :
    ∃ fs, config.assign floats order' program known n = .ok (regs, fs, n') ∧ SameLayout es fs := by
  obtain ⟨u, es₁, n₁, es₂, hload, hrest, rfl⟩ := Synth.bind_eq_ok.mp h
  rw [AssemblerConfig.loadRangeTables_emits order n] at hload
  cases hload
  refine ⟨_, Synth.bind_eq_ok.mpr ⟨(), _, n, es₂, AssemblerConfig.loadRangeTables_emits order' n, hrest, rfl⟩,
    SameLayout.append (SameLayout.of_tables ?_ ?_) (SameLayout.of_skeleton rfl)⟩
  · intro e he
    obtain ⟨t, -, rfl⟩ := List.mem_map.mp he
    rfl
  · apply List.Perm.map
    apply List.Perm.append_right
    exact List.Perm.flatMap_right _ ((order.dot_perm _).trans (order'.dot_perm _).symm)

end Reorder

variable {prims : Primitives} {poseidon : PoseidonBoundaryConfig} {column : Column} {assigned assigned' : Registers}
  {circuit circuit' : AssemblerCircuit}

/-- Two circuits whose parameters differ in the list of the domains at most. -/
structure ShapedLike (circuit circuit' : AssemblerCircuit) : Prop where
  params : CircuitShape.SameParams circuit.params circuit'.params
  leafPrefix : circuit.leafPrefix.length = circuit'.leafPrefix.length

theorem exposeLeaf_agree (h : circuit.ShapedLike circuit') (hregs : SameRegisters assigned assigned') :
    Agree (circuit.exposeLeaf prims poseidon column assigned) (circuit'.exposeLeaf prims poseidon column assigned')
      fun _ _ => True := by
  have hinputs : circuit'.params.boundaryInputs = circuit.params.boundaryInputs := by rw [h.params.1]
  have houtputs : circuit'.params.boundaryOutputs = circuit.params.boundaryOutputs := by rw [h.params.1]
  have hfixed : circuit'.params.fixedPublicWeights = circuit.params.fixedPublicWeights := by rw [h.params.1]
  have hweights : circuit'.program.weightValues.map List.length = circuit.program.weightValues.map List.length := by
    rw [← circuit'.weightShapes, ← circuit.weightShapes, h.params.1]
  unfold exposeLeaf
  rw [hinputs, houtputs, hfixed, hweights]
  apply Agree.bind (R := (· = ·))
  · refine Agree.foldEach (forall₂_of_length h.leafPrefix) ?_ rfl
    rintro offset _ value value' rfl -
    exact (assignPublicValue_agree value value').bind fun _ _ hcell => expose_agree offset hcell
  rintro offset _ rfl
  apply Agree.bind (R := (· = ·))
  · refine Agree.foldEach (R := (· = ·)) (List.forall₂_same.mpr fun _ _ => rfl) ?_ rfl
    rintro offset _ entry _ rfl rfl
    exact exposeInput_agree hregs.inputs offset entry
  rintro offset _ rfl
  apply (exposeConstant_agree offset _).bind
  rintro offset _ rfl
  apply Agree.bind (R := (· = ·))
  · refine Agree.foldEach (R := (· = ·)) (List.forall₂_same.mpr fun _ _ => rfl) ?_ rfl
    rintro offset _ entry _ rfl rfl
    exact exposeOutput_agree hregs.virtuals offset entry
  rintro offset _ rfl
  apply (exposeConstant_agree offset _).bind
  rintro offset _ rfl
  apply Agree.bind (R := (· = ·))
  · refine Agree.foldEach (forall₂_zip_zip hregs.weights (List.forall₂_same.mpr fun fixed _ => rfl)) ?_ rfl
    rintro offset _ ⟨tensor, fixed⟩ ⟨tensor', _⟩ rfl ⟨htensor, rfl⟩
    exact exposeWeights_agree htensor fixed offset
  · intro _ _ _
    exact .pure trivial

theorem exposeValues_agree (h : circuit.ShapedLike circuit') (hregs : SameRegisters assigned assigned') :
    Agree (circuit.exposeValues column assigned) (circuit'.exposeValues column assigned') fun _ _ => True := by
  have hindices : circuit'.params.publicOutputIndices = circuit.params.publicOutputIndices := by rw [h.params.1]
  unfold exposeValues
  rw [hindices]
  apply Agree.bind (R := (· = ·))
  · refine Agree.foldEach (List.rel_append hregs.inputs hregs.weights) ?_ rfl
    rintro offset _ tensor tensor' rfl htensor
    exact exposeCells_agree htensor.cells offset
  rintro offset _ rfl
  apply Agree.bind (R := (· = ·))
  · refine Agree.foldEach (R := (· = ·)) (List.forall₂_same.mpr fun _ _ => rfl) ?_ rfl
    rintro offset _ index _ rfl rfl
    exact (getTensor_agree hregs.virtuals index).bind fun _ _ htensor => exposeCells_agree htensor.cells offset
  · intro _ _ _
    exact .pure trivial

section Layout

variable {config : AssemblerCircuitConfig} {cs : ConstraintSystem Fr}

theorem ShapedLike.program (h : circuit.ShapedLike circuit') :
    AssemblerConfig.SameProgram circuit.program circuit'.program := by
  have hlengths : ∀ {ts ts' : List (List I18)}, ts.map List.length = ts'.map List.length →
      List.Forall₂ (fun t t' => t.length = t'.length) ts ts' := by
    intro ts ts' hlength
    rwa [← List.forall₂_eq_eq_eq, List.forall₂_map_left_iff, List.forall₂_map_right_iff] at hlength
  constructor
  · rw [← circuit'.instructions, ← circuit.instructions, h.params.1]
  · apply hlengths
    rw [← circuit'.inputShapes, ← circuit.inputShapes, h.params.1]
  · apply hlengths
    rw [← circuit'.weightShapes, ← circuit.weightShapes, h.params.1]

/-- With one order of the hash maps, circuits of the same parameters lay down the same, whatever their values are. -/
theorem synthesize_agree (hinstalled : config.assembler.Installed cs) (h : circuit.ShapedLike circuit') (order : HashOrder) :
    Agree (circuit.synthesize prims order config) (circuit'.synthesize prims order config) fun _ _ => True := by
  have hboundaries : HasBoundaries circuit'.params ↔ HasBoundaries circuit.params := by
    unfold HasBoundaries
    rw [h.params.1]
  unfold synthesize
  apply (Agree.refl _).bind
  rintro column _ rfl
  apply (Agree.refl _).bind
  intro _ _ _
  apply (Agree.mapError (AssemblerConfig.assign_agree (.refl _) hinstalled order h.program)).bind
  intro assigned assigned' hregs
  split
  · rename_i hb
    rw [if_pos (hboundaries.mpr hb)]
    exact exposeLeaf_agree h hregs
  · rename_i hb
    rw [if_neg fun hb' => hb (hboundaries.mp hb')]
    exact exposeValues_agree h hregs

theorem synthesize_reorder (order order' : HashOrder) {n n' : ℕ} {es : List (Event Fr)}
    (h : circuit.synthesize prims order config n = .ok ((), es, n')) :
    ∃ fs, circuit.synthesize prims order' config n = .ok ((), fs, n') ∧ SameLayout es fs := by
  obtain ⟨column, es₁, n₁, rest₁, hcolumn, h₁, rfl⟩ := Synth.bind_eq_ok.mp h
  obtain ⟨_, es₂, n₂, rest₂, htables, h₂, rfl⟩ := Synth.bind_eq_ok.mp h₁
  obtain ⟨assigned, es₃, n₃, rest₃, hassign, hexpose, rfl⟩ := Synth.bind_eq_ok.mp h₂
  obtain ⟨fs₂, htables', hsame₂⟩ := loadRmsNormTables_reorder order order' htables
  obtain ⟨fs₃, hassign', hsame₃⟩ := assign_reorder order order' (Synth.mapError_eq_ok.mp hassign)
  refine ⟨_, Synth.bind_eq_ok.mpr ⟨column, es₁, n₁, _, hcolumn, Synth.bind_eq_ok.mpr ⟨(), fs₂, n₂, _, htables',
    Synth.bind_eq_ok.mpr ⟨assigned, fs₃, n₃, rest₃, Synth.mapError_eq_ok.mpr hassign', hexpose, rfl⟩, rfl⟩, rfl⟩, ?_⟩
  exact (SameLayout.of_skeleton rfl).append (hsame₂.append (hsame₃.append (.of_skeleton rfl)))

end Layout

section Keys

/-- The circuits that the constructors build, and their copies for key generation. -/
inductive Constructed (blake3 : Blake3) : AssemblerCircuit → Prop where
  | publicOutputs {program : AssemblerProgram} {domains : RmsNormDomains} {indices : List ℕ} {circuit : AssemblerCircuit}
      (h : newWithPublicOutputs program domains indices = .ok circuit) : Constructed blake3 circuit
  | boundaryCommitments {program : AssemblerProgram} {domains : RmsNormDomains} {inputs : List BoundaryDescriptor}
      {outputs : List (ℕ × BoundaryDescriptor)} {leafPrefix : List Fr} {circuit : AssemblerCircuit}
      (h : newWithBoundaryCommitments blake3 program domains inputs outputs leafPrefix = .ok circuit) :
      Constructed blake3 circuit
  | withoutWitnesses {circuit : AssemblerCircuit} (h : Constructed blake3 circuit) :
      Constructed blake3 circuit.withoutWitnesses

theorem Constructed.leafPrefix {blake3 : Blake3} (h : Constructed blake3 circuit) :
    circuit.leafPrefix.length = circuit.params.leafPrefixLen := by
  induction h with
  | publicOutputs h =>
      unfold newWithPublicOutputs at h
      split at h
      · cases h
      · cases h
        rfl
  | boundaryCommitments h =>
      unfold newWithBoundaryCommitments at h
      split at h
      · cases h
        rfl
      · cases h
  | withoutWitnesses _ ih => exact ih

theorem findKey_perm {κ α : Type} [DecidableEq κ] {entries entries' : List (κ × α)} (hkeys : (entries.map Prod.fst).Nodup)
    (h : entries.Perm entries') (key : κ) : findKey key entries = findKey key entries' := by
  have hkeys' : (entries'.map Prod.fst).Nodup := (h.map _).nodup_iff.mp hkeys
  have hiff : ∀ {l : List (κ × α)}, (l.map Prod.fst).Nodup → ∀ a, findKey key l = some a ↔ (key, a) ∈ l := by
    intro l hl a
    refine ⟨findKey_mem, fun hmem => ?_⟩
    obtain ⟨b, hb⟩ := Option.isSome_iff_exists.mp (findKey_isSome (List.mem_map_of_mem hmem : key ∈ l.map Prod.fst))
    rw [hb]
    exact congrArg (some ∘ Prod.snd) (List.inj_on_of_nodup_map hl (findKey_mem hb) hmem rfl)
  apply Option.ext
  intro a
  rw [hiff hkeys, hiff hkeys', h.mem_iff]

theorem configureWithParams_eq {p q : AssemblerCircuitParams} (hkeys : (p.rmsNormDomains.map Prod.fst).Nodup)
    (h : CircuitShape.SameParams p q) : configureWithParams prims p = configureWithParams prims q := by
  have hrms : ∀ bits, AssemblerConfig.configureRmsNorm prims.floats bits p.rmsNormDomains =
      AssemblerConfig.configureRmsNorm prims.floats bits q.rmsNormDomains := by
    intro bits
    funext key
    unfold AssemblerConfig.configureRmsNorm
    rw [findKey_perm hkeys h.2]
  have hinstructions : q.instructions = p.instructions := by rw [h.1]
  unfold configureWithParams AssemblerConfig.configureInternal
  simp only [hinstructions, hrms]

end Keys

section Determined

open CircuitShape

variable (prims : Primitives)

/-- Equal shape bytes mean equal parameters, and circuits of these parameters are configured alike and lay down the same,
whatever values they hold, known or not, and in whatever order the hash maps are listed. -/
theorem shape_bytes_determine :
    (∀ p q, Representable p → Representable q → (canonicalShapeBytes p = canonicalShapeBytes q ↔ SameParams p q)) ∧
    ∀ circuit circuit' : AssemblerCircuit, Constructed prims.blake3 circuit → Constructed prims.blake3 circuit' →
      Representable circuit.params → Representable circuit'.params →
      canonicalShapeBytes circuit.params = canonicalShapeBytes circuit'.params →
      configureWithParams prims circuit.params = configureWithParams prims circuit'.params ∧
      ∀ order order' config cs es es' n n', configureWithParams prims circuit.params {} = .ok (config, cs) →
        circuit.synthesize prims order config 0 = .ok ((), es, n) →
        circuit'.synthesize prims order' config 0 = .ok ((), es', n') → n = n' ∧ SameLayout es es' := by
  refine ⟨fun p q hp hq => canonicalShapeBytes_eq_iff hp hq, ?_⟩
  intro circuit circuit' hbuilt hbuilt' hfits hfits' hbytes
  have hparams := (canonicalShapeBytes_eq_iff hfits hfits').mp hbytes
  refine ⟨configureWithParams_eq hfits.keys hparams, ?_⟩
  intro order order' config cs es es' n n' hconfigure hrun hrun'
  have hshaped : circuit.ShapedLike circuit' := by
    refine ⟨hparams, ?_⟩
    rw [hbuilt.leafPrefix, hbuilt'.leafPrefix, hparams.1]
  obtain ⟨cs', hinstalled, -, -⟩ := configured_installed hconfigure
  obtain ⟨fs, hreordered, hsame⟩ := synthesize_reorder order' order hrun'
  have hagree : Agree (circuit.synthesize prims order config) (circuit'.synthesize prims order config) fun _ _ => True :=
    synthesize_agree hinstalled hshaped order
  obtain ⟨hskeleton, hcount, -⟩ := hagree 0 _ _ _ _ _ _ hrun hreordered
  exact ⟨hcount, (SameLayout.of_skeleton hskeleton).trans hsame.symm⟩

theorem doubled_representable (x : I18) : Representable (doubledCircuit x).params := by
  constructor <;> simp [doubledCircuit, doubled, AssemblerCircuitParams.fromProgram, UsizesFit, InstructionFits]

/-- The circuit that keys are generated with lays down the same as one for another number. -/
theorem shape_bytes_determine_doubled : ∃ config es es' n n',
    (doubledCircuit (units 1)).withoutWitnesses.synthesize unusedPrimitives AssemblerConfig.insertionOrder config 0 =
      .ok ((), es, n) ∧
    (doubledCircuit (units 2)).synthesize unusedPrimitives AssemblerConfig.insertionOrder config 0 = .ok ((), es', n') ∧
    SameLayout es es' := by
  obtain ⟨config, cs, hconfigure, hrms⟩ := doubled_configured
  obtain ⟨cs', hinstalled, hpublic, -⟩ := configured_installed (hconfigure (units 1))
  have hrun : ∀ x y known, config.assembler.hostProgram unusedPrimitives.floats known (doubled x) = some [[y]] →
      ∃ r, AssemblerCircuit.synthesize { doubledCircuit x with hasKnownWitnesses := known } unusedPrimitives
        AssemblerConfig.insertionOrder config 0 = .ok r := fun x y known hhost =>
    (synthesize_decides hinstalled hpublic AssemblerConfig.insertionOrder 0).2 (evaluates_doubled hrms hhost)
  obtain ⟨⟨_, es, n⟩, hone⟩ := hrun (units 1) (units 2) false rfl
  obtain ⟨⟨_, es', n'⟩, htwo⟩ := hrun (units 2) (units 4) true rfl
  have hsame := ((shape_bytes_determine unusedPrimitives).2 (doubledCircuit (units 1)).withoutWitnesses
    (doubledCircuit (units 2)) (.withoutWitnesses (.publicOutputs (newWithPublicOutputs_doubled _)))
    (.publicOutputs (newWithPublicOutputs_doubled _)) (doubled_representable _) (doubled_representable _) rfl).2
    _ _ config cs es es' n n' (hconfigure _) hone htwo
  exact ⟨config, es, es', n, n', hone, htwo, hsame.2⟩

end Determined

end AssemblerCircuit

end Zkie.ProgramCircuit
