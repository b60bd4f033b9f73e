import Zkie.AssemblerLayout
import Zkie.AssemblerRefines
import Zkie.Forgery

namespace Zkie.Assembler

open ScalarField FixedPoint Plonkish Synthesis Satisfaction Skeleton Placement Forgery RangeCheck DotProduct Eltwise Lookup
  RmsNorm Isa

namespace AssemblerConfig

/-- What a circuit does with a program: the tables of the normalisations are loaded, then the program is assigned. -/
def loadAndAssign (config : AssemblerConfig) (floats : Floats) (order : HashOrder) (program : AssemblerProgram)
    (known : Bool) : Synth Fr AssemblerError Registers := do
  config.loadRmsNormTables floats order
  config.assign floats order program known

variable {config : AssemblerConfig} {cs : ConstraintSystem Fr} {known : Bool} {floats : Floats} {order : HashOrder}
  {A : Assignment Fr} {program : AssemblerProgram} {n n' : ℕ} {regs : Registers} {es : List (Event Fr)}

section Tables

/-- The tables of one normalisation. -/
def normTables (rms : RmsNormConfig) (table : Domain) : List (Event Fr) :=
  [.table [rms.rsqrt.tableInput, rms.rsqrt.tableOutput] (tableRows table),
    .table [rms.mul.rangeA.table] LookupRangeCheckConfig.byteTable,
    .table [rms.mul.rangeB.table] LookupRangeCheckConfig.byteTable]

theorem loadTable_emits {ε : Type} (rms : RmsNormConfig) (table : Domain) :
    Emits (rms.loadTable (ε := ε) table) () (normTables rms table) :=
  fun _ => rfl

/-- The actions are the tables of the entries, whose domains all exist. -/
structure TablesOf (floats : Floats) (entries : List ((UInt64 × UInt64) × RmsNormConfig)) (es : List (Event Fr)) : Prop where
  all : ∀ entry ∈ entries, ∃ table, entry.2.rsqrtDomain.table floats = some table ∧ ∀ e ∈ normTables entry.2 table, e ∈ es
  only : ∀ e ∈ es, ∃ entry ∈ entries, ∃ table, entry.2.rsqrtDomain.table floats = some table ∧ e ∈ normTables entry.2 table

theorem TablesOf.cons {entry : (UInt64 × UInt64) × RmsNormConfig} {entries : List ((UInt64 × UInt64) × RmsNormConfig)}
    {table : Domain} (htable : entry.2.rsqrtDomain.table floats = some table) (h : TablesOf floats entries es) :
    TablesOf floats (entry :: entries) (normTables entry.2 table ++ es) where
  all := by
    intro other hother
    rcases List.mem_cons.mp hother with rfl | hother
    · exact ⟨table, htable, fun e he => List.mem_append_left _ he⟩
    · obtain ⟨t, ht, hes⟩ := h.all other hother
      exact ⟨t, ht, fun e he => List.mem_append_right _ (hes e he)⟩
  only := by
    intro e he
    rcases List.mem_append.mp he with he | he
    · exact ⟨entry, .head _, table, htable, he⟩
    · obtain ⟨other, hother, t, ht, hmem⟩ := h.only e he
      exact ⟨other, .tail _ hother, t, ht, hmem⟩

theorem forEach_tablesOf {ε : Type} {entries : List ((UInt64 × UInt64) × RmsNormConfig)} {us : List Unit}
    (h : Synth.forEach (ε := ε) (fun entry : (UInt64 × UInt64) × RmsNormConfig => do
      let domain ← Synth.unwrap "rsqrt domain" (entry.2.rsqrtDomain.table floats)
      entry.2.loadTable domain) entries n = .ok (us, es, n')) : TablesOf floats entries es := by
  induction entries generalizing us es n n' with
  | nil =>
      obtain ⟨-, rfl, -⟩ := Synth.pure_eq_ok.mp h
      exact ⟨by simp, by simp⟩
  | cons entry entries ih =>
      rw [Synth.forEach] at h
      obtain ⟨u, es₁, n₁, es₂, hfirst, hrest, rfl⟩ := Synth.bind_eq_ok.mp h
      obtain ⟨us', es₃, n₃, es₄, hmore, hpure, rfl⟩ := Synth.bind_eq_ok.mp hrest
      obtain ⟨-, rfl, -⟩ := Synth.pure_eq_ok.mp hpure
      rw [List.append_nil]
      cases htable : entry.2.rsqrtDomain.table floats with
      | none =>
          rw [htable] at hfirst
          cases hfirst
      | some table =>
          rw [htable] at hfirst
          change entry.2.loadTable table n = .ok (u, es₁, n₁) at hfirst
          rw [loadTable_emits entry.2 table n] at hfirst
          cases hfirst
          exact (ih hmore).cons htable

theorem loadRmsNormTables_tablesOf {ε : Type}
    (h : config.loadRmsNormTables (ε := ε) floats order n = .ok ((), es, n')) : TablesOf floats config.rmsNorm es := by
  obtain ⟨us, es₁, n₁, es₂, heach, hpure, rfl⟩ := Synth.bind_eq_ok.mp h
  obtain ⟨-, rfl, -⟩ := Synth.pure_eq_ok.mp hpure
  rw [List.append_nil]
  have hperm : ∀ entry, entry ∈ order.rmsNorm config.rmsNorm ↔ entry ∈ config.rmsNorm := fun entry =>
    (order.rmsNorm_perm config.rmsNorm).mem_iff
  have htables := forEach_tablesOf heach
  refine ⟨fun entry hentry => htables.all entry ((hperm entry).mpr hentry), fun e he => ?_⟩
  obtain ⟨entry, hentry, rest⟩ := htables.only e he
  exact ⟨entry, (hperm entry).mp hentry, rest⟩

theorem TablesOf.bytesOnly {entries : List ((UInt64 × UInt64) × RmsNormConfig)} (h : TablesOf floats entries es) :
    ∀ e ∈ es, BytesOnly e := by
  intro e he
  obtain ⟨entry, -, table, -, hmem⟩ := h.only e he
  simp only [normTables, List.mem_cons, List.not_mem_nil, or_false] at hmem
  rcases hmem with rfl | rfl | rfl
  · trivial
  · rfl
  · rfl

/-- A run loads tables of one column. -/
theorem assign_tables (h : config.Installed cs) (hrun : config.assign floats order program known n = .ok (regs, es, n'))
    {columns : List ℕ} {rows : List (List Fr)} (he : Event.table columns rows ∈ es) : ∃ t, columns = [t] := by
  obtain ⟨_, es₁, n₁, es₂, hload, hrest, rfl⟩ := Synth.bind_eq_ok.mp hrun
  have hplaced := ((assignTensors_placed program.inputValues).bind fun inputs =>
    (assignTensors_placed program.weightValues).bind fun weights =>
      (assignInstructions_placed h program.instructions).bind fun virtuals => Placed.pure) n₁ regs es₂ n' hrest
  rcases List.mem_append.mp he with he | he
  · rw [loadRangeTables_emits order n] at hload
    cases hload
    obtain ⟨t, -, heq⟩ := List.mem_map.mp he
    cases heq
    exact ⟨t, rfl⟩
  · exact (hplaced.2.2.2 _ he).elim

/-- The tables of the normalisations hold the rows of their domains, and nothing else. -/
theorem tablesLoaded (h : config.Installed cs) {es₁ es₂ : List (Event Fr)} (h₁ : TablesOf floats config.rmsNorm es₁)
    (hrun : config.assign floats order program known n = .ok (regs, es₂, n')) :
    config.TablesLoaded floats (Loaded (es₁ ++ es₂)) := by
  intro entry hentry table htable row
  constructor
  · rintro ⟨rows, hmem, hrow⟩
    rcases List.mem_append.mp hmem with hmem | hmem
    · obtain ⟨other, hother, table', htable', he⟩ := h₁.only _ hmem
      simp only [normTables, List.mem_cons, List.not_mem_nil, or_false, Event.table.injEq, List.cons.injEq, and_true,
        reduceCtorEq, and_false, false_and] at he
      obtain ⟨⟨hinput, -⟩, rfl⟩ := he
      have hsymm : Std.Symm fun entry entry' : (UInt64 × UInt64) × RmsNormConfig =>
          entry.2.rsqrt.tableInput ≠ entry'.2.rsqrt.tableInput := ⟨fun _ _ hne => hne.symm⟩
      have hsame : entry = other := by
        by_contra hne
        exact h.tables.forall hentry hother hne hinput
      rw [← hsame, htable, Option.some_inj] at htable'
      exact htable' ▸ hrow
    · obtain ⟨t, ht⟩ := assign_tables h hrun hmem
      simp at ht
  · intro hrow
    obtain ⟨table', htable', hes⟩ := h₁.all entry hentry
    rw [htable, Option.some_inj] at htable'
    subst htable'
    exact ⟨_, List.mem_append_left _ (hes _ (.head _)), hrow⟩

end Tables

section Soundness

variable {domains : RmsNormDomains} {expose : Bool} {dim epsilonMilli : UInt64}

/-- The domain that a normalisation is configured with. -/
def domainOf (domains : RmsNormDomains) (dim epsilonMilli : UInt64) : RsqrtDomain :=
  (findKey (dim, epsilonMilli) domains).getD rmsNormDefaultRsqrtDomain

/-- Every satisfying assignment has integers in the operands and the result of a normalisation, and some row of the
table relates them. -/
theorem satisfying_reachable
    (hconfigure : configureInternal floats program.instructions domains expose {} = .ok (config, cs))
    (hrun : config.loadAndAssign floats order program known n = .ok (regs, es, n')) (hA : Satisfies cs es A) {j : ℕ}
    {inputs : List RegisterRef} (hinstr : program.instructions[j]? = some ⟨.rmsNorm dim epsilonMilli, inputs⟩) :
    ∃ xRef wRef x w out, inputs = [xRef, wRef] ∧ regs.get? xRef = some x ∧ regs.get? wRef = some w ∧
      regs.virtuals[j]? = some out ∧ ∃ reciprocal table xs ws ys, floats.reciprocal dim = some reciprocal ∧
        (domainOf domains dim epsilonMilli).table floats = some table ∧ Carries A x.cells xs ∧ Carries A w.cells ws ∧
        Carries A out.cells ys ∧ RmsNormConfig.Reachable reciprocal table xs ws ys := by
  obtain ⟨-, hwf, hinstalled, hconstants, -⟩ := configureInternal_installed program.instructions expose config cs hconfigure
  obtain ⟨_, es₁, n₁, es₂, hload, hassign, rfl⟩ := Synth.bind_eq_ok.mp hrun
  have htables := loadRmsNormTables_tablesOf hload
  have hbytes : ∀ e ∈ es₁ ++ es₂, BytesOnly e :=
    List.forall_mem_append.mpr ⟨htables.bytesOnly, assign_bytesOnly hinstalled hassign⟩
  have hsound := assign_sound (hwf ⟨fun s hs => absurd hs List.not_mem_nil, List.nodup_nil⟩) hinstalled
    (onlyBytes_of_events hbytes) program (fun _ => tablesLoaded hinstalled htables hassign) n₁ regs es₂ n' hassign
    fun e he => hA.events e (List.mem_append_right _ he)
  have hholds := hsound.2
  have hj : j < regs.virtuals.length := hholds.length ▸ (List.getElem?_eq_some_iff.mp hinstr).1
  have hout : regs.virtuals[j]? = some regs.virtuals[j] := List.getElem?_eq_getElem hj
  obtain ⟨xRef, wRef, x, w, hinputs, hx, hw, hlive⟩ := (hholds.steps j _ _ hinstr hout).holds
  obtain ⟨xs, ws, ys, hxs, hws, hys, rms, table, hkey, htable, hreach⟩ := hlive trivial
  obtain ⟨hreciprocal, -, hdomain⟩ := hconstants _ (findKey_mem hkey)
  refine ⟨xRef, wRef, x, w, _, hinputs, Registers.get?_of_take hx, Registers.get?_of_take hw, hout, _, table, xs, ws, ys,
    hreciprocal, ?_, hxs, hws, hys, hreach⟩
  rw [domainOf, ← hdomain]
  exact htable

end Soundness

section Deviation

/-- The same circuit for a prover that adds another number to the mean, and looks it up in another domain. -/
def deviated (config : AssemblerConfig) (b : I18) (d : RsqrtDomain) : AssemblerConfig :=
  { config with rmsNorm := config.rmsNorm.map fun entry => (entry.1, entry.2.deviate b d) }

theorem similar_deviated (config : AssemblerConfig) (b : I18) (d : RsqrtDomain) : config.Similar (config.deviated b d) where
  dot := rfl
  add := rfl
  mul := rfl
  rmsNorm := by
    rw [deviated, List.forall₂_map_right_iff, List.forall₂_same]
    intro entry _
    exact ⟨rfl, b, d, rfl⟩
  boundary := rfl
  bridgeUnshifted := rfl
  bridgeShifted := rfl
  sBridge := rfl

theorem Installed.deviated (h : config.Installed cs) (b : I18) (d : RsqrtDomain) : (config.deviated b d).Installed cs where
  dot := h.dot
  add := h.add
  mul := h.mul
  rmsNorm := by
    intro entry hentry
    obtain ⟨old, hold, rfl⟩ := List.mem_map.mp hentry
    obtain ⟨hinst, hk⟩ := h.rmsNorm old hold
    exact ⟨⟨hinst.reduceMean, hinst.add, hinst.mul, hinst.rsqrt, hinst.unshift, hinst.equality, hinst.distinct,
      hinst.length⟩, hk⟩
  tables := by
    rw [AssemblerConfig.deviated, List.pairwise_map]
    exact h.tables
  bridge := h.bridge
  equality := h.equality
  distinct := h.distinct
  publicInstance := h.publicInstance

theorem carries_of_sameCells {cells cells' : List (AssignedCell Fr)} {xs : List I18} (hsame : SameCells cells cells')
    (h : Carries A cells' xs) : Carries A cells xs := by
  induction hsame generalizing xs with
  | nil => exact h
  | cons hcell _ ih =>
      cases h with
      | cons hx hxs => exact .cons (hcell ▸ hx) (ih hxs)

/-- A program of one normalisation. -/
def normProgram (dim epsilonMilli : UInt64) (xs ws : List I18) : AssemblerProgram where
  instructions := [⟨.rmsNorm dim epsilonMilli, [.input 0, .weight 0]⟩]
  inputValues := [xs]
  weightValues := [ws]

variable {domains : RmsNormDomains} {expose : Bool} {dim epsilonMilli : UInt64} {xs ws ys xs' ws' : List I18}

/-- The only normalisation of the program, with its constants. -/
theorem configured_norm
    (hconfigure : configureInternal floats (normProgram dim epsilonMilli xs ws).instructions domains expose {} =
      .ok (config, cs)) {reciprocal : I18} (hreciprocal : floats.reciprocal dim = some reciprocal) :
    ∃ rms : RmsNormConfig, config.rmsNorm = [((dim, epsilonMilli), rms)] ∧ rms.reduceMean.reciprocal = reciprocal ∧
      rms.rsqrtDomain = domainOf domains dim epsilonMilli := by
  obtain ⟨-, -, -, hconstants, -, hkeys, -⟩ := configureInternal_installed _ expose config cs hconfigure
  have hkeys' : config.rmsNorm.map Prod.fst = [(dim, epsilonMilli)] := hkeys
  obtain ⟨entry, hentry, hkey⟩ := List.map_eq_singleton_iff.mp hkeys'
  obtain ⟨hr, -, hdomain⟩ := hconstants entry (by simp [hentry])
  rw [hkey] at hr hdomain
  rw [hreciprocal, Option.some_inj] at hr
  exact ⟨entry.2, by rw [hentry, ← hkey], hr.symm, hdomain⟩

/-- The row that the deviating prover looks up is all that its domain consists of. -/
def oneRow (floats : Floats) (p : I18 × I18) : Floats := { floats with rsqrt := fun _ => some p.2 }

/-- The host computes what the deviating prover claims. -/
theorem deviated_hostProgram {rms : RmsNormConfig} (hrms : config.rmsNorm = [((dim, epsilonMilli), rms)]) {b : I18}
    {p : I18 × I18} (hxs : xs.length = dim.toNat) (hws : ws.length = dim.toNat)
    (hys : RmsNorm.rmsNorm rms.reduceMean.reciprocal b [p] xs ws = some ys) :
    (config.deviated b (.rawAnchors [p.1])).hostProgram (oneRow floats p) true (normProgram dim epsilonMilli xs ws) =
      some [ys] := by
  have hkey : findKey (dim, epsilonMilli) (config.deviated b (.rawAnchors [p.1])).rmsNorm =
      some (rms.deviate b (.rawAnchors [p.1])) := by
    simp [deviated, hrms, findKey]
  have hbinary : (config.deviated b (.rawAnchors [p.1])).hostBinary (oneRow floats p) true xs ws
      (.rmsNorm dim epsilonMilli) = some ys := by
    rw [hostBinary, if_pos ⟨hxs, hws⟩, hkey]
    exact hys
  have hinstr : (config.deviated b (.rawAnchors [p.1])).hostInstruction (oneRow floats p) true ⟨[xs], [ws], []⟩
      ⟨.rmsNorm dim epsilonMilli, [.input 0, .weight 0]⟩ = some ys := hbinary
  simp only [hostProgram, hostInstructions, normProgram, List.foldlM_cons, List.foldlM_nil, hinstr]
  rfl

/-- The registers of a program of one normalisation hold these values. -/
def HoldValues (regs : Registers) (xs ws ys : List I18) : Prop :=
  regs.inputs.map RegisterCells.values = [xs] ∧ regs.weights.map RegisterCells.values = [ws] ∧
    regs.virtuals.map RegisterCells.values = [ys]

theorem deviated_run (floats : Floats) (hinstalled : config.Installed cs) (order : HashOrder) (n : ℕ) {rms : RmsNormConfig}
    (hrms : config.rmsNorm = [((dim, epsilonMilli), rms)]) {b : I18} {p : I18 × I18} (hxs : xs.length = dim.toNat)
    (hws : ws.length = dim.toNat) (hys : RmsNorm.rmsNorm rms.reduceMean.reciprocal b [p] xs ws = some ys) :
    ∃ regs es n', (config.deviated b (.rawAnchors [p.1])).assign (oneRow floats p) order
      (normProgram dim epsilonMilli xs ws) true n = .ok (regs, es, n') ∧ HoldValues regs xs ws ys := by
  have hhost : (config.deviated b (.rawAnchors [p.1])).hostProgram (oneRow floats p) true
      (normProgram dim epsilonMilli xs ws) = some [ys] := deviated_hostProgram hrms hxs hws hys
  have hdecides : HostRun.Decides ((config.deviated b (.rawAnchors [p.1])).assign (oneRow floats p) order
      (normProgram dim epsilonMilli xs ws) true) _ _ :=
    assign_decides (hinstalled.deviated b (.rawAnchors [p.1])) order (normProgram dim epsilonMilli xs ws)
  obtain ⟨⟨regs, es, n'⟩, hrun⟩ := (hdecides n).2 ⟨trivial, Option.isSome_iff_exists.mpr ⟨_, hhost⟩⟩
  obtain ⟨-, hinputs, hweights, hvirtuals⟩ := (hdecides n).1 regs es n' hrun
  rw [hhost, Option.some_inj] at hvirtuals
  exact ⟨regs, es, n', hrun, hinputs, hweights, hvirtuals.symm⟩

/-- Cells in the same places carry the values that a ready prover holds. -/
theorem HoldValues.carries {regs' : Registers} (h : HoldValues regs' xs ws ys) (hready : Ready cs A regs')
    (hsame : SameRegisters regs regs') :
    ∃ x w out, regs.get? (.input 0) = some x ∧ regs.get? (.weight 0) = some w ∧ regs.virtuals[0]? = some out ∧
      Carries A x.cells xs ∧ Carries A w.cells ws ∧ Carries A out.cells ys := by
  obtain ⟨inputs, weights, virtuals⟩ := regs
  obtain ⟨inputs', weights', virtuals'⟩ := regs'
  obtain ⟨x', rfl, hx⟩ := List.map_eq_singleton_iff.mp h.1
  obtain ⟨w', rfl, hw⟩ := List.map_eq_singleton_iff.mp h.2.1
  obtain ⟨out', rfl, hout⟩ := List.map_eq_singleton_iff.mp h.2.2
  obtain ⟨x, _, hxsame, hnil, rfl⟩ := List.forall₂_cons_right_iff.mp hsame.inputs
  obtain rfl := List.forall₂_nil_right_iff.mp hnil
  obtain ⟨w, _, hwsame, hnil, rfl⟩ := List.forall₂_cons_right_iff.mp hsame.weights
  obtain rfl := List.forall₂_nil_right_iff.mp hnil
  obtain ⟨out, _, houtsame, hnil, rfl⟩ := List.forall₂_cons_right_iff.mp hsame.virtuals
  obtain rfl := List.forall₂_nil_right_iff.mp hnil
  refine ⟨x, w, out, rfl, rfl, rfl, ?_, ?_, ?_⟩
  · exact carries_of_sameCells hxsame.cells (hx ▸ (hready (.input 0) x' rfl).carries)
  · exact carries_of_sameCells hwsame.cells (hw ▸ (hready (.weight 0) w' rfl).carries)
  · exact carries_of_sameCells houtsame.cells (hout ▸ (hready (.virtual 0) out' rfl).carries)

theorem loaded_append_left {es₁ es₂ : List (Event Fr)} {columns : List ℕ} {row : List Fr} (h : Loaded es₁ columns row) :
    Loaded (es₁ ++ es₂) columns row := by
  obtain ⟨rows, hmem, hrow⟩ := h
  exact ⟨rows, List.mem_append_left _ hmem, hrow⟩

theorem loaded_append_right {es₁ es₂ : List (Event Fr)} {columns : List ℕ} {row : List Fr} (h : Loaded es₂ columns row) :
    Loaded (es₁ ++ es₂) columns row := by
  obtain ⟨rows, hmem, hrow⟩ := h
  exact ⟨rows, List.mem_append_right _ hmem, hrow⟩

theorem BytesLoaded.append {es₁ es₂ : List (Event Fr)} (h : config.BytesLoaded (Loaded es₂)) :
    config.BytesLoaded (Loaded (es₁ ++ es₂)) where
  dot entry hentry :=
    ⟨fun row hrow => loaded_append_right ((h.dot entry hentry).1 row hrow), fun row hrow =>
      loaded_append_right ((h.dot entry hentry).2 row hrow)⟩
  mul := ⟨fun row hrow => loaded_append_right (h.mul.1 row hrow), fun row hrow => loaded_append_right (h.mul.2 row hrow)⟩

theorem TablesOf.bytesLoaded {es₁ es₂ : List (Event Fr)} (h : TablesOf floats config.rmsNorm es₁)
    {entry : (UInt64 × UInt64) × RmsNormConfig} (hentry : entry ∈ config.rmsNorm) :
    entry.2.mul.rangeA.BytesLoaded (Loaded (es₁ ++ es₂)) ∧ entry.2.mul.rangeB.BytesLoaded (Loaded (es₁ ++ es₂)) := by
  obtain ⟨table, -, hes⟩ := h.all entry hentry
  constructor
  · intro row hrow
    exact loaded_append_left ⟨_, hes _ (by simp [normTables]), hrow⟩
  · intro row hrow
    exact loaded_append_left ⟨_, hes _ (by simp [normTables]), hrow⟩

/-- A normalisation is assigned to operands of its size only. -/
theorem lengths_of_run (hinstalled : config.Installed cs)
    (hrun : config.assign floats order (normProgram dim epsilonMilli xs ws) known n = .ok (regs, es, n')) :
    xs.length = dim.toNat ∧ ws.length = dim.toNat := by
  obtain ⟨⟨-, hhost⟩, -⟩ := (assign_decides hinstalled order (normProgram dim epsilonMilli xs ws) n).1 regs es n' hrun
  by_contra hlengths
  have hbinary : config.hostBinary floats known xs ws (.rmsNorm dim epsilonMilli) = none := by
    rw [hostBinary, if_neg hlengths]
  have hinstr : config.hostInstruction floats known ⟨[xs], [ws], []⟩
      ⟨.rmsNorm dim epsilonMilli, [.input 0, .weight 0]⟩ = none := hbinary
  simp only [hostProgram, hostInstructions, normProgram, List.foldlM_cons, hinstr] at hhost
  cases hhost

/-- Whatever row of the table the prover reaches, some satisfying assignment of the circuit uses it. -/
theorem exists_satisfying
    (hconfigure : configureInternal floats (normProgram dim epsilonMilli xs' ws').instructions domains expose {} =
      .ok (config, cs))
    (hrun : config.loadAndAssign floats order (normProgram dim epsilonMilli xs' ws') known n = .ok (regs, es, n'))
    (hxs : xs.length = dim.toNat) (hws : ws.length = dim.toNat) {reciprocal : I18} {table : Domain}
    (hreciprocal : floats.reciprocal dim = some reciprocal)
    (htable : (domainOf domains dim epsilonMilli).table floats = some table)
    (hreach : RmsNormConfig.Reachable reciprocal table xs ws ys) :
    ∃ A, Satisfies cs es A ∧ ∃ x w out, regs.get? (.input 0) = some x ∧ regs.get? (.weight 0) = some w ∧
      regs.virtuals[0]? = some out ∧ Carries A x.cells xs ∧ Carries A w.cells ws ∧ Carries A out.cells ys := by
  obtain ⟨b, p, hp, hys⟩ := hreach
  obtain ⟨rms, hrms, hrmsReciprocal, hrmsDomain⟩ := configured_norm hconfigure hreciprocal
  obtain ⟨-, hwf, hinstalled, -⟩ := configureInternal_installed _ expose config cs hconfigure
  have hidles := configureInternal_adds _ expose {} config cs hconfigure rfl
  obtain ⟨_, es₁, n₁, es₂, hload, hassign, rfl⟩ := Synth.bind_eq_ok.mp hrun
  have htables := loadRmsNormTables_tablesOf hload
  have hlengths := lengths_of_run hinstalled hassign
  have hentry : ((dim, epsilonMilli), rms) ∈ config.rmsNorm := by simp [hrms]
  -- the deviating prover's run, with the layout of the honest one
  have hinstalled' := hinstalled.deviated b (.rawAnchors [p.1])
  obtain ⟨regs', es', n'', hassign', hvalues⟩ :=
    deviated_run floats hinstalled order n₁ hrms hxs hws (hrmsReciprocal ▸ hys)
  have hsame : SameProgram (normProgram dim epsilonMilli xs' ws') (normProgram dim epsilonMilli xs ws) :=
    ⟨rfl, .cons (hlengths.1.trans hxs.symm) .nil, .cons (hlengths.2.trans hws.symm) .nil⟩
  obtain ⟨hskeleton, -, hregs⟩ := assign_agree (similar_deviated config b (.rawAnchors [p.1])) hinstalled order hsame
    n₁ _ _ _ _ _ _ hassign hassign'
  -- its values satisfy the circuit
  obtain ⟨hcells, hexposed⟩ := assign_cells hinstalled' hassign'
  have hbytes : config.BytesLoaded (Loaded (es₁ ++ es₂)) := (bytesLoaded hassign).append
  have hloaded := tablesLoaded hinstalled htables hassign
  have hrmsLoaded : (config.deviated b (.rawAnchors [p.1])).RmsLoaded (oneRow floats p) (Loaded (es₁ ++ es₂)) := by
    intro entry hmem domain hdomain
    rw [deviated, hrms, List.map_singleton, List.mem_singleton] at hmem
    subst hmem
    cases hdomain
    have hmul : rms.mul.rangeA.BytesLoaded (Loaded (es₁ ++ es₂)) ∧ rms.mul.rangeB.BytesLoaded (Loaded (es₁ ++ es₂)) :=
      htables.bytesLoaded hentry
    refine ⟨hmul, table, hloaded _ hentry table (hrmsDomain ▸ htable), ?_⟩
    intro q hq
    rw [List.mem_singleton.mp hq]
    exact hp
  have hcomplete := assign_complete (A := honest es') (hwf ⟨fun s hs => absurd hs List.not_mem_nil, List.nodup_nil⟩)
    hinstalled' ⟨hbytes.dot, hbytes.mul⟩ order (normProgram dim epsilonMilli xs ws) (fun _ => hrmsLoaded) n₁ regs' es' n''
    hassign' (honest_witnessed hcells (hexposed ▸ List.nodup_nil))
  refine ⟨honest es', ⟨?_, ?_⟩, ?_⟩
  · intro e he
    rcases List.mem_append.mp he with he | he
    · obtain ⟨entry, -, t, -, hmem⟩ := htables.only e he
      simp only [normTables, List.mem_cons, List.not_mem_nil, or_false] at hmem
      rcases hmem with rfl | rfl | rfl <;> trivial
    · exact holds_of_skeleton hskeleton hcomplete.1 e he
  · have hidle : ∀ q ∈ config.idles, Loaded (es₁ ++ es₂) q.1 q.2 := by
      apply hbytes.idles
      intro entry hmem
      obtain ⟨hA, hB⟩ := htables.bytesLoaded hmem
      obtain ⟨t, ht, -⟩ := htables.all entry hmem
      refine ⟨hA, hB, (hloaded entry hmem t ht _).mpr ?_⟩
      exact List.mem_map_of_mem (by simp)
    intro l hl
    exact hidle l.idle (hidles ▸ List.mem_map_of_mem hl)
  · exact hvalues.carries hcomplete.2 hregs

end Deviation

section Main

/-- The constants that a normalisation is configured with. -/
structure NormConstants (floats : Floats) (domains : RmsNormDomains) (dim epsilonMilli : UInt64) (reciprocal epsilon : I18)
    (table : Domain) : Prop where
  reciprocal : floats.reciprocal dim = some reciprocal
  epsilon : floats.epsilon epsilonMilli = some epsilon
  table : (domainOf domains dim epsilonMilli).table floats = some table

/-- All rows that a prover can reach give the result of the row that is meant. -/
def Determined (reciprocal epsilon : I18) (table : Domain) (xs ws : List I18) : Prop :=
  ∀ ys, RmsNormConfig.Reachable reciprocal table xs ws ys → RmsNorm.rmsNorm reciprocal epsilon table xs ws = some ys

/-- A normalisation in a satisfying assignment of some program: the registers of its operands and of its result. -/
structure NormAt (floats : Floats) (domains : RmsNormDomains) (dim epsilonMilli : UInt64) (A : Assignment Fr)
    (x w out : RegisterCells) : Prop where
  run : ∃ expose order program known config cs n regs es n', ∃ (j : ℕ) (xRef wRef : RegisterRef),
    configureInternal floats program.instructions domains expose {} = .ok (config, cs) ∧
    config.loadAndAssign floats order program known n = .ok (regs, es, n') ∧ Satisfies cs es A ∧
    program.instructions[j]? = some ⟨.rmsNorm dim epsilonMilli, [xRef, wRef]⟩ ∧ regs.get? xRef = some x ∧
    regs.get? wRef = some w ∧ regs.virtuals[j]? = some out

variable {floats : Floats} {domains : RmsNormDomains} {dim epsilonMilli : UInt64} {reciprocal epsilon : I18}
  {table : Domain} {x w out : RegisterCells}

theorem NormAt.reachable (h : NormAt floats domains dim epsilonMilli A x w out)
    (hconstants : NormConstants floats domains dim epsilonMilli reciprocal epsilon table) :
    ∃ xs ws ys, Carries A x.cells xs ∧ Carries A w.cells ws ∧ Carries A out.cells ys ∧
      RmsNormConfig.Reachable reciprocal table xs ws ys := by
  obtain ⟨expose, order, program, known, config, cs, n, regs, es, n', j, xRef, wRef, hconfigure, hrun, hA, hinstr, hx, hw,
    hout⟩ := h.run
  obtain ⟨xRef', wRef', x', w', out', hinputs, hx', hw', hout', reciprocal', table', xs, ws, ys, hreciprocal, htable, hxs,
    hws, hys, hreach⟩ := satisfying_reachable hconfigure hrun hA hinstr
  cases hinputs
  rw [hx, Option.some_inj] at hx'
  rw [hw, Option.some_inj] at hw'
  rw [hout, Option.some_inj] at hout'
  rw [hconstants.reciprocal, Option.some_inj] at hreciprocal
  rw [hconstants.table, Option.some_inj] at htable
  subst hx' hw' hout' hreciprocal htable
  exact ⟨xs, ws, ys, hxs, hws, hys, hreach⟩

/-- The operands and the result of a normalisation are integers in every satisfying assignment, and the result is the
one of the configured epsilon, for operands `xs` and `ws`, exactly if no other row that can be reached gives another. -/
theorem normalizes_iff_determined (hconstants : NormConstants floats domains dim epsilonMilli reciprocal epsilon table)
    (hassigned : ∃ xs ws expose order known config cs n r,
      configureInternal floats (normProgram dim epsilonMilli xs ws).instructions domains expose {} = .ok (config, cs) ∧
        config.loadAndAssign floats order (normProgram dim epsilonMilli xs ws) known n = .ok r) :
    (∀ A x w out, NormAt floats domains dim epsilonMilli A x w out →
      ∃ xs ws ys, Carries A x.cells xs ∧ Carries A w.cells ws ∧ Carries A out.cells ys) ∧
    ∀ xs ws, xs.length = dim.toNat → ws.length = dim.toNat →
      ((∀ A x w out, NormAt floats domains dim epsilonMilli A x w out → Carries A x.cells xs → Carries A w.cells ws →
        ∃ ys, RmsNorm.rmsNorm reciprocal epsilon table xs ws = some ys ∧ Carries A out.cells ys) ↔
      Determined reciprocal epsilon table xs ws) := by
  refine ⟨?_, fun xs ws hxs hws => ⟨?_, ?_⟩⟩
  · intro A x w out hnorm
    obtain ⟨xs, ws, ys, hx, hw, hout, -⟩ := hnorm.reachable hconstants
    exact ⟨xs, ws, ys, hx, hw, hout⟩
  · intro hnormalizes ys hreach
    obtain ⟨xs', ws', expose, order, known, config, cs, n, ⟨regs, es, n'⟩, hconfigure, hrun⟩ := hassigned
    obtain ⟨A, hA, x, w, out, hx, hw, hout, hxs', hws', hys⟩ :=
      exists_satisfying hconfigure hrun hxs hws hconstants.reciprocal hconstants.table hreach
    have hnorm : NormAt floats domains dim epsilonMilli A x w out :=
      ⟨expose, order, _, known, config, cs, n, regs, es, n', 0, .input 0, .weight 0, hconfigure, hrun, hA, rfl, hx, hw, hout⟩
    obtain ⟨zs, hzs, hcarries⟩ := hnormalizes A x w out hnorm hxs' hws'
    rw [hcarries.unique hys] at hzs
    exact hzs
  · intro hdetermined A x w out hnorm hx hw
    obtain ⟨xs', ws', ys, hx', hw', hout, hreach⟩ := hnorm.reachable hconstants
    rw [hx'.unique hx, hw'.unique hw] at hreach
    exact ⟨ys, hdetermined ys hreach, hout⟩

/-- A number of thousandths. -/
def thousandths (raw : ℤ) : I18 := fixedPoint (raw * scale18 / 1000)

/-- The constants of a normalisation of one element without an epsilon, and the reciprocal square roots of one and four. -/
def twoRowFloats : Floats where
  reciprocal _ := some (thousandths 1000)
  epsilon _ := some (thousandths 0)
  rangeDomain _ _ _ := none
  rsqrt p := if p = thousandths 1000 then some (thousandths 1000)
    else if p = thousandths 4000 then some (thousandths 500) else none

def twoRowDomains : RmsNormDomains := [((1, 0), .rawAnchors [thousandths 1000, thousandths 4000])]

def twoRows : Domain := [(thousandths 1000, thousandths 1000), (thousandths 4000, thousandths 500)]

theorem twoRow_constants : NormConstants twoRowFloats twoRowDomains 1 0 (thousandths 1000) (thousandths 0) twoRows :=
  ⟨rfl, rfl, by decide +kernel⟩

theorem twoRow_assigned : ∃ config cs r,
    configureInternal twoRowFloats (normProgram 1 0 [thousandths 1000] [thousandths 1000]).instructions twoRowDomains false
      {} = .ok (config, cs) ∧
    config.loadAndAssign twoRowFloats insertionOrder (normProgram 1 0 [thousandths 1000] [thousandths 1000]) true 0 =
      .ok r := by
  have hok : ((configureInternal twoRowFloats (normProgram 1 0 [thousandths 1000] [thousandths 1000]).instructions
      twoRowDomains false {}).toOption.bind fun p => (p.1.loadAndAssign twoRowFloats insertionOrder
        (normProgram 1 0 [thousandths 1000] [thousandths 1000]) true 0).toOption).isSome := by
    decide +kernel
  obtain ⟨r, hr⟩ := Option.isSome_iff_exists.mp hok
  obtain ⟨⟨config, cs⟩, hconfigure, hrun⟩ := Option.bind_eq_some_iff.mp hr
  exact ⟨config, cs, r, toOption_eq_some.mp hconfigure, toOption_eq_some.mp hrun⟩

/-- Whatever the row, a weight of zero gives zero. -/
theorem determined_of_zero : Determined (thousandths 1000) (thousandths 0) twoRows [thousandths 1000] [thousandths 0] := by
  rintro ys ⟨b, p, hp, hys⟩
  obtain ⟨m, v, -, hv, hscaled⟩ := rmsNorm_eq_some.mp hys
  obtain ⟨d, -, hvalue⟩ := Option.bind_eq_some_iff.mp hv
  have hrow : (d, v) = p := List.mem_singleton.mp (LookupConfig.value?_mem hvalue)
  have hzero : ∀ p ∈ twoRows ++ [padRow], scaled p.2 [thousandths 1000] [thousandths 0] = some [thousandths 0] := by
    decide +kernel
  have hall := hzero p hp
  rw [← hrow, hscaled] at hall
  rw [hall]
  decide +kernel

theorem normalizes_iff_determined_twoRows :
    NormConstants twoRowFloats twoRowDomains 1 0 (thousandths 1000) (thousandths 0) twoRows ∧
    ∀ A x w out, NormAt twoRowFloats twoRowDomains 1 0 A x w out → Carries A x.cells [thousandths 1000] →
      Carries A w.cells [thousandths 0] → ∃ ys, RmsNorm.rmsNorm (thousandths 1000) (thousandths 0) twoRows
        [thousandths 1000] [thousandths 0] = some ys ∧ Carries A out.cells ys := by
  refine ⟨twoRow_constants, ?_⟩
  obtain ⟨config, cs, r, hconfigure, hrun⟩ := twoRow_assigned
  have hiff := (normalizes_iff_determined twoRow_constants ⟨_, _, false, insertionOrder, true, config, cs, 0, r, hconfigure,
    hrun⟩).2 [thousandths 1000] [thousandths 0] rfl rfl
  exact hiff.mpr determined_of_zero

/-- The operand that should hold epsilon is free: with three in it, the mean square of one is looked up as four. -/
theorem normalizes_other_row : ∃ A x w out, NormAt twoRowFloats twoRowDomains 1 0 A x w out ∧
    Carries A x.cells [thousandths 1000] ∧ Carries A w.cells [thousandths 1000] ∧ Carries A out.cells [thousandths 500] ∧
    RmsNorm.rmsNorm (thousandths 1000) (thousandths 0) twoRows [thousandths 1000] [thousandths 1000] =
      some [thousandths 1000] ∧ thousandths 500 ≠ thousandths 1000 := by
  obtain ⟨config, cs, ⟨regs, es, n⟩, hconfigure, hrun⟩ := twoRow_assigned
  have hreach : RmsNormConfig.Reachable (thousandths 1000) twoRows [thousandths 1000] [thousandths 1000]
      [thousandths 500] :=
    ⟨thousandths 3000, (thousandths 4000, thousandths 500), by decide +kernel, by decide +kernel⟩
  obtain ⟨A, hA, x, w, out, hx, hw, hout, hxs, hws, hys⟩ :=
    exists_satisfying hconfigure hrun rfl rfl twoRow_constants.reciprocal twoRow_constants.table hreach
  refine ⟨A, x, w, out, ?_, hxs, hws, hys, by decide +kernel, by decide +kernel⟩
  exact ⟨false, insertionOrder, _, true, config, cs, 0, regs, es, n, 0, .input 0, .weight 0, hconfigure, hrun, hA, rfl, hx,
    hw, hout⟩

end Main

end AssemblerConfig

end Zkie.Assembler
