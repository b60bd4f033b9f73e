import Zkie.Forgery
import Zkie.LookupChip

namespace Zkie.EmbedLookup

open ScalarField FixedPoint Plonkish Synthesis Satisfaction HostRun Skeleton Placement Forgery Lookup

inductive EmbedLookupError where
  | tableRowCountMismatch (expected got : ℕ)
  | tableRowLengthMismatch (row expected got : ℕ)
  | indexOutOfRange (index tableSize : UInt64)
  | lookup (dim : ℕ) (source : LookupError)
  deriving DecidableEq, Repr

structure EmbedLookupConfig where
  lookups : List LookupConfig
  tableSize : UInt64
  embedDim : UInt64
  deriving DecidableEq, Repr

/-- One embedding vector a row. -/
abbrev Table : Type := List (List I18)

/-- A literal index as a raw number. -/
def indexPoint (i : ℕ) : I18 := (I18.ofInt? i).getD default

/-- The domain of one dimension: the indices, with the column of the table. -/
def columnDomain (table : Table) (dim : ℕ) : Domain :=
  table.zipIdx.map fun entry => (indexPoint entry.2, entry.1.getD dim default)

namespace EmbedLookupConfig

def configure (index : Column) (outputCols : List Column) (tableSize embedDim : UInt64) :
    Configure Fr EmbedLookupConfig := do
  assertThat (0 < tableSize) "table_size must be positive"
  assertThat (0 < embedDim) "embed_dim must be positive"
  assertThat (outputCols.length = embedDim.toNat) "output_cols.len() must equal embed_dim"
  let lookups ← configureEach (LookupConfig.configure index) outputCols
  return { lookups, tableSize, embedDim }

def validateTableShape (config : EmbedLookupConfig) (table : Table) : Except EmbedLookupError Unit :=
  if table.length ≠ config.tableSize.toNat then .error (.tableRowCountMismatch config.tableSize.toNat table.length)
  else match table.zipIdx.find? fun entry => entry.1.length ≠ config.embedDim.toNat with
    | some (values, row) => .error (.tableRowLengthMismatch row config.embedDim.toNat values.length)
    | none => .ok ()

/-- The chip of one dimension. The indices are counted in `i64`, and there are none of them if the size of the table is
negative there; then the lengths of domain and values differ. -/
def lookupChipForDim (config : EmbedLookupConfig) (dim : ℕ) : Synth Fr EmbedLookupError LookupConfig := do
  Synth.check (config.tableSize.toNat < 2 ^ 63) "domain and values must have the same length"
  Synth.unwrap "index out of bounds" config.lookups[dim]?

def loadTable (config : EmbedLookupConfig) (table : Table) : Synth Fr EmbedLookupError Unit := do
  Synth.ofExcept (config.validateTableShape table)
  let _ ← Synth.forEach (fun dim => do
    let chip ← config.lookupChipForDim dim
    chip.loadTable (columnDomain table dim)) (List.range config.embedDim.toNat)
  return ()

/-- One dimension of an index. The source drops the output's cell, which is kept here. -/
def assignDim (config : EmbedLookupConfig) (index : UInt64) (table : Table) (dim : ℕ) :
    Synth Fr EmbedLookupError (I18 × AssignedCell Fr) := do
  let chip ← config.lookupChipForDim dim
  (chip.assign (columnDomain table dim) (indexPoint index.toNat) true).mapError (.lookup dim)

def assign (config : EmbedLookupConfig) (index : UInt64) (table : Table) :
    Synth Fr EmbedLookupError (List (I18 × AssignedCell Fr)) := do
  Synth.ofExcept (config.validateTableShape table)
  Synth.ensure (index < config.tableSize) (.indexOutOfRange index config.tableSize)
  Synth.forEach (config.assignDim index table) (List.range config.embedDim.toNat)

end EmbedLookupConfig

open EmbedLookupConfig

/-- The chip is configured on some constraint system; its tables are loaded and one index is looked up. -/
def LaidDown (tableSize embedDim : UInt64) (table : Table) (cs : ConstraintSystem Fr) (outputs : List (I18 × AssignedCell Fr))
    (es : List (Event Fr)) : Prop :=
  ∃ cs₀ index outputCols i n n' config, cs₀.WellFormed ∧
    configure index outputCols tableSize embedDim cs₀ = .ok (config, cs) ∧
    (do config.loadTable table; config.assign i table) n = .ok (outputs, es, n')

/-- A table of the configured size. A vector holds fewer than `2 ^ 63` elements. -/
structure Shaped (tableSize embedDim : UInt64) (table : Table) : Prop where
  rows : table.length = tableSize.toNat
  columns : ∀ row ∈ table, row.length = embedDim.toNat
  tablePos : 0 < tableSize
  embedPos : 0 < embedDim
  bounded : tableSize.toNat < 2 ^ 63

/-- The outputs of every satisfying assignment are the embedding of one index. -/
def Embeds (tableSize embedDim : UInt64) (table : Table) : Prop :=
  ∀ cs outputs es A, LaidDown tableSize embedDim table cs outputs es → Satisfies cs es A →
    ∃ (i : ℕ) (row : List I18), table[i]? = some row ∧ List.Forall₂ (fun out v => A.cell out.2.cell = i64ToFr v) outputs row

/-- A vector that takes zero or an entry of the column in every dimension. -/
def Mixed (table : Table) (v : List I18) : Prop :=
  ∀ (dim : ℕ) (x : I18), v[dim]? = some x → x = default ∨ ∃ row ∈ table, row[dim]? = some x

/-- Every mixture of the rows and zero is a row. -/
def ClosedUnderMixing (embedDim : UInt64) (table : Table) : Prop :=
  ∀ v, v.length = embedDim.toNat → Mixed table v → v ∈ table

variable {tableSize embedDim : UInt64} {table : Table} {cs : ConstraintSystem Fr} {T : List ℕ → List Fr → Prop}
  {A : Assignment Fr} {config : EmbedLookupConfig}

/-- Every dimension has its own lookup, with a table of its own. -/
structure Installed (config : EmbedLookupConfig) (cs : ConstraintSystem Fr) : Prop where
  length : config.lookups.length = config.embedDim.toNat
  lookups : ∀ lookup ∈ config.lookups, lookup.argument ∈ cs.lookups
  tables : config.lookups.Pairwise fun a b => a.tableInput < b.tableInput

section Configure

/-- The lookups configured so far, for some of the output columns. -/
structure ConfiguredFor (index : Column) (done : List Column) (lookups : List LookupConfig) (cs : ConstraintSystem Fr) :
    Prop where
  length : lookups.length = done.length
  tables : lookups.Pairwise fun a b => a.tableInput < b.tableInput
  bounded : ∀ lookup ∈ lookups, lookup.tableInput < cs.numTables
  argument : ∀ lookup ∈ lookups, lookup.argument ∈ cs.lookups
  installed : index ∉ done → ∀ lookup ∈ lookups, lookup.Installed cs

theorem ConfiguredFor.step {index output : Column} {done : List Column} {lookups : List LookupConfig}
    (h : ConfiguredFor index done lookups cs) : Configures (LookupConfig.configure index output) cs fun lookup cs' =>
      ConfiguredFor index (done ++ [output]) (lookups ++ [lookup]) cs' := by
  intro lookup cs' hrun
  obtain ⟨hle, hwf, hargument, hlow, hhigh⟩ := LookupConfig.configure_argument index output lookup cs' hrun
  refine ⟨hle, hwf, ?_, ?_, ?_, ?_, ?_⟩
  · rw [List.length_append, List.length_append, h.length]
    rfl
  · rw [List.pairwise_append]
    refine ⟨h.tables, List.pairwise_singleton _ _, fun a ha b hb => ?_⟩
    rw [List.mem_singleton.mp hb]
    exact Nat.lt_of_lt_of_le (h.bounded a ha) hlow
  · intro other hother
    rcases List.mem_append.mp hother with hother | hother
    · exact Nat.lt_of_lt_of_le (h.bounded other hother) hle.numTables
    · rw [List.mem_singleton.mp hother]
      exact hhigh
  · intro other hother
    rcases List.mem_append.mp hother with hother | hother
    · exact hle.lookups (h.argument other hother)
    · rw [List.mem_singleton.mp hother]
      exact hargument
  · intro hnot other hother
    rcases List.mem_append.mp hother with hother | hother
    · exact (h.installed (fun hmem => hnot (List.mem_append_left _ hmem)) other hother).mono hle
    · rw [List.mem_singleton.mp hother]
      have hne : index ≠ output := fun heq => hnot (by simp [heq])
      exact ((LookupConfig.configure_installed hne) lookup cs' hrun).2.2.1

theorem configureEach_configured {index : Column} {outputCols : List Column} :
    Configures (configureEach (LookupConfig.configure index) outputCols) cs fun lookups cs' =>
      ConfiguredFor index outputCols lookups cs' := by
  apply Configures.configureEach (I := ConfiguredFor index)
  · intro done output lookups cs' _ h
    exact h.step
  · exact ⟨rfl, .nil, fun _ h => absurd h List.not_mem_nil, fun _ h => absurd h List.not_mem_nil,
      fun _ _ h => absurd h List.not_mem_nil⟩

theorem configure_installed {index : Column} {outputCols : List Column} :
    Configures (configure index outputCols tableSize embedDim) cs fun config cs' => Installed config cs' ∧
      config.tableSize = tableSize ∧ config.embedDim = embedDim ∧
        (index ∉ outputCols → ∀ lookup ∈ config.lookups, lookup.Installed cs') := by
  refine Configures.assertThat.bind fun _ cs₁ _ _ => ?_
  refine Configures.assertThat.bind fun _ cs₂ _ _ => ?_
  refine Configures.assertThat.bind fun _ cs₃ _ hdim => ?_
  refine configureEach_configured.bind fun lookups cs₄ _ h => ?_
  exact Configures.pure ⟨⟨h.length.trans hdim, h.argument, h.tables⟩, rfl, rfl, h.installed⟩

end Configure

section Tables

/-- The tables that one dimension loads. -/
def tableEvents (config : EmbedLookupConfig) (table : Table) (dim : ℕ) : List (Event Fr) :=
  (config.lookups[dim]?).elim [] fun lookup =>
    [.table [lookup.tableInput, lookup.tableOutput] (tableRows (columnDomain table dim))]

theorem Shaped.validate (h : Shaped tableSize embedDim table) (hsize : config.tableSize = tableSize)
    (hdim : config.embedDim = embedDim) : config.validateTableShape table = .ok () := by
  have hfind : (table.zipIdx.find? fun entry => entry.1.length ≠ config.embedDim.toNat) = none := by
    apply List.find?_eq_none.mpr
    rintro ⟨values, row⟩ hmem
    have hrow : values ∈ table := (List.mem_zipIdx' hmem).2 ▸ List.getElem_mem _
    simp [hdim, h.columns values hrow]
  rw [validateTableShape, if_neg (not_not.mpr (hsize ▸ h.rows)), hfind]

theorem loadTable_emits (h : Installed config cs) (hshape : Shaped tableSize embedDim table)
    (hsize : config.tableSize = tableSize) (hdim : config.embedDim = embedDim) :
    Emits (config.loadTable table) () ((List.range config.embedDim.toNat).flatMap (tableEvents config table)) := by
  have heach : Emits (Synth.forEach (fun dim => do
      let chip ← config.lookupChipForDim dim
      chip.loadTable (ε := EmbedLookupError) (columnDomain table dim)) (List.range config.embedDim.toNat))
      ((List.range config.embedDim.toNat).map fun _ => ())
      ((List.range config.embedDim.toNat).flatMap (tableEvents config table)) := by
    apply Emits.forEach
    intro dim hmem n
    have hlt : dim < config.lookups.length := by rw [h.length]; exact List.mem_range.mp hmem
    have hcheck : config.tableSize.toNat < 2 ^ 63 := hsize ▸ hshape.bounded
    rw [tableEvents, lookupChipForDim, Synth.check, if_pos hcheck, List.getElem?_eq_getElem hlt]
    rfl
  intro n
  rw [loadTable, hshape.validate hsize hdim]
  exact Synth.bind_eq_ok.mpr ⟨(), [], n, _, rfl, Synth.bind_eq_ok.mpr ⟨_, _, n, [], heach n, rfl,
    (List.append_nil _).symm⟩, rfl⟩

theorem tableIs (h : Installed config cs) {rest : List (Event Fr)} (hrest : ∀ e ∈ rest, IsInner e) {dim : ℕ}
    {lookup : LookupConfig} (hlookup : config.lookups[dim]? = some lookup) :
    lookup.TableIs (Loaded ((List.range config.embedDim.toNat).flatMap (tableEvents config table) ++ rest))
      (columnDomain table dim) := by
  obtain ⟨hlt, rfl⟩ := List.getElem?_eq_some_iff.mp hlookup
  intro row
  constructor
  · rintro ⟨rows, hmem, hrow⟩
    rcases List.mem_append.mp hmem with hmem | hmem
    · obtain ⟨other, -, hmem⟩ := List.mem_flatMap.mp hmem
      rw [tableEvents] at hmem
      cases hother : config.lookups[other]? with
      | none =>
          rw [hother] at hmem
          cases hmem
      | some lookup =>
          obtain ⟨hlt', rfl⟩ := List.getElem?_eq_some_iff.mp hother
          rw [hother, Option.elim_some, List.mem_singleton] at hmem
          injection hmem with hcolumns hrows
          have hinput : config.lookups[dim].tableInput = config.lookups[other].tableInput := by
            injection hcolumns
          have hsame : dim = other := by
            rcases Nat.lt_trichotomy dim other with hlt'' | heq | hgt
            · exact absurd hinput (List.pairwise_iff_getElem.mp h.tables dim other hlt hlt' hlt'').ne
            · exact heq
            · exact absurd hinput (List.pairwise_iff_getElem.mp h.tables other dim hlt' hlt hgt).ne'
          subst hsame
          exact hrows ▸ hrow
    · exact (hrest _ hmem).elim
  · intro hrow
    refine ⟨_, List.mem_append_left _ (List.mem_flatMap.mpr ⟨dim, ?_, ?_⟩), hrow⟩
    · rw [List.mem_range, ← h.length]
      exact hlt
    · rw [tableEvents, List.getElem?_eq_getElem hlt]
      exact .head _

end Tables

theorem mem_columnDomain (hshape : Shaped tableSize embedDim table) {dim : ℕ} (hdim : dim < embedDim.toNat) {x : I18} :
    (∃ p ∈ columnDomain table dim, p.2 = x) ↔ ∃ row ∈ table, row[dim]? = some x := by
  have hget : ∀ row ∈ table, ∀ y, row.getD dim default = y ↔ row[dim]? = some y := by
    intro row hrow y
    have hlt : dim < row.length := hshape.columns row hrow ▸ hdim
    rw [List.getD_eq_getElem?_getD, List.getElem?_eq_getElem hlt, Option.getD_some, Option.some_inj]
  constructor
  · rintro ⟨p, hp, rfl⟩
    obtain ⟨⟨row, i⟩, hentry, rfl⟩ := List.mem_map.mp hp
    have hrow : row ∈ table := (List.mem_zipIdx' hentry).2 ▸ List.getElem_mem _
    exact ⟨row, hrow, (hget row hrow _).mp rfl⟩
  · rintro ⟨row, hrow, hx⟩
    obtain ⟨i, hi, rfl⟩ := List.mem_iff_getElem.mp hrow
    refine ⟨(indexPoint i, table[i].getD dim default), List.mem_map.mpr ⟨(table[i], i), ?_, rfl⟩, ?_⟩
    · exact List.mk_mem_zipIdx_iff_getElem?.mpr (List.getElem?_eq_getElem hi)
    · exact (hget _ hrow x).mpr hx

section Soundness

variable {i : UInt64} {n n' : ℕ} {outputs : List (I18 × AssignedCell Fr)} {es : List (Event Fr)}

theorem lookupChipForDim_triple {H G : Event Fr → Prop} (config : EmbedLookupConfig) (dim : ℕ) :
    Triple H G (config.lookupChipForDim dim) fun lookup => config.lookups[dim]? = some lookup :=
  Triple.check.bind fun _ _ => .unwrap fun _ => id

/-- The demands on a column of values, dimension by dimension. -/
theorem forall₂_range {P : ℕ → I18 → Prop} {d : ℕ} {v : List I18} :
    List.Forall₂ P (List.range d) v ↔ v.length = d ∧ ∀ (dim : ℕ) (x : I18), v[dim]? = some x → P dim x := by
  rw [List.forall₂_iff_get]
  simp only [List.length_range, List.get_eq_getElem, List.getElem_range]
  constructor
  · rintro ⟨hlength, hall⟩
    refine ⟨hlength.symm, fun dim x hx => ?_⟩
    obtain ⟨hlt, rfl⟩ := List.getElem?_eq_some_iff.mp hx
    exact hall dim (hlength ▸ hlt) hlt
  · rintro ⟨hlength, hall⟩
    exact ⟨hlength.symm, fun dim _ hlt => hall dim _ (List.getElem?_eq_getElem hlt)⟩

/-- The outputs of a satisfying assignment are a mixture of the rows and zero. -/
theorem assign_mixed (hwf : cs.WellFormed) (h : Installed config cs) (hshape : Shaped tableSize embedDim table)
    (hdim : config.embedDim = embedDim)
    (hT : ∀ (dim : ℕ) (lookup : LookupConfig), config.lookups[dim]? = some lookup →
      lookup.TableIs T (columnDomain table dim)) :
    Sound cs T A (config.assign i table) fun outputs => ∃ v, v.length = embedDim.toNat ∧ Mixed table v ∧
      List.Forall₂ (fun out x => A.cell out.2.cell = i64ToFr x) outputs v := by
  refine Triple.bind (.ofExcept (Q := fun _ => True) fun _ _ => trivial) fun _ _ => Triple.ensure.bind fun _ _ => ?_
  apply (Triple.forEach (Q := fun dim out => ∃ x y : I18, (x = default ∨ ∃ row ∈ table, row[dim]? = some x) ∧
    A.cell out.2.cell = i64ToFr y ∧ x = y) ?_).mono
  · intro outputs houtputs
    obtain ⟨v, w, hv, hw, heq⟩ := forall₂_choose houtputs
    rw [List.forall₂_eq_eq_eq] at heq
    subst heq
    obtain ⟨hlength, hmixed⟩ := forall₂_range.mp hv
    exact ⟨v, hdim ▸ hlength, hmixed, hw⟩
  · intro dim hmem
    rw [List.mem_range, hdim] at hmem
    refine (lookupChipForDim_triple config dim).bind fun lookup hlookup => Triple.mapError ?_
    have hargument := h.lookups lookup (List.mem_of_getElem? hlookup)
    refine (LookupConfig.assign_row hwf hargument (hT dim lookup hlookup) _ _).mono ?_
    rintro out ⟨p, hp, hout⟩
    refine ⟨p.2, p.2, ?_, hout, rfl⟩
    rcases List.mem_append.mp hp with hp | hp
    · exact .inr ((mem_columnDomain hshape hmem).mp ⟨p, hp, rfl⟩)
    · rw [List.mem_singleton.mp hp]
      exact .inl rfl

theorem assign_inner : Triple (fun _ => True) IsInner (config.assign i table) fun _ => True := by
  refine Triple.bind (.ofExcept (Q := fun _ => True) fun _ _ => trivial) fun _ _ => Triple.ensure.bind fun _ _ => ?_
  apply (Triple.forEach (Q := fun _ _ => True) ?_).mono fun _ _ => trivial
  intro dim _
  refine (lookupChipForDim_triple config dim).bind fun lookup _ => Triple.mapError ?_
  intro n out es n' hrun hH
  refine ⟨fun e he => ?_, trivial⟩
  have hlookingUp := (LookupConfig.assign_lookingUp _ n out es n' hrun hH).1 e he
  cases e with
  | region | enable | advice | fixed | copy | constant => trivial
  | expose | table => exact hlookingUp

/-- A run loads the tables, and then works inside regions. -/
theorem run_split (h : Installed config cs) (hshape : Shaped tableSize embedDim table) (hsize : config.tableSize = tableSize)
    (hdim : config.embedDim = embedDim)
    (hrun : (do config.loadTable table; config.assign i table) n = .ok (outputs, es, n')) :
    ∃ rest, config.assign i table n = .ok (outputs, rest, n') ∧
      es = (List.range config.embedDim.toNat).flatMap (tableEvents config table) ++ rest ∧ ∀ e ∈ rest, IsInner e := by
  obtain ⟨_, es₁, n₁, rest, hload, hassign, rfl⟩ := Synth.bind_eq_ok.mp hrun
  rw [loadTable_emits h hshape hsize hdim n] at hload
  cases hload
  exact ⟨rest, hassign, rfl, (assign_inner n outputs rest n' hassign fun _ _ => trivial).1⟩

end Soundness

section Forgery

theorem configureEach_ok {α β : Type} {f : α → Configure Fr β} (h : ∀ x cs, ∃ r, f x cs = .ok r) (xs : List α)
    (cs : ConstraintSystem Fr) : ∃ r, configureEach f xs cs = .ok r := by
  induction xs generalizing cs with
  | nil => exact ⟨_, rfl⟩
  | cons x xs ih =>
      obtain ⟨⟨y, cs'⟩, hy⟩ := h x cs
      obtain ⟨⟨ys, cs''⟩, hys⟩ := ih cs'
      refine ⟨(y :: ys, cs''), ?_⟩
      change (f x cs >>= fun r => (configureEach f xs >>= fun ys => pure (r.1 :: ys)) r.2) = _
      rw [hy]
      change (configureEach f xs cs' >>= fun r => Except.ok (y :: r.1, r.2)) = _
      rw [hys]
      rfl

def separateOutputs (embedDim : UInt64) : List Column := (List.range embedDim.toNat).map fun j => .advice (j + 1)

theorem index_notMem_separateOutputs : .advice 0 ∉ separateOutputs embedDim := by
  intro hmem
  obtain ⟨j, -, hj⟩ := List.mem_map.mp hmem
  have := Column.advice.inj hj
  omega

theorem exists_configured (hshape : Shaped tableSize embedDim table) : ∃ config cs,
    configure (.advice 0) (separateOutputs embedDim) tableSize embedDim {} = .ok (config, cs) := by
  have hlength : (separateOutputs embedDim).length = embedDim.toNat := by simp [separateOutputs]
  have heach := configureEach_ok (f := LookupConfig.configure (.advice 0)) (fun _ _ => ⟨_, rfl⟩)
    (separateOutputs embedDim) {}
  obtain ⟨⟨lookups, cs⟩, heach⟩ := heach
  refine ⟨⟨lookups, tableSize, embedDim⟩, cs, ?_⟩
  rw [configure, assertThat, if_pos hshape.tablePos, assertThat, if_pos hshape.embedPos, assertThat, if_pos hlength]
  change (configureEach (LookupConfig.configure (.advice 0)) (separateOutputs embedDim) {} >>= fun r =>
    Except.ok (EmbedLookupConfig.mk r.1 tableSize embedDim, r.2)) = _
  rw [heach]
  rfl

theorem configure_adds (index : Column) (outputCols : List Column) :
    Adds [] (configure index outputCols tableSize embedDim) fun config => config.lookups.map LookupConfig.idle := by
  refine Adds.assertThat.bind fun _ => Adds.assertThat.bind fun _ => Adds.assertThat.bind fun _ => ?_
  have heach : Adds [] (configureEach (LookupConfig.configure index) outputCols) fun lookups =>
      [] ++ lookups.flatMap fun lookup => [LookupConfig.idle lookup] :=
    Adds.configureEach fun output L => LookupConfig.configure_adds index output L
  refine heach.bind fun lookups => Adds.pure ?_
  exact List.flatMap_pure_eq_map LookupConfig.idle lookups

/-- The loop of a prover that holds a pair of its own for every dimension. -/
def forgedLoop (config : EmbedLookupConfig) (p : ℕ → I18 × I18) : Synth Fr EmbedLookupError (List (I18 × AssignedCell Fr)) :=
  Synth.forEach (fun dim => do
    let chip ← config.lookupChipForDim dim
    (chip.assign [p dim] (p dim).1 true).mapError (.lookup dim)) (List.range config.embedDim.toNat)

variable {p : ℕ → I18 × I18}

theorem lookup_at (h : Installed config cs) {dim : ℕ} (hdim : dim ∈ List.range config.embedDim.toNat) :
    ∃ lookup ∈ config.lookups, config.lookups[dim]? = some lookup := by
  have hlt : dim < config.lookups.length := h.length ▸ List.mem_range.mp hdim
  exact ⟨_, List.getElem_mem hlt, List.getElem?_eq_getElem hlt⟩

theorem lookupChipForDim_decides (hbound : config.tableSize.toNat < 2 ^ 63) {dim : ℕ} {lookup : LookupConfig}
    (hlookup : config.lookups[dim]? = some lookup) :
    Decides (config.lookupChipForDim dim) True fun l => config.lookups[dim]? = some l := by
  refine (Decides.check.bind fun _ _ => Decides.unwrap fun _ => id).iff ?_ fun _ _ => id
  simpa [hlookup] using hbound

theorem forgedLoop_ok (h : Installed config cs) (hbound : config.tableSize.toNat < 2 ^ 63) (n : ℕ) :
    ∃ r, forgedLoop config p n = .ok r := by
  refine (Decides.forEach_always (fun dim hdim => ?_) n).2 trivial
  obtain ⟨lookup, -, hlookup⟩ := lookup_at h hdim
  refine ((lookupChipForDim_decides hbound hlookup).bind fun l _ =>
    Decides.mapError (LookupConfig.assign_decides (p dim).1)).iff ?_ fun _ _ _ => trivial
  simp [value?]

theorem assignLoop_ok (h : Installed config cs) (hshape : Shaped tableSize embedDim table)
    (hsize : config.tableSize = tableSize) (n : ℕ) : ∃ r, Synth.forEach (config.assignDim 0 table) (List.range config.embedDim.toNat) n = .ok r := by
  refine (Decides.forEach_always (fun dim hmem => ?_) n).2 trivial
  obtain ⟨lookup, -, hlookup⟩ := lookup_at h hmem
  have hpos : 0 < table.length := by
    rw [hshape.rows]
    exact UInt64.lt_iff_toNat_lt.mp hshape.tablePos
  have hfirst : (indexPoint 0, table[0].getD dim default) ∈ columnDomain table dim :=
    List.mem_map.mpr ⟨(table[0], 0), List.mk_mem_zipIdx_iff_getElem?.mpr (List.getElem?_eq_getElem hpos), rfl⟩
  obtain ⟨v, hv⟩ := LookupConfig.value?_isSome hfirst
  refine ((lookupChipForDim_decides (hsize ▸ hshape.bounded) hlookup).bind fun l _ =>
    Decides.mapError (LookupConfig.assign_decides _)).iff ?_ fun _ _ _ => trivial
  rw [show (0 : UInt64).toNat = 0 from rfl, hv]
  simp

theorem forgedLoop_placed (hinst : ∀ lookup ∈ config.lookups, lookup.Installed cs) : Placed (forgedLoop config p) := by
  apply Placed.forEach
  intro dim _
  apply Placed.bind_triple (Placed.check.bind fun _ => Placed.unwrap) (lookupChipForDim_triple config dim)
  intro lookup hlookup
  exact Placed.mapError (LookupConfig.assign_placed (hinst lookup (List.mem_of_getElem? hlookup)) _)

theorem forgedLoop_complete (hwf : cs.WellFormed) (hinst : ∀ lookup ∈ config.lookups, lookup.Installed cs)
    (hT : ∀ (dim : ℕ) (lookup : LookupConfig), config.lookups[dim]? = some lookup →
      lookup.TableIs T (columnDomain table dim))
    (hp : ∀ dim < config.embedDim.toNat, p dim ∈ columnDomain table dim ++ [padRow]) :
    Complete cs T A (forgedLoop config p) fun outputs => List.Forall₂ (fun dim out =>
      A.cell out.2.cell = i64ToFr (p dim).2) (List.range config.embedDim.toNat) outputs := by
  apply Triple.forEach
  intro dim hdim
  refine (lookupChipForDim_triple config dim).bind fun lookup hlookup => Triple.mapError ?_
  have hhost : ∀ q ∈ [p dim], q ∈ columnDomain table dim ++ [padRow] := by
    intro q hq
    rw [List.mem_singleton.mp hq]
    exact hp dim (List.mem_range.mp hdim)
  refine (LookupConfig.assign_complete hwf (hinst lookup (List.mem_of_getElem? hlookup)) (hT dim lookup hlookup) hhost
    _).mono ?_
  rintro out ⟨hvalue, hout⟩
  have hsame : (p dim).2 = out.1 := by simpa [value?] using hvalue
  rw [hout.value, ← hsame, i64ToFr_cast]

theorem forgedLoop_agree (i : UInt64) : Agree (Synth.forEach (config.assignDim i table) (List.range config.embedDim.toNat))
    (forgedLoop config p) (List.Forall₂ fun out out' => out.2.cell = out'.2.cell) := by
  apply Agree.forEach (R := Eq) (List.forall₂_same.mpr fun _ _ => rfl)
  rintro dim _ rfl
  refine (Agree.check.bind fun _ _ _ => Agree.unwrap (R := Eq) fun a b ha hb => ?_).bind fun lookup _ hsame =>
    hsame ▸ Agree.mapError (LookupConfig.assign_agree _ _ _ _)
  exact Option.some.inj (ha.symm.trans hb)

/-- Whatever mixture of the rows and zero a prover wants as its outputs, some assignment with these outputs satisfies
the circuit. -/
theorem exists_satisfying (hshape : Shaped tableSize embedDim table) {v : List I18} (hlength : v.length = embedDim.toNat)
    (hmixed : Mixed table v) : ∃ cs outputs es A, LaidDown tableSize embedDim table cs outputs es ∧ Satisfies cs es A ∧
      List.Forall₂ (fun out x => A.cell out.2.cell = i64ToFr x) outputs v := by
  obtain ⟨config, cs, hconfigure⟩ := exists_configured hshape
  obtain ⟨-, hwf, h, hsize, hdim, hinst⟩ := configure_installed config cs hconfigure
  have hwf₀ : ConstraintSystem.WellFormed ({} : ConstraintSystem Fr) :=
    ⟨fun s hs => absurd hs List.not_mem_nil, List.nodup_nil⟩
  have hinst := hinst index_notMem_separateOutputs
  -- the row that the prover takes in each dimension
  have hchoice : ∀ dim, ∃ q : I18 × I18, dim < config.embedDim.toNat →
      q ∈ columnDomain table dim ++ [padRow] ∧ q.2 = v.getD dim default := by
    intro dim
    by_cases hlt : dim < v.length
    · have hget : v.getD dim default = v[dim] := by simp [hlt]
      rcases hmixed dim v[dim] (List.getElem?_eq_getElem hlt) with hzero | hrow
      · exact ⟨padRow, fun _ => ⟨by simp, hget ▸ hzero.symm⟩⟩
      · obtain ⟨q, hq, hvalue⟩ := (mem_columnDomain hshape (hlength ▸ hlt)).mpr hrow
        exact ⟨q, fun _ => ⟨List.mem_append_left _ hq, hget ▸ hvalue⟩⟩
    · exact ⟨padRow, fun hlt' => absurd (hlength ▸ hdim ▸ hlt') hlt⟩
  choose p hp using hchoice
  -- the run of an honest prover
  obtain ⟨⟨outputs, rest, n⟩, hloop⟩ := assignLoop_ok h hshape hsize 0
  have hassign : config.assign 0 table 0 = .ok (outputs, rest, n) := by
    rw [EmbedLookupConfig.assign, hshape.validate hsize hdim, Synth.ensure, if_pos (hsize ▸ hshape.tablePos)]
    exact Synth.bind_eq_ok.mpr ⟨(), [], 0, rest, rfl, Synth.bind_eq_ok.mpr ⟨(), [], 0, rest, rfl, hloop, rfl⟩, rfl⟩
  have hrun : (do config.loadTable table; config.assign 0 table) 0 = .ok (outputs,
      (List.range config.embedDim.toNat).flatMap (tableEvents config table) ++ rest, n) :=
    Synth.bind_eq_ok.mpr ⟨(), _, 0, rest, loadTable_emits h hshape hsize hdim 0, hassign, rfl⟩
  have hlaid : LaidDown tableSize embedDim table cs outputs
      ((List.range config.embedDim.toNat).flatMap (tableEvents config table) ++ rest) :=
    ⟨{}, _, _, 0, 0, n, config, hwf₀, hconfigure, hrun⟩
  have hinner := (assign_inner 0 outputs rest n hassign fun _ _ => trivial).1
  have hT : ∀ (dim : ℕ) (lookup : LookupConfig), config.lookups[dim]? = some lookup → lookup.TableIs
      (Loaded ((List.range config.embedDim.toNat).flatMap (tableEvents config table) ++ rest)) (columnDomain table dim) :=
    fun dim lookup => tableIs h hinner
  obtain ⟨A, outputs', hholds, hsame, hvalues⟩ := exists_forged (p := Synth.forEach (config.assignDim 0 table) _)
    (forgedLoop_agree 0) (forgedLoop_placed hinst)
    (fun A => forgedLoop_complete (A := A) (hwf hwf₀) hinst hT fun dim hlt => (hp dim hlt).1) hloop
    (forgedLoop_ok h (hsize ▸ hshape.bounded) 0)
  refine ⟨cs, outputs, _, A, hlaid, ⟨?_, ?_⟩, ?_⟩
  · intro e he
    rcases List.mem_append.mp he with he | he
    · obtain ⟨dim, -, he⟩ := List.mem_flatMap.mp he
      rw [tableEvents] at he
      cases hlookup : config.lookups[dim]? with
      | none =>
          rw [hlookup] at he
          cases he
      | some lookup =>
          rw [hlookup] at he
          rw [List.mem_singleton.mp he]
          trivial
    · exact hholds e he
  · intro l hl
    have hidle : cs.lookups.map Plonkish.Lookup.idle = config.lookups.map LookupConfig.idle :=
      configure_adds _ _ {} config cs hconfigure rfl
    have hmem : l.idle ∈ config.lookups.map LookupConfig.idle := hidle ▸ List.mem_map_of_mem hl
    obtain ⟨lookup, hlookup, heq⟩ := List.mem_map.mp hmem
    obtain ⟨dim, hlt, rfl⟩ := List.mem_iff_getElem.mp hlookup
    have hloaded := (hT dim _ (List.getElem?_eq_getElem hlt) (tableRow padRow)).mpr (List.mem_map_of_mem (by simp))
    change Loaded _ l.idle.1 l.idle.2
    rw [← heq]
    exact hloaded
  · have hv : List.Forall₂ (fun dim x => (p dim).2 = x) (List.range config.embedDim.toNat) v := by
      refine forall₂_range.mpr ⟨hdim ▸ hlength, fun dim x hx => ?_⟩
      obtain ⟨hlt, rfl⟩ := List.getElem?_eq_some_iff.mp hx
      rw [(hp dim (hdim ▸ hlength ▸ hlt)).2]
      simp [hlt]
    rw [List.forall₂_iff_get] at hsame hvalues hv ⊢
    refine ⟨hsame.1.trans (hvalues.1.symm.trans hv.1), fun j hj hj' => ?_⟩
    have hrange : j < (List.range config.embedDim.toNat).length := hv.1 ▸ hj'
    have hcell := hvalues.2 j hrange (hsame.1 ▸ hj)
    have hx := hv.2 j hrange hj'
    rw [hsame.2 j hj (hsame.1 ▸ hj), hcell, hx]

end Forgery

theorem embedded_unique {outputs : List (I18 × AssignedCell Fr)} {v w : List I18}
    (hv : List.Forall₂ (fun out x => A.cell out.2.cell = i64ToFr x) outputs v)
    (hw : List.Forall₂ (fun out x => A.cell out.2.cell = i64ToFr x) outputs w) : v = w := by
  rw [← List.forall₂_eq_eq_eq]
  refine List.forall₂_iff_get.mpr ⟨hv.length_eq.symm.trans hw.length_eq, fun j hj hj' => ?_⟩
  have hj'' : j < outputs.length := hw.length_eq ▸ hj'
  have hleft := (List.forall₂_iff_get.mp hv).2 j hj'' hj
  have hright := (List.forall₂_iff_get.mp hw).2 j hj'' hj'
  rw [hleft, i64ToFr_cast, i64ToFr_cast] at hright
  exact Rescale.raw_inj hright

/-- Every satisfying assignment of the embedding circuit has the embedding of one index as its outputs, exactly if every
vector that takes zero or an entry of some row in each dimension is itself a row of the table. -/
theorem embeds_iff_closedUnderMixing (hshape : Shaped tableSize embedDim table) :
    Embeds tableSize embedDim table ↔ ClosedUnderMixing embedDim table := by
  constructor
  · intro hembeds v hlength hmixed
    obtain ⟨cs, outputs, es, A, hlaid, hA, hv⟩ := exists_satisfying hshape hlength hmixed
    obtain ⟨i, row, hrow, hembedded⟩ := hembeds cs outputs es A hlaid hA
    exact embedded_unique hembedded hv ▸ List.mem_of_getElem? hrow
  · rintro hclosed cs outputs es A ⟨cs₀, index, outputCols, i, n, n', config, hwf₀, hconfigure, hrun⟩ hA
    obtain ⟨-, hwf, h, hsize, hdim, -⟩ := configure_installed config cs hconfigure
    obtain ⟨rest, hassign, rfl, hinner⟩ := run_split h hshape hsize hdim hrun
    obtain ⟨-, v, hlength, hmixed, hv⟩ := assign_mixed (hwf hwf₀) h hshape hdim (fun dim lookup => tableIs h hinner) n
      outputs rest n' hassign fun e he => hA.events e (List.mem_append_right _ he)
    obtain ⟨j, hj, rfl⟩ := List.mem_iff_getElem.mp (hclosed v hlength hmixed)
    exact ⟨j, _, List.getElem?_eq_getElem hj, hv⟩

/-- A table of one zero is closed. -/
theorem embeds_iff_closedUnderMixing_zero : Embeds 1 1 [[default]] := by
  have hshape : Shaped 1 1 [[default]] := ⟨rfl, by simp, by decide, by decide, by decide⟩
  apply (embeds_iff_closedUnderMixing hshape).mpr
  intro v hlength hmixed
  obtain ⟨x, rfl⟩ := List.length_eq_one_iff.mp hlength
  have hzero : x = default := by
    rcases hmixed 0 x rfl with hx | ⟨row, hrow, hx⟩
    · exact hx
    · rw [List.mem_singleton.mp hrow] at hx
      exact (Option.some.inj hx).symm
  rw [hzero]
  exact List.mem_singleton.mpr rfl

/-- Two embedding vectors of two equal numbers each. -/
def diagonal : Table := [[indexPoint 1, indexPoint 1], [indexPoint 2, indexPoint 2]]

/-- The index cells of two dimensions are not linked: the first output is taken from one row, the second from another. -/
theorem diagonal_mixed : ∃ cs outputs es A, LaidDown 2 2 diagonal cs outputs es ∧ Satisfies cs es A ∧
    List.Forall₂ (fun out x => A.cell out.2.cell = i64ToFr x) outputs [indexPoint 1, indexPoint 2] ∧
    ¬∃ (i : ℕ) (row : List I18), diagonal[i]? = some row ∧
      List.Forall₂ (fun out v => A.cell out.2.cell = i64ToFr v) outputs row := by
  have hshape : Shaped 2 2 diagonal := ⟨rfl, by decide, by decide, by decide, by decide⟩
  have hmixed : Mixed diagonal [indexPoint 1, indexPoint 2] := by
    intro dim x hx
    right
    match dim with
    | 0 => exact ⟨_, .head _, hx⟩
    | 1 => exact ⟨_, .tail _ (.head _), hx⟩
    | _ + 2 => simp at hx
  obtain ⟨cs, outputs, es, A, hlaid, hA, hv⟩ := exists_satisfying hshape rfl hmixed
  refine ⟨cs, outputs, es, A, hlaid, hA, hv, ?_⟩
  rintro ⟨i, row, hrow, hembedded⟩
  have hmem := List.mem_of_getElem? hrow
  rw [embedded_unique hembedded hv] at hmem
  exact absurd hmem (by decide)

end Zkie.EmbedLookup
