import Zkie.Halo2Cpu
import Zkie.LeafExposure

namespace Zkie.Halo2Cpu

open Assembler (HashOrder RegisterCells Registers RmsNormDomains)
open Checked
open FixedPoint (I18 i64ToFr)
open Isa (AssemblerProgram)
open Placement (exposed)
open Plonkish (Column ConstraintSystem)
open PoseidonBoundary
open ProgramCircuit ProgramCircuit.AssemblerCircuit
open RunDatabase (Digest32)
open Satisfaction
open ScalarField (Fr)
open Statement (BoundaryClaim LeafStatement claimInstances)
open Synthesis (Event)
open WitnessExecution (refuseIf_ok)

/-- A circuit with or without the values of its cells. -/
def withKnown (circuit : AssemblerCircuit) (known : Bool) : AssemblerCircuit := { circuit with hasKnownWitnesses := known }

section Statement

variable {prims : Primitives} {compress : Fr → Fr → Fr}

/-- The public values of an executed program: its inputs, its weights and the results at some places. -/
def executedValues (program : AssemblerProgram) (virtuals : List (List I18)) (places : List ℕ) : List I18 :=
  program.inputValues.flatten ++ program.weightValues.flatten ++ places.flatMap fun place => virtuals.getD place []

/-- A claim about a tensor. -/
def Claims (blake3 : Blake3) (compress : Fr → Fr → Fr) (claim : BoundaryClaim) (entry : BoundaryDescriptor × List I18) : Prop :=
  claim.descriptor = entry.1 ∧ claim.commitment = commitFields blake3 compress entry.1 (entry.2.map i64ToFr)

theorem boundaryClaim_ok {blake3 : Blake3} {descriptor : BoundaryDescriptor} {values : List I18} {claim : BoundaryClaim}
    (h : boundaryClaim blake3 compress descriptor values = .ok claim) : Claims blake3 compress claim (descriptor, values) := by
  obtain ⟨commitment, hcommitment, h⟩ := bind_eq_ok.mp h
  have hclaim := FixedPoint.mapError_eq_ok.mp h
  unfold BoundaryClaim.new at hclaim
  split at hclaim
  · cases hclaim
    exact ⟨rfl, (commitBoundaryNative_eq (FixedPoint.mapError_eq_ok.mp hcommitment)).symm⟩
  · cases hclaim

theorem outputClaims_ok {blake3 : Blake3} {publicValues : List I18} {descriptors : List BoundaryDescriptor}
    {tensors : List (List I18)} {claims : List BoundaryClaim} {offset : ℕ}
    (hsizes : List.Forall₂ (fun d (t : List I18) => t.length = d.elementCount.toNat) descriptors tensors)
    (hvalues : publicValues.drop offset = tensors.flatten)
    (h : outputClaims blake3 compress publicValues offset descriptors = .ok claims) :
    List.Forall₂ (Claims blake3 compress) claims (descriptors.zip tensors) := by
  induction hsizes generalizing offset claims with
  | nil =>
      cases h
      exact .nil
  | cons hsize _ ih =>
      rename_i tensor _ _ _
      obtain ⟨_, -, h⟩ := bind_eq_ok.mp h
      obtain ⟨_, -, h⟩ := bind_eq_ok.mp h
      obtain ⟨claim, hclaim, h⟩ := bind_eq_ok.mp h
      obtain ⟨rest, hrest, h⟩ := bind_eq_ok.mp h
      cases h
      rw [List.flatten_cons] at hvalues
      rw [hvalues, List.take_left' hsize] at hclaim
      refine .cons (boundaryClaim_ok hclaim) (ih ?_ hrest)
      rw [← List.drop_drop, hvalues, List.drop_left' hsize]

theorem claims_instances {claims : List BoundaryClaim} {entries : List (BoundaryDescriptor × List I18)}
    (h : List.Forall₂ (Claims prims.blake3 compress) claims entries) :
    claims.flatMap (claimInstances prims.blake3) =
      entries.flatMap fun entry => boundaryValues prims compress entry.1 (entry.2.map i64ToFr) := by
  induction h with
  | nil => rfl
  | cons hclaim _ ih =>
      rw [List.flatMap_cons, List.flatMap_cons, ih, claimInstances, boundaryValues, hclaim.1, hclaim.2]

theorem zip_eq_zipIdx {α β : Type} {xs : List α} {ys : List β} (h : xs.length = ys.length) (y : β) :
    xs.zip ys = xs.zipIdx.map fun entry => (entry.1, ys.getD entry.2 y) := by
  apply List.ext_getElem (by simp [h])
  intro i hi _
  rw [List.length_zip] at hi
  simp [List.getElem?_eq_getElem (show i < ys.length by omega)]

variable {backend : Halo2KzgCpuBackend} {keyDigest : Digest32} {program : AssemblerProgram} {statement : LeafStatement}
  {inputs : List BoundaryDescriptor} {outputs : List (ℕ × BoundaryDescriptor)} {virtuals : List (List I18)}

/-- The instances of the statement about an executed program. -/
theorem leafStatement_instances (hinputs : backend.boundaryInputs = some inputs) (houtputs : backend.boundaryOutputs = some outputs)
    (hsizes : ∀ entry ∈ outputs, (virtuals.getD entry.1 []).length = entry.2.elementCount.toNat)
    (h : backend.leafStatement prims.blake3 compress keyDigest program (executedValues program virtuals (outputs.map Prod.fst)) =
      .ok statement) :
    statement.instances prims.blake3 = statement.instancePrefix prims.blake3 ++
      leafValues prims compress inputs outputs program.weightValues (fun i => (program.inputValues.getD i []).map i64ToFr)
        fun i => (virtuals.getD i []).map i64ToFr := by
  unfold Halo2KzgCpuBackend.leafStatement at h
  rw [hinputs, houtputs] at h
  obtain ⟨_, hcount, h⟩ := bind_eq_ok.mp h
  obtain ⟨_, -, h⟩ := bind_eq_ok.mp h
  obtain ⟨_, -, h⟩ := bind_eq_ok.mp h
  obtain ⟨_, -, h⟩ := bind_eq_ok.mp h
  obtain ⟨inputClaims, hinputClaims, h⟩ := bind_eq_ok.mp h
  obtain ⟨outputClaims, houtputClaims, h⟩ := bind_eq_ok.mp h
  have hstatement := FixedPoint.mapError_eq_ok.mp h
  obtain ⟨hin, hout, hweights⟩ : statement.inputClaims = inputClaims ∧ statement.outputClaims = outputClaims ∧
      statement.publicWeights = program.weightValues.flatten := by
    unfold LeafStatement.new at hstatement
    split_ifs at hstatement
    cases hstatement
    exact ⟨rfl, rfl, rfl⟩
  have hlength := not_not.mp (refuseIf_ok.mp hcount)
  have hinputInstances : inputClaims.flatMap (claimInstances prims.blake3) = inputs.zipIdx.flatMap fun entry =>
      boundaryValues prims compress entry.1 ((program.inputValues.getD entry.2 []).map i64ToFr) := by
    have hclaims := (mapM_eq_ok.mp hinputClaims).imp fun _ _ hclaim => boundaryClaim_ok hclaim
    rw [claims_instances hclaims.flip, zip_eq_zipIdx hlength [], List.flatMap_map]
  have houtputEntries : List.Forall₂ (Claims prims.blake3 compress) outputClaims
      (outputs.map fun entry => (entry.2, virtuals.getD entry.1 [])) := by
    rw [← List.zip_map']
    apply outputClaims_ok _ _ houtputClaims
    · rw [List.forall₂_map_left_iff, List.forall₂_map_right_iff, List.forall₂_same]
      exact hsizes
    · rw [executedValues, List.flatMap_map, List.drop_left' (by simp [valueCount]), List.flatMap_def]
  have hcount : outputClaims.length = outputs.length := by simpa using houtputEntries.length_eq
  rw [LeafStatement.instances, hin, hout, hweights, hinputInstances, claims_instances houtputEntries, leafValues, List.length_flatten, hcount,
    List.flatMap_map]
  simp only [List.append_assoc]

end Statement

section Circuit

variable {prims : Primitives} {compress : Fr → Fr → Fr} {order : HashOrder} {program : AssemblerProgram}
  {domains : RmsNormDomains} {inputs : List BoundaryDescriptor} {outputs : List (ℕ × BoundaryDescriptor)} {leafPrefix : List Fr}
  {circuit : AssemblerCircuit} {known : Bool} {config : AssemblerCircuitConfig} {cs : ConstraintSystem Fr}
  {es : List (Event Fr)} {n : ℕ} {T : List ℕ → List Fr → Prop} {A : Assignment Fr}

/-- The exposed rows are the first rows of the column, which hold `values`. -/
structure Publishes (es : List (Event Fr)) (column : Column) (A : Assignment Fr) (values : List Fr) : Prop where
  rows : es.filterMap exposed = (List.range values.length).map (column, ·)
  values : (List.range values.length).map (A.instances column) = values

/-- What the constructor of a circuit with boundaries accepts. -/
structure Leaf (program : AssemblerProgram) (inputs : List BoundaryDescriptor) (outputs : List (ℕ × BoundaryDescriptor))
    (leafPrefix : List Fr) (circuit : AssemblerCircuit) : Prop where
  sameProgram : circuit.program = program
  boundaryInputs : circuit.params.boundaryInputs = inputs
  boundaryOutputs : circuit.params.boundaryOutputs = outputs
  samePrefix : circuit.leafPrefix = leafPrefix
  fixedWeights : circuit.params.fixedPublicWeights = program.weightValues
  prefixLength : leafPrefix.length = 17

theorem new_leaf (h : newWithBoundaryCommitments prims.blake3 program domains inputs outputs leafPrefix = .ok circuit) :
    Leaf program inputs outputs leafPrefix circuit := by
  unfold newWithBoundaryCommitments at h
  split_ifs at h with hvalid
  cases h
  obtain ⟨-, -, -, -, hlength, -⟩ := hvalid
  exact ⟨rfl, rfl, rfl, rfl, rfl, hlength⟩

theorem configured_poseidon {params : AssemblerCircuitParams} (h : configureWithParams prims params {} = .ok (config, cs)) :
    config.poseidon.Installed prims.poseidon cs := by
  obtain ⟨assembler, cs₁, -, hrest⟩ := Plonkish.Configures.bind_ok h
  obtain ⟨poseidon, cs₂, hposeidon, hpure⟩ := Plonkish.Configures.bind_ok hrest
  cases hpure
  exact PoseidonBoundaryConfig.configure_installed hposeidon

theorem publishes_of_shows {es₁ es₂ es₃ : List (Event Fr)} {column : Column} {count : ℕ} {values : List Fr}
    (hsilent : ∀ e ∈ es₁ ++ es₂, Silent e) (hrows : es₃.filterMap exposed = (List.range' 0 count).map (column, ·))
    (hvalues : (List.range' 0 count).map (A.instances column) = values) : Publishes (es₁ ++ (es₂ ++ es₃)) column A values := by
  have hcount : count = values.length := by simp [← hvalues]
  rw [← List.range_eq_range', hcount] at hrows hvalues
  refine ⟨?_, hvalues⟩
  rw [← List.append_assoc, List.filterMap_append, List.filterMap_eq_nil_iff.mpr hsilent, List.nil_append, hrows]

/-- What a run publishes under either reading of its layout. -/
theorem run_publishes (hleaf : Leaf program inputs outputs leafPrefix circuit) (hboundaries : inputs ≠ [] ∨ outputs ≠ [])
    (hcompress : Compresses prims.poseidon compress)
    (hconfigure : configureWithParams prims circuit.params {} = .ok (config, cs))
    (hrun : (withKnown circuit known).synthesize prims order config 0 = .ok ((), es, n)) :
    ∃ column assigned es' m, config.assembler.publicInstance = some column ∧
      config.assembler.assign prims.floats order program known 0 = .ok (assigned, es', m) ∧ (∀ e ∈ es', e ∈ es) ∧
      ∀ (reading : Reading) (T : List ℕ → List Fr → Prop) (A : Assignment Fr), (reading = .honest → known = true) →
        (∀ e ∈ es, reading.Meets cs T A e) → ∃ leading, leading.length = 17 ∧ (reading = .honest → leading = leafPrefix) ∧
          Publishes es column A (leading ++ leafValues prims compress inputs outputs program.weightValues
            (fun i => tensorValues A assigned.inputs[i]?) fun i => tensorValues A assigned.virtuals[i]?) ∧
          List.Forall₂ (fun reg weight => cellValues A reg = weight.map i64ToFr) assigned.weights program.weightValues := by
  obtain ⟨rfl, rfl, rfl, rfl, hfixed, hlength⟩ := hleaf
  obtain ⟨cs', hinstalled, -, -⟩ := configured_installed hconfigure
  obtain ⟨column, assigned, es₁, es₂, es₃, m, hcolumn, rfl, hsilent, hassign, hexpose⟩ := synthesize_ok ⟨cs', hinstalled⟩ hrun
  have hhas : HasBoundaries (withKnown circuit known).params := hboundaries
  rw [if_pos hhas] at hexpose
  refine ⟨column, assigned, es₂, m, hcolumn, hassign, fun e he => by simp [he], fun reading T A hreading hmeets => ?_⟩
  have hregisters := (assign_known hreading 0 assigned es₂ m hassign fun e he => hmeets e (by simp [he])).2
  obtain ⟨count, hrows, leading, hleading, hhonest, hvalues, hweights⟩ := exposeLeaf_shows (configured_poseidon hconfigure)
    hcompress hfixed hregisters m () es₃ n hexpose fun e he => hmeets e (by simp [he])
  exact ⟨leading, hleading.trans hlength, hhonest, publishes_of_shows hsilent hrows hvalues, hweights⟩

/-- With all values known, the cells of a register hold its values. -/
theorem cellValues_honest_eq {reg : RegisterCells} (h : AdvisedCells (Reading.Meets cs T A .honest) true reg) :
    cellValues A reg = reg.values.map i64ToFr := by
  have hreads := List.forall₂_map_right_iff.mp (cellValues_honest (fun _ => rfl) h rfl)
  rw [cellValues, ← List.forall₂_eq_eq_eq, List.forall₂_map_left_iff, List.forall₂_map_right_iff]
  exact hreads.imp fun _ _ hread => hread.holds

theorem tensorValues_honest {regs : List RegisterCells} {tensors : List (List I18)} (hvalues : regs.map RegisterCells.values = tensors)
    (h : ∀ reg ∈ regs, cellValues A reg = reg.values.map i64ToFr) (i : ℕ) :
    tensorValues A regs[i]? = (tensors.getD i []).map i64ToFr := by
  rw [List.getD_eq_getElem?_getD, ← hvalues, List.getElem?_map]
  cases hreg : regs[i]? with
  | none => rfl
  | some reg => exact h reg (List.mem_of_getElem? hreg)

/-- The results that the statement claims have as many values as their descriptors say. -/
theorem sizes_of_run (hleaf : Leaf program inputs outputs leafPrefix circuit) (hboundaries : inputs ≠ [] ∨ outputs ≠ [])
    (hconfigure : configureWithParams prims circuit.params {} = .ok (config, cs))
    (hrun : (withKnown circuit known).synthesize prims order config 0 = .ok ((), es, n)) :
    ∃ virtuals, config.assembler.hostProgram prims.floats known program = some virtuals ∧
      ∀ entry ∈ outputs, (virtuals.getD entry.1 []).length = entry.2.elementCount.toNat := by
  obtain ⟨rfl, rfl, rfl, rfl, -, -⟩ := hleaf
  obtain ⟨cs', hinstalled, hpublic, -⟩ := configured_installed hconfigure
  obtain ⟨⟨-, virtuals, hhost, hfits⟩, -⟩ := (synthesize_decides hinstalled hpublic order 0).1 _ _ _ hrun
  refine ⟨virtuals, hhost, fun entry hentry => ?_⟩
  have hhas : HasBoundaries (withKnown circuit known).params := hboundaries
  rw [Fits, if_pos hhas] at hfits
  obtain ⟨-, hcount⟩ := hfits.2 entry hentry
  obtain ⟨tensor, htensor, hlength⟩ := Option.map_eq_some_iff.mp hcount
  rw [List.getD_eq_getElem?_getD, htensor]
  exact hlength

/-- A satisfying assignment publishes a prefix, the descriptors and weights of the layout and the commitments to what the
cells of the boundary registers hold. An honest one publishes the statement that the host makes of the execution. -/
theorem leaf_publishes_statement (prims : Primitives) (compress : Fr → Fr → Fr) (order : HashOrder) (program : AssemblerProgram)
    (domains : RmsNormDomains) (inputs : List BoundaryDescriptor) (outputs : List (ℕ × BoundaryDescriptor)) (leafPrefix : List Fr)
    (circuit : AssemblerCircuit) (known : Bool) (config : AssemblerCircuitConfig) (cs : ConstraintSystem Fr)
    (es : List (Event Fr)) (n : ℕ) (hcompress : Compresses prims.poseidon compress)
    (hnew : newWithBoundaryCommitments prims.blake3 program domains inputs outputs leafPrefix = .ok circuit)
    (hboundaries : inputs ≠ [] ∨ outputs ≠ [])
    (hconfigure : configureWithParams prims circuit.params {} = .ok (config, cs))
    (hrun : (withKnown circuit known).synthesize prims order config 0 = .ok ((), es, n)) :
    ∃ column assigned es' m virtuals, config.assembler.publicInstance = some column ∧
      config.assembler.assign prims.floats order program known 0 = .ok (assigned, es', m) ∧ (∀ e ∈ es', e ∈ es) ∧
      config.assembler.hostProgram prims.floats known program = some virtuals ∧
      (∀ A, Satisfies cs es A → ∃ leading, leading.length = 17 ∧
        Publishes es column A (leading ++ leafValues prims compress inputs outputs program.weightValues
          (fun i => tensorValues A assigned.inputs[i]?) fun i => tensorValues A assigned.virtuals[i]?) ∧
        List.Forall₂ (fun reg weight => cellValues A reg = weight.map i64ToFr) assigned.weights program.weightValues) ∧
      (known = true → ∀ (backend : Halo2KzgCpuBackend) (keyDigest : Digest32) (statement : LeafStatement),
        backend.boundaryInputs = some inputs → backend.boundaryOutputs = some outputs →
        backend.leafStatement prims.blake3 compress keyDigest program (executedValues program virtuals (outputs.map Prod.fst)) =
          .ok statement → statement.instancePrefix prims.blake3 = leafPrefix →
        ∀ A, (∀ e ∈ es, Witnessed A e) → Publishes es column A (statement.instances prims.blake3)) := by
  have hleaf := new_leaf hnew
  obtain ⟨column, assigned, es', m, hcolumn, hassign, hsub, hpublishes⟩ :=
    run_publishes hleaf hboundaries hcompress hconfigure hrun
  obtain ⟨virtuals, hhost, hsizes⟩ := sizes_of_run hleaf hboundaries hconfigure hrun
  refine ⟨column, assigned, es', m, virtuals, hcolumn, hassign, hsub, hhost, fun A hA => ?_, ?_⟩
  · obtain ⟨leading, hlength, -, hpublished, hweights⟩ := hpublishes .satisfying _ A (fun h => by cases h) hA.events
    exact ⟨leading, hlength, hpublished, hweights⟩
  · rintro rfl backend keyDigest statement hinputs houtputs hstatement hfields A hA
    obtain ⟨leading, -, hhonest, hpublished, -⟩ := hpublishes .honest (fun _ _ => True) A (fun _ => rfl) hA
    obtain ⟨cs', hinstalled, -, -⟩ := configured_installed hconfigure
    obtain ⟨-, hregisters, -, hvirtuals⟩ := (Assembler.AssemblerConfig.assign_decides hinstalled order program 0).1 _ _ _ hassign
    rw [hhost, Option.some_inj] at hvirtuals
    obtain ⟨-, hadvised, -, hadvisedVirtuals⟩ := assign_advised (G := Reading.Meets cs (fun _ _ => True) A .honest) order program 0
      assigned es' m hassign fun e he => hA e (hsub e he)
    have hinput : ∀ reg ∈ assigned.inputs, cellValues A reg = reg.values.map i64ToFr := by
      intro reg hreg
      obtain ⟨_, -, -, h⟩ := forall₂_exists_of_mem hadvised.flip hreg
      exact cellValues_honest_eq h
    rw [hhonest rfl, ← hfields] at hpublished
    rw [leafStatement_instances hinputs houtputs hsizes hstatement]
    simp only [tensorValues_honest hregisters hinput, tensorValues_honest hvirtuals.symm fun reg hreg =>
      cellValues_honest_eq (hadvisedVirtuals reg hreg)] at hpublished
    exact hpublished

def endpoint (role : BoundaryRole) (registerId : String) (graphOutputNames : List String) : BoundaryDescriptor :=
  ⟨role, registerId, [], graphOutputNames, 1, 262144⟩

def sumInput : BoundaryDescriptor := endpoint .input "graph-input:x" []

def sumOutput : BoundaryDescriptor := endpoint .output "virtual:0" ["y"]

/-- The circuit for the sum of one with itself, with both ends committed. -/
def sumCircuit : AssemblerCircuit where
  params := { AssemblerCircuitParams.fromProgram (doubled (units 1)) [] [] with
    boundaryInputs := [sumInput], boundaryOutputs := [(0, sumOutput)], leafPrefixLen := 17, fixedPublicWeights := [] }
  program := doubled (units 1)
  hasKnownWitnesses := true
  leafPrefix := List.replicate 17 0
  instructions := rfl
  inputShapes := rfl
  weightShapes := rfl

theorem sumCircuit_new : newWithBoundaryCommitments unusedPrimitives.blake3 (doubled (units 1)) [] [sumInput] [(0, sumOutput)]
    (List.replicate 17 0) = .ok sumCircuit := by
  unfold newWithBoundaryCommitments
  rw [if_pos (by decide +kernel)]
  rfl

theorem leaf_publishes_statement_sum : ∃ config cs es n column assigned es' m virtuals,
    (withKnown sumCircuit true).synthesize unusedPrimitives Assembler.AssemblerConfig.insertionOrder config 0 = .ok ((), es, n) ∧
    config.assembler.publicInstance = some column ∧
    config.assembler.assign unusedPrimitives.floats Assembler.AssemblerConfig.insertionOrder (doubled (units 1)) true 0 =
      .ok (assigned, es', m) ∧ (∀ e ∈ es', e ∈ es) ∧
    config.assembler.hostProgram unusedPrimitives.floats true (doubled (units 1)) = some virtuals ∧
    ∀ A, Satisfies cs es A → ∃ leading, leading.length = 17 ∧
      Publishes es column A (leading ++ leafValues unusedPrimitives (permutePair unusedPrimitives.poseidon) [sumInput]
        [(0, sumOutput)] [] (fun i => tensorValues A assigned.inputs[i]?) fun i => tensorValues A assigned.virtuals[i]?) := by
  have hok : (configureWithParams unusedPrimitives sumCircuit.params {}).toOption.isSome := by decide +kernel
  obtain ⟨⟨config, cs⟩, hsome⟩ := Option.isSome_iff_exists.mp hok
  have hconfigure := FixedPoint.toOption_eq_some.mp hsome
  obtain ⟨cs', hinstalled, hpublic, hkeys⟩ := configured_installed hconfigure
  have hnone : Assembler.rmsNormKeys sumCircuit.params.instructions = [] := by decide +kernel
  have hrms : config.assembler.rmsNorm = [] := List.map_eq_nil_iff.mp (hkeys.trans hnone)
  have hevaluates : (withKnown sumCircuit true).Evaluates unusedPrimitives config := by
    refine ⟨fun entry hentry => ?_, [[units 2]], rfl, ?_⟩
    · rw [hrms] at hentry
      cases hentry
    · have hhas : HasBoundaries (withKnown sumCircuit true).params := .inl (List.cons_ne_nil _ _)
      have hvalid : sumInput.validate.isOk ∧ sumOutput.validate.isOk := by decide +kernel
      rw [Fits, if_pos hhas]
      exact ⟨List.forall_mem_singleton.mpr ⟨hvalid.1, rfl⟩, List.forall_mem_singleton.mpr ⟨hvalid.2, rfl⟩⟩
  obtain ⟨⟨_, es, n⟩, hrun⟩ := (synthesize_decides hinstalled hpublic Assembler.AssemblerConfig.insertionOrder 0).2 hevaluates
  obtain ⟨column, assigned, es', m, virtuals, hcolumn, hassign, hsub, hhost, hsatisfying, -⟩ :=
    leaf_publishes_statement unusedPrimitives (permutePair unusedPrimitives.poseidon) _ (doubled (units 1)) [] [sumInput]
      [(0, sumOutput)] (List.replicate 17 0) sumCircuit true config cs es n (fun _ _ => rfl) sumCircuit_new
      (.inl (List.cons_ne_nil _ _)) hconfigure hrun
  refine ⟨config, cs, es, n, column, assigned, es', m, virtuals, hrun, hcolumn, hassign, hsub, hhost, fun A hA => ?_⟩
  obtain ⟨leading, hlength, hpublished, -⟩ := hsatisfying A hA
  exact ⟨leading, hlength, hpublished⟩

end Circuit

end Zkie.Halo2Cpu
