import Zkie.Halo2Cpu
import Zkie.LeafClaims
import Zkie.ShardedRun

namespace Zkie.LeafOpening

open Checked
open ClaimMerging (registerId)
open FixedPoint (I18)
open GraphCompiler (CompiledProgram Register)
open Isa (Instruction)
open PlanDigest (BoundaryLayout)
open PoseidonBoundary
open RunDatabase (Digest32)
open Satisfaction
open ScalarField (Fr)
open ShardBinding hiding BoundaryDescriptor
open ShardedRun
open Statement (BoundaryClaim LeafStatement flatI18 flatI18_ok)
open WitnessExecution (BackendError HostFloats Values)
open Zkie.Partition (PartitionPlan)

section Model

def i18Scale : UInt64 := 1000000000000000000

def coreRegisterId : Register → Except BackendError String
  | .graphInput name => .ok s!"graph-input:{name}"
  | .virtual index => .ok s!"virtual:{index}"
  | .weight _ => .error (.invalidJob "weights cannot be shard boundary descriptors")

/-- The descriptor of a boundary for its commitment. -/
def coreBoundaryDescriptor (descriptor : ShardBinding.BoundaryDescriptor) (role : BoundaryRole) : Except BackendError BoundaryDescriptor := do
  let registerId ← coreRegisterId descriptor.register
  (flatI18 role registerId (descriptor.edgeIds.map String.ofList) descriptor.graphOutputNames (UInt64.ofNat descriptor.elementCount)
    i18Scale).mapError fun error => .invalidJob (Halo2Cpu.commitmentText error)

/-- The descriptor of a register that a shard puts out. -/
def outputDescriptor (program : CompiledProgram) (plan : PartitionPlan) (shardId : ℕ) (register : Register) (count : ℕ) :
    ShardBinding.BoundaryDescriptor :=
  { descriptor plan.dag shardId register count true with
    graphOutputNames := ((program.graphOutputs.filter fun output => output.2 = register).map Prod.fst).insertionSort (· ≤ ·) }

variable (blake3 : Blake3) (compress : Fr → Fr → Fr)

/-- The claim is a commitment to the tensor of a boundary. -/
structure ClaimOf (role : BoundaryRole) (descriptor : ShardBinding.BoundaryDescriptor) (tensor : List I18) (claim : BoundaryClaim) :
    Prop where
  descriptor : coreBoundaryDescriptor descriptor role = .ok claim.descriptor
  commitment : commitBoundaryNative blake3 compress claim.descriptor tensor = .ok claim.commitment

variable (floats : HostFloats) (program : CompiledProgram) (plan : PartitionPlan) (modelDigest : Digest32) (layout : BoundaryLayout)
  (interpret : Instruction → List (List I18) → Option (List I18))

/-- What a leaf was made of: its shard bound to some values, the results of that program, and commitments to both. -/
structure Opened (shardId : ℕ) (statement : LeafStatement) (leaf : ShardRun) : Prop where
  bound : ∃ graphInputs incoming,
    bindShardProgram floats blake3 program plan shardId modelDigest layout graphInputs incoming = .ok leaf.bound
  evaluated : evaluateAssembler interpret leaf.bound.assemblerProgram = some leaf.virtuals
  inputs : List.Forall₂ (fun entry claim => ClaimOf blake3 compress .input entry.1 entry.2 claim)
    (leaf.bound.inputBoundaries.zip leaf.bound.assemblerProgram.inputValues) statement.inputClaims
  outputs : List.Forall₂ (fun descriptor claim => ∃ global tensor, descriptor.register = .virtual global ∧
    leaf.valueOf global = some tensor ∧ ClaimOf blake3 compress .output descriptor tensor claim)
    leaf.bound.outputBoundaries statement.outputClaims

/-- A claim with the tensor that it is opened to. -/
inductive Opening (statement : LeafStatement) (leaf : ShardRun) : BoundaryClaim → List I18 → Prop
  | input {claim tensor} : (claim, tensor) ∈ statement.inputClaims.zip leaf.bound.assemblerProgram.inputValues →
      Opening statement leaf claim tensor
  | output {claim tensor global} {descriptor : ShardBinding.BoundaryDescriptor} :
      (descriptor, claim) ∈ leaf.bound.outputBoundaries.zip statement.outputClaims → descriptor.register = .virtual global →
        leaf.valueOf global = some tensor → Opening statement leaf claim tensor

end Model

section Descriptors

variable {blake3 : Blake3} {compress : Fr → Fr → Fr} {descriptor : ShardBinding.BoundaryDescriptor} {role : BoundaryRole}
  {core : BoundaryDescriptor} {dag : BuildDag.Dag} {shardId count : ℕ} {register : Register} {side : Bool} {tensor : List I18}
  {claim claim' : BoundaryClaim}

theorem coreBoundaryDescriptor_ok (h : coreBoundaryDescriptor descriptor role = .ok core) :
    core = ⟨role, registerId descriptor.register, descriptor.edgeIds.map String.ofList, descriptor.graphOutputNames,
      UInt64.ofNat descriptor.elementCount, i18Scale⟩ := by
  obtain ⟨id, hid, h⟩ := bind_eq_ok.mp h
  obtain ⟨hcore, -⟩ := flatI18_ok.mp (FixedPoint.mapError_eq_ok.mp h)
  have hregister : id = registerId descriptor.register := by
    cases hr : descriptor.register with
    | graphInput name | virtual index =>
        rw [hr] at hid
        exact (Except.ok.inj hid).symm
    | weight name =>
        rw [hr] at hid
        cases hid
  rw [hcore, hregister]

theorem mem_edgeIds {id : LineText.Text} : id ∈ (ShardBinding.descriptor dag shardId register count side).edgeIds ↔
    ∃ edge ∈ dag.edges, edge.register = register ∧ (if side then edge.producer else edge.consumer) = shardId ∧ edge.id = id := by
  rw [ShardBinding.descriptor, (List.perm_insertionSort _ _).mem_iff, List.mem_map]
  simp only [List.mem_filter, decide_eq_true_eq, and_assoc]

/-- A claim is determined by what it is a commitment to. -/
theorem ClaimOf.unique (h : ClaimOf blake3 compress role descriptor tensor claim) (h' : ClaimOf blake3 compress role descriptor tensor claim') :
    claim = claim' := by
  have hdescriptor := Except.ok.inj (h.descriptor.symm.trans h'.descriptor)
  have hcommitment := h.commitment
  rw [hdescriptor, h'.commitment] at hcommitment
  cases claim
  cases claim'
  cases hdescriptor
  cases hcommitment
  rfl

theorem ClaimOf.registerId (h : ClaimOf blake3 compress role descriptor tensor claim) :
    claim.descriptor.registerId = ClaimMerging.registerId descriptor.register := by
  rw [coreBoundaryDescriptor_ok h.descriptor]

theorem ClaimOf.edgeIds (h : ClaimOf blake3 compress role descriptor tensor claim) :
    claim.descriptor.edgeIds = descriptor.edgeIds.map String.ofList := by
  rw [coreBoundaryDescriptor_ok h.descriptor]

theorem ClaimOf.graphOutputNames (h : ClaimOf blake3 compress role descriptor tensor claim) :
    claim.descriptor.graphOutputNames = descriptor.graphOutputNames := by
  rw [coreBoundaryDescriptor_ok h.descriptor]

/-- Only the count modulo `2 ^ 64` is in a claim, and that is the length of the tensor. -/
theorem ClaimOf.length (h : ClaimOf blake3 compress role descriptor tensor claim) :
    ClaimOf blake3 compress role { descriptor with elementCount := tensor.length } tensor claim := by
  obtain ⟨hlength, -⟩ := commitBoundaryNative_ok h.commitment
  rw [coreBoundaryDescriptor_ok h.descriptor] at hlength
  refine ⟨?_, h.commitment⟩
  have hcount : UInt64.ofNat tensor.length = UInt64.ofNat descriptor.elementCount := by
    rw [hlength, UInt64.ofNat_toNat]
  have hsame := h.descriptor
  rw [coreBoundaryDescriptor] at hsame ⊢
  rwa [hcount]

theorem graphInput_public (name : String) : "graph-input:".toList <+: (registerId (.graphInput name)).toList := by
  refine ⟨name.toList, ?_⟩
  rw [← String.toList_append]
  rfl

theorem virtual_not_public (p : ℕ) : ¬"graph-input:".toList <+: (registerId (.virtual p)).toList := by
  rintro ⟨rest, hrest⟩
  have hsplit : (registerId (.virtual p)).toList = "virtual:".toList ++ (toString p).toList := String.toList_append
  rw [hsplit] at hrest
  cases hrest

end Descriptors

section Pairs

variable {α β γ : Type}

/-- Related elements stand at the same place. -/
theorem forall₂_mem_zip {R : α → β → Prop} {xs : List α} {ys : List β} (h : List.Forall₂ R xs ys) :
    List.Forall₂ (fun x y => R x y ∧ (x, y) ∈ xs.zip ys) xs ys := by
  induction h with
  | nil => exact .nil
  | @cons x y xs ys hr _ ih =>
      rw [List.zip_cons_cons]
      exact .cons ⟨hr, .head _⟩ (ih.imp fun _ _ hxy => ⟨hxy.1, .tail _ hxy.2⟩)

/-- A relation with the pairs of two lists, which come from one list. -/
theorem forall₂_of_unzip {R : α × β → γ → Prop} {pairs : List (β × α)} {zs : List γ}
    (h : List.Forall₂ R ((pairs.map Prod.snd).zip (pairs.map Prod.fst)) zs) :
    List.Forall₂ (fun pair z => R (pair.2, pair.1) z ∧ (z, pair.1) ∈ zs.zip (pairs.map Prod.fst)) pairs zs := by
  induction pairs generalizing zs with
  | nil =>
      cases h
      exact .nil
  | cons pair pairs ih =>
      cases h with
      | cons hr hrs =>
          rw [List.map_cons, List.zip_cons_cons]
          exact .cons ⟨hr, .head _⟩ ((ih hrs).imp fun _ _ hxy => ⟨hxy.1, .tail _ hxy.2⟩)

end Pairs

section Claims

variable {blake3 : Blake3} {compress : Fr → Fr → Fr} {floats : HostFloats} {program : CompiledProgram} {plan : PartitionPlan}
  {modelDigest : Digest32} {layout : BoundaryLayout} {interpret : Instruction → List (List I18) → Option (List I18)} {shardId : ℕ}
  {statement : LeafStatement} {leaf : ShardRun} {graphInputs : Values String} {incoming : Values Register} {parts : Parts}

theorem Opened.binds (h : Opened blake3 compress floats program plan modelDigest layout interpret shardId statement leaf) :
    ∃ graphInputs incoming parts, Binds floats blake3 program plan shardId modelDigest layout graphInputs incoming parts ∧
      leaf = ⟨parts.bound plan, leaf.virtuals⟩ := by
  obtain ⟨graphInputs, incoming, hbound⟩ := h.bound
  obtain ⟨parts, hbinds, hparts⟩ := bindShardProgram_ok.mp hbound
  exact ⟨graphInputs, incoming, parts, hbinds, by rw [hparts]⟩

/-- Each register that the shard takes from outside has a claim about the value that the shard was given. -/
theorem Opened.inputClaims {virtuals : List (List I18)}
    (h : Opened blake3 compress floats program plan modelDigest layout interpret shardId statement ⟨parts.bound plan, virtuals⟩)
    (hbinds : Binds floats blake3 program plan shardId modelDigest layout graphInputs incoming parts) :
    List.Forall₂ (fun register claim => ∃ tensor, externalValues graphInputs incoming register = .ok tensor ∧
      ClaimOf blake3 compress .input (descriptor plan.dag shardId register tensor.length false) tensor claim ∧
        Opening statement ⟨parts.bound plan, virtuals⟩ claim tensor) parts.external statement.inputClaims := by
  apply forall₂_trans _ (mapM_eq_ok.mp hbinds.inputs) (forall₂_of_unzip h.inputs)
  rintro register entry claim hbind ⟨hclaim, hopening⟩
  obtain ⟨spec, -, hvalues, hlength, hdescriptor⟩ := bindInput_ok.mp hbind
  rw [hdescriptor, ← hlength] at hclaim
  exact ⟨entry.1, hvalues, hclaim, .input hopening⟩

/-- Each register that the shard puts out has a claim about its value. -/
theorem Opened.outputClaims {virtuals : List (List I18)}
    (h : Opened blake3 compress floats program plan modelDigest layout interpret shardId statement ⟨parts.bound plan, virtuals⟩)
    (hbinds : Binds floats blake3 program plan shardId modelDigest layout graphInputs incoming parts) :
    List.Forall₂ (fun register claim => ∃ global tensor count, register = .virtual global ∧
      ShardRun.valueOf ⟨parts.bound plan, virtuals⟩ global = some tensor ∧
        ClaimOf blake3 compress .output (outputDescriptor program plan shardId register count) tensor claim ∧ Opening statement ⟨parts.bound plan, virtuals⟩ claim tensor)
      (outputRegisters program parts.planned.range parts.dagShard) statement.outputClaims := by
  apply forall₂_trans _ (mapM_eq_ok.mp hbinds.outputs) (forall₂_mem_zip h.outputs)
  rintro register d claim hbind ⟨⟨global, tensor, hregister, hvalue, hclaim⟩, hmem⟩
  obtain ⟨spec, -, hd⟩ := bind_eq_ok.mp hbind
  cases hd
  exact ⟨global, tensor, spec.elementCount, hregister, hvalue, hclaim, .output hmem hregister hvalue⟩

/-- A shard that is bound to some graph inputs is bound to all that have the values which it reads. -/
theorem binds_graphInputs {graphInputs' : Values String}
    (h : Binds floats blake3 program plan shardId modelDigest layout graphInputs incoming parts)
    (hsame : ∀ name tensor, .graphInput name ∈ parts.external → graphInputs[name]? = some tensor → graphInputs'[name]? = some tensor) :
    Binds floats blake3 program plan shardId modelDigest layout graphInputs' incoming parts := by
  refine { h with inputs := ?_ }
  refine mapM_eq_ok.mpr ?_
  have hall := (List.forall₂_and_left parts.external parts.inputs).mpr ⟨fun r (hr : r ∈ parts.external) => hr, mapM_eq_ok.mp h.inputs⟩
  refine hall.imp ?_
  rintro register entry ⟨hmem, hbind⟩
  obtain ⟨spec, hspec, hvalues, hlength, hdescriptor⟩ := bindInput_ok.mp hbind
  refine bindInput_ok.mpr ⟨spec, hspec, externalValues_ok.mpr ?_, hlength, hdescriptor⟩
  rcases externalValues_ok.mp hvalues with ⟨name, rfl, hname⟩ | hvirtual
  · exact .inl ⟨name, rfl, hsame name _ hmem hname⟩
  · exact .inr hvirtual

end Claims

end Zkie.LeafOpening
