import Zkie.AggregationTree
import Zkie.StatementWire
import Zkie.VerifyProof

namespace Zkie.ClaimMerging

open AggregationDigest AggregationTree Checked
open BuildDag (Dag Edge)
open GraphCompiler (Register)
open PoseidonBoundary (Blake3 BoundaryDescriptor)
open RunDatabase (Digest32)
open ScalarField (Fr)
open Statement (BoundaryClaim LeafStatement leafStatementSchemaVersion)
open VerifyProof (VerifiedProof)
open Zkie.Partition (PartitionPlan)

section Budget

def maxManifestBytes : ℕ := 2 ^ 20

def maxPublicBoundaryDeclarations : ℕ := 2 ^ 12

def maxPublicBoundaryWireBytes : ℕ := maxManifestBytes - 4 * 2 ^ 10

/-- `usize::checked_add` and `checked_mul`, by the exact result. -/
def checked (n : ℕ) : Option ℕ := if n < 2 ^ 64 then some n else none

def identities (descriptor : BoundaryDescriptor) : List String :=
  descriptor.registerId :: (descriptor.edgeIds ++ descriptor.graphOutputNames)

/-- The number of the identities and their bytes. -/
def addIdentity (total : ℕ × ℕ) (identity : String) : Option (ℕ × ℕ) := do
  let count ← checked (total.1 + 1)
  let bytes ← checked (total.2 + identity.utf8ByteSize)
  return (count, bytes)

def publicBoundaryWireUpperBound (descriptor : BoundaryDescriptor) : Option ℕ := do
  let (count, bytes) ← (identities descriptor).foldlM addIdentity (0, 0)
  let separators ← checked (count * 16)
  let bound ← checked (512 + separators)
  let escaped ← checked (bytes * 6)
  checked (bound + escaped)

/-- The number of the boundaries and the sum of their bounds. -/
def addBoundary (total : ℕ × ℕ) (descriptor : BoundaryDescriptor) : Option (ℕ × ℕ) := do
  let count ← checked (total.1 + 1)
  let bound ← publicBoundaryWireUpperBound descriptor
  let bytes ← checked (total.2 + bound)
  return (count, bytes)

def WithinBudget (total : ℕ × ℕ) : Prop :=
  total.1 ≤ maxPublicBoundaryDeclarations ∧ total.2 ≤ maxPublicBoundaryWireBytes

instance (total : ℕ × ℕ) : Decidable (WithinBudget total) := inferInstanceAs (Decidable (_ ∧ _))

def addDeclared (total : ℕ × ℕ) (descriptor : BoundaryDescriptor) : Option (ℕ × ℕ) := do
  let total ← addBoundary total descriptor
  if WithinBudget total then some total else none

end Budget

section Expectations

variable (blake3 : Blake3)

def refuseIf (c : Prop) [Decidable c] (error : AggregationError) : Except AggregationError Unit :=
  if c then .error error else .ok ()

/-- Of two expectations for a shard the later one stays. -/
def byShard (expectations : List LeafExpectation) : Std.ExtTreeMap UInt64 LeafExpectation :=
  expectations.foldl (fun leaves expectation => leaves.insert expectation.shardId expectation) ∅

theorem byShard_mem {expectations : List LeafExpectation} {k : UInt64} {e : LeafExpectation}
    (h : (byShard expectations)[k]? = some e) : e.shardId = k ∧ e ∈ expectations := by
  have hfrom : ∀ leaves : Std.ExtTreeMap UInt64 LeafExpectation,
      (expectations.foldl (fun leaves e => leaves.insert e.shardId e) leaves)[k]? = some e →
        leaves[k]? = some e ∨ e.shardId = k ∧ e ∈ expectations := by
    clear h
    induction expectations with
    | nil => exact fun _ h => .inl h
    | cons expectation rest ih =>
        intro leaves h
        rcases ih _ h with h | ⟨hkey, hmem⟩
        · rw [Std.ExtTreeMap.getElem?_insert] at h
          split_ifs at h with hk
          · cases h
            exact .inr ⟨Std.LawfulEqCmp.eq_of_compare hk, List.mem_cons_self⟩
          · exact .inl h
        · exact .inr ⟨hkey, List.mem_cons_of_mem _ hmem⟩
  rcases hfrom ∅ h with h | h
  · rw [Std.ExtTreeMap.getElem?_empty] at h
    cases h
  · exact h

theorem byShard_keyed (expectations : List LeafExpectation) :
    ∀ entry ∈ (byShard expectations).toList, entry.2.shardId = entry.1 :=
  fun _ hmem => (byShard_mem (Std.ExtTreeMap.mem_toList_iff_getElem?_eq_some.mp hmem)).1

def LeafExpectationSet.new (partition : PartitionPlan) (expectations : List LeafExpectation) :
    Except AggregationError LeafExpectationSet := do
  refuseIf (expectations.length ≠ partition.shards.length ∨ maxLeaves < expectations.length) .invalidLeafExpectations
  refuseIf ((expectations.flatMap fun e => e.publicInputs ++ e.publicOutputs).foldlM addDeclared (0, 0) = none)
    .invalidLeafExpectations
  let leaves := byShard expectations
  refuseIf (leaves.size ≠ partition.shards.length ∨
      ∃ shard ∈ partition.shards, ∀ expected ∈ leaves[UInt64.ofNat shard.id]?, expected.shardName ≠ shard.name)
    .invalidLeafExpectations
  return ⟨partition.digest, leaves, leafExpectationSetDigest blake3 partition.digest leaves, byShard_keyed expectations⟩

/-- The digest of the plan with the expectations in it. -/
def boundDigest (plan : AggregationPlan) (expectations : LeafExpectationSet) : Digest32 :=
  aggregationPlanDigest blake3 plan.partitionDigest plan.fanIn plan.leafCount plan.levels plan.root (some expectations.digest)

def bindLeafExpectations (plan : AggregationPlan) (expectations : LeafExpectationSet) :
    Except AggregationError AggregationPlan := do
  refuseIf (expectations.partitionDigest ≠ plan.partitionDigest ∨ expectations.leaves.size ≠ plan.leafCount)
    .invalidLeafExpectations
  let digest := boundDigest blake3 plan expectations
  return { plan with leafExpectations := some expectations, digest, levels := sealNodes digest plan.levels }

def trustedLeafExpectations (plan : AggregationPlan) (partition : PartitionPlan) :
    Except AggregationError LeafExpectationSet :=
  match plan.leafExpectations with
  | none => .error .invalidLeafExpectations
  | some expectations =>
      if plan.partitionDigest ≠ partition.digest ∨ expectations.partitionDigest ≠ partition.digest ∨
          expectations.leaves.size ≠ partition.shards.length ∨
          leafExpectationSetDigest blake3 expectations.partitionDigest expectations.leaves ≠ expectations.digest ∨
          boundDigest blake3 plan expectations ≠ plan.digest then .error .invalidLeafExpectations
      else .ok expectations

def validatePublicModel (run : RunIdentity) : Except AggregationError Unit :=
  refuseIf (run.modelVisibility ≠ .publicModel) .unsupportedModelVisibility

end Expectations

section Index

/-- The edges under their ids, and those that meet a shard under its place. -/
structure DagIndex where
  edgesById : Std.ExtTreeMap String Edge
  incidentEdges : List (List Edge)

def DagIndex.addEdge (shardCount : ℕ) (index : DagIndex) (edge : Edge) : Except AggregationError DagIndex := do
  let id := String.ofList edge.id
  refuseIf (shardCount ≤ edge.producer ∨ shardCount ≤ edge.consumer ∨ edge.consumer ≤ edge.producer ∨
    id ∈ index.edgesById) .invalidPartition
  return ⟨index.edgesById.insert id edge,
    (index.incidentEdges.modify edge.producer (· ++ [edge])).modify edge.consumer (· ++ [edge])⟩

def DagIndex.new (dag : Dag) (shardCount : ℕ) : Except AggregationError DagIndex := do
  refuseIf (shardCount = 0 ∨ maxLeaves < shardCount ∨ maxEdges < dag.edges.length) .resourceLimit
  dag.edges.foldlM (DagIndex.addEdge shardCount) ⟨∅, List.replicate shardCount []⟩

def DagIndex.incident (index : DagIndex) (shard : ℕ) : List Edge := index.incidentEdges[shard]?.getD []

end Index

section Admission

def registerId : Register → String
  | .graphInput name => s!"graph-input:{name}"
  | .virtual index => s!"virtual:{index}"
  | .weight name => s!"weight:{name}"

def IsPublicGraphInput (descriptor : BoundaryDescriptor) : Prop :=
  descriptor.role = .input ∧ "graph-input:".toList <+: descriptor.registerId.toList ∧ descriptor.edgeIds = [] ∧
    descriptor.graphOutputNames = []

instance (descriptor : BoundaryDescriptor) : Decidable (IsPublicGraphInput descriptor) :=
  inferInstanceAs (Decidable (_ ∧ _))

def bindingOf (claim : BoundaryClaim) : PublicBoundaryBinding := ⟨claim.descriptor, claim.commitment⟩

def DescriptorsMatch (actual : List PublicBoundaryBinding) (expected : List BoundaryDescriptor) : Prop :=
  actual.map (·.descriptor) = expected

instance (actual : List PublicBoundaryBinding) (expected : List BoundaryDescriptor) :
    Decidable (DescriptorsMatch actual expected) := inferInstanceAs (Decidable (_ = _))

/-- The side of an edge that a claim of the given role speaks of. -/
def slot (roleIsOutput : Bool) (entry : EdgeFrontier) : Option Fr := if roleIsOutput then entry.producer else entry.consumer

def fill (roleIsOutput : Bool) (commitment : Fr) (entry : EdgeFrontier) : EdgeFrontier :=
  if roleIsOutput then { entry with producer := some commitment } else { entry with consumer := some commitment }

abbrev Frontier : Type := Std.ExtTreeMap String EdgeFrontier

def IsPublic : Bool → BoundaryDescriptor → Prop
  | true, descriptor => descriptor.graphOutputNames ≠ []
  | false, descriptor => IsPublicGraphInput descriptor

instance : (roleIsOutput : Bool) → (descriptor : BoundaryDescriptor) → Decidable (IsPublic roleIsOutput descriptor)
  | true, descriptor => inferInstanceAs (Decidable (descriptor.graphOutputNames ≠ []))
  | false, descriptor => inferInstanceAs (Decidable (IsPublicGraphInput descriptor))

section Frontier

variable (index : DagIndex) (shardId : UInt64) (roleIsOutput : Bool)

def admitEdge (claim : BoundaryClaim) (frontier : Frontier) (edgeId : String) : Except AggregationError Frontier :=
  match index.edgesById[edgeId]? with
  | none => .error (.extraBoundary edgeId shardId)
  | some edge => do
      refuseIf ((if roleIsOutput then edge.producer else edge.consumer) ≠ shardId.toNat ∨
        claim.descriptor.registerId ≠ registerId edge.register) (.endpointMismatch edgeId shardId)
      let entry := frontier.getD edgeId ⟨none, none⟩
      refuseIf (slot roleIsOutput entry ≠ none) (.extraBoundary edgeId shardId)
      return frontier.insert edgeId (fill roleIsOutput claim.commitment entry)

def admitClaim (frontier : Frontier) (claim : BoundaryClaim) : Except AggregationError Frontier := do
  refuseIf (claim.descriptor.edgeIds = [] ∧ ¬IsPublic roleIsOutput claim.descriptor)
    (.extraBoundary claim.descriptor.registerId shardId)
  claim.descriptor.edgeIds.foldlM (admitEdge index shardId roleIsOutput claim) frontier

/-- An edge that meets the shard has exactly the side of the shard. -/
def checkIncident (frontier : Frontier) (edge : Edge) : Except AggregationError Unit :=
  match frontier[String.ofList edge.id]? with
  | none => .error (.missingBoundary (String.ofList edge.id) shardId)
  | some entry =>
      refuseIf (decide (edge.producer = shardId.toNat) ≠ entry.producer.isSome ∨
        decide (edge.consumer = shardId.toNat) ≠ entry.consumer.isSome) (.endpointMismatch (String.ofList edge.id) shardId)

end Frontier

def publicBindings (roleIsOutput : Bool) (claims : List BoundaryClaim) : List PublicBoundaryBinding :=
  (claims.filter fun claim => IsPublic roleIsOutput claim.descriptor).map bindingOf

variable {blake3 : Blake3}

def leafBinding (proof : VerifiedProof blake3) : LeafBinding :=
  ⟨proof.proof.proofDigest, proof.proof.publicStatementDigest, proof.proof.circuitDigest, proof.proof.verificationKeyDigest⟩

variable (blake3) in
def sealClaim (claim : VerifiedClaim) : VerifiedClaim := { claim with digest := claimDigest blake3 claim }

def admitVerifiedLeafIndexed (plan : AggregationPlan) (partition : PartitionPlan) (run : RunIdentity)
    (proof : VerifiedProof blake3) (expectations : LeafExpectationSet) (index : DagIndex) :
    Except AggregationError VerifiedClaim := do
  validatePublicModel run
  let shardId := proof.proof.shard.id
  match partition.shards[shardId.toNat]?, expectations.leaves[shardId]? with
  | some planned, some expected =>
      refuseIf (plan.partitionDigest ≠ partition.digest ∨ run.partitionPlanDigest ≠ partition.digest ∨
        run.aggregationPlanDigest ≠ plan.digest ∨ run.aggregationFanIn ≠ plan.fanIn.get.toUInt32 ∨
        run.publicInputSchemaVersion ≠ leafStatementSchemaVersion ∨ run.modelGraphDigest ≠ partition.modelDigest ∨
        proof.proof.runIdentityDigest ≠ run.canonicalDigest blake3 ∨ proof.proof.shard.name ≠ planned.name ∨
        planned.id ≠ shardId.toNat ∨ expected.shardId ≠ shardId ∨ expected.shardName ≠ planned.name ∨
        expected.circuitDigest ≠ proof.proof.circuitDigest ∨
        expected.verificationKeyDigest ≠ proof.proof.verificationKeyDigest ∨
        expected.executionBackend ≠ proof.proof.executionBackend ∨ expected.proofFlavor ≠ proof.proof.proofFlavor)
        (.leafIdentityMismatch shardId)
      let statement ← (LeafStatement.decode proof.proof.publicStatement).mapError fun _ => .malformedStatement shardId
      refuseIf (statement.shardId ≠ shardId ∨ statement.shardName ≠ planned.name ∨
        statement.circuitDigest ≠ proof.proof.circuitDigest ∨ statement.partitionDigest ≠ partition.digest ∨
        statement.modelDigest ≠ run.modelGraphDigest ∨ statement.weightsDigest ≠ run.weightsDigest ∨
        statement.proofFlavor ≠ run.proofFlavor ∨ proof.proof.proofFlavor ≠ run.proofFlavor ∨
        statement.verificationKeyDigest ≠ proof.proof.verificationKeyDigest) (.leafIdentityMismatch shardId)
      let publicInputs := publicBindings false statement.inputClaims
      let publicOutputs := publicBindings true statement.outputClaims
      refuseIf (¬DescriptorsMatch publicInputs expected.publicInputs ∨ ¬DescriptorsMatch publicOutputs expected.publicOutputs)
        (.leafIdentityMismatch shardId)
      let frontier ← statement.inputClaims.foldlM (admitClaim index shardId false) ∅
      let frontier ← statement.outputClaims.foldlM (admitClaim index shardId true) frontier
      (index.incident shardId.toNat).forM (checkIncident shardId frontier)
      return sealClaim blake3
        { id := .leaf shardId
          aggregationDigest := plan.digest
          runIdentityDigest := run.canonicalDigest blake3
          partitionDigest := partition.digest
          modelDigest := run.modelGraphDigest
          weightsDigest := run.weightsDigest
          proofFlavor := run.proofFlavor
          coveredShards := Std.ExtTreeSet.ofList [shardId]
          frontier, publicInputs, publicOutputs
          closedEdges := ∅
          leaves := Std.ExtTreeMap.ofList [(shardId, leafBinding proof)]
          digest := ⟨Vector.replicate 32 0⟩ }
  | _, _ => throw (.leafIdentityMismatch shardId)

def admitVerifiedLeaf (plan : AggregationPlan) (partition : PartitionPlan) (run : RunIdentity) (proof : VerifiedProof blake3) :
    Except AggregationError VerifiedClaim := do
  let expectations ← trustedLeafExpectations blake3 plan partition
  let index ← DagIndex.new partition.dag partition.shards.length
  admitVerifiedLeafIndexed plan partition run proof expectations index

end Admission

section Merging

/-- What the children that are merged so far have together. -/
structure Merged where
  covered : Std.ExtTreeSet UInt64
  frontier : Frontier
  closed : Std.ExtTreeSet String
  publicInputs : Std.ExtTreeMap String PublicBoundaryBinding
  publicOutputs : Std.ExtTreeMap String PublicBoundaryBinding
  publicOutputNames : Std.ExtTreeSet String
  leaves : Std.ExtTreeMap UInt64 LeafBinding

def Merged.bindings (merged : Merged) : List PublicBoundaryBinding :=
  merged.publicInputs.values ++ merged.publicOutputs.values

section Child

variable (node : AggregationChildId)

def coverShard (covered : Std.ExtTreeSet UInt64) (shard : UInt64) : Except AggregationError (Std.ExtTreeSet UInt64) := do
  refuseIf (shard ∈ covered) (.overlappingShard (childName node) shard)
  return covered.insert shard

def closeEdge (closed : Std.ExtTreeSet String) (edge : String) : Except AggregationError (Std.ExtTreeSet String) := do
  refuseIf (edge ∈ closed) (.duplicateEdgeClosure (childName node) edge)
  return closed.insert edge

/-- Each side of an edge comes from one child. -/
def joinSide (edge : String) (target incoming : Option Fr) : Except AggregationError (Option Fr) :=
  match incoming with
  | none => .ok target
  | some value => do
      refuseIf (target ≠ none) (.extraBoundary edge 0)
      return some value

def mergeFrontier (frontier : Frontier) (incoming : String × EdgeFrontier) : Except AggregationError Frontier := do
  let entry := frontier.getD incoming.1 ⟨none, none⟩
  let producer ← joinSide incoming.1 entry.producer incoming.2.producer
  let consumer ← joinSide incoming.1 entry.consumer incoming.2.consumer
  return frontier.insert incoming.1 ⟨producer, consumer⟩

def mergePublicInput (target : Std.ExtTreeMap String PublicBoundaryBinding) (binding : PublicBoundaryBinding) :
    Except AggregationError (Std.ExtTreeMap String PublicBoundaryBinding) :=
  let key := binding.descriptor.registerId
  match target[key]? with
  | some existing => do
      refuseIf (existing ≠ binding) (.boundaryCommitmentMismatch (childName node) key)
      return target
  | none => .ok (target.insert key binding)

def mergePublicOutput (target : Std.ExtTreeMap String PublicBoundaryBinding × Std.ExtTreeSet String)
    (binding : PublicBoundaryBinding) :
    Except AggregationError (Std.ExtTreeMap String PublicBoundaryBinding × Std.ExtTreeSet String) :=
  let names := binding.descriptor.graphOutputNames
  match names.find? fun name => name ∈ target.2, names.head? with
  | some name, _ => .error (.duplicateEdgeClosure (childName node) s!"graph-output:{name}")
  | none, none => .error .aggregationIdentityMismatch
  | none, some key => do
      refuseIf (key ∈ target.1) .aggregationIdentityMismatch
      return (target.1.insert key binding, names.foldl (fun claimed name => claimed.insert name) target.2)

def mergeChild (merged : Merged) (child : VerifiedClaim) : Except AggregationError Merged := do
  let covered ← child.coveredShards.toList.foldlM (coverShard node) merged.covered
  let closed ← child.closedEdges.toList.foldlM (closeEdge node) merged.closed
  let frontier ← child.frontier.toList.foldlM mergeFrontier merged.frontier
  let leaves := child.leaves.toList.foldl (fun leaves entry => leaves.insert entry.1 entry.2) merged.leaves
  let publicInputs ← child.publicInputs.foldlM (mergePublicInput node) merged.publicInputs
  let (publicOutputs, publicOutputNames) ←
    child.publicOutputs.foldlM (mergePublicOutput node) (merged.publicOutputs, merged.publicOutputNames)
  let merged : Merged := ⟨covered, frontier, closed, publicInputs, publicOutputs, publicOutputNames, leaves⟩
  match (merged.bindings.map (·.descriptor)).foldlM addBoundary (0, 0) with
  | none => throw .resourceLimit
  | some total =>
      refuseIf (¬WithinBudget total) .resourceLimit
      return merged

/-- An edge between two covered shards is closed, whose sides have to agree. -/
def closeCovered (index : DagIndex) (covered : Std.ExtTreeSet UInt64) (state : Frontier × Std.ExtTreeSet String)
    (edgeId : String) : Except AggregationError (Frontier × Std.ExtTreeSet String) :=
  match index.edgesById[edgeId]? with
  | none => .error (.extraBoundary edgeId 0)
  | some edge =>
      if UInt64.ofNat edge.producer ∈ covered ∧ UInt64.ofNat edge.consumer ∈ covered then
        if edgeId ∈ state.2 then do
          refuseIf (edgeId ∈ state.1) (.duplicateEdgeClosure (childName node) edgeId)
          return state
        else
          match state.1[edgeId]? with
          | none => .error (.missingBoundary edgeId (UInt64.ofNat edge.consumer))
          | some endpoints => do
              refuseIf (endpoints.producer = none ∨ endpoints.consumer = none)
                (.missingBoundary edgeId (UInt64.ofNat edge.consumer))
              refuseIf (endpoints.producer ≠ endpoints.consumer) (.boundaryCommitmentMismatch (childName node) edgeId)
              return (state.1.erase edgeId, state.2.insert edgeId)
      else .ok state

end Child

/-- Whether a child has another origin than the first one. -/
def OtherOrigin (first claim : VerifiedClaim) : Prop :=
  claim.aggregationDigest ≠ first.aggregationDigest ∨ claim.runIdentityDigest ≠ first.runIdentityDigest ∨
    claim.partitionDigest ≠ first.partitionDigest ∨ claim.modelDigest ≠ first.modelDigest ∨
    claim.weightsDigest ≠ first.weightsDigest ∨ claim.proofFlavor ≠ first.proofFlavor

instance (first claim : VerifiedClaim) : Decidable (OtherOrigin first claim) := inferInstanceAs (Decidable (_ ∨ _))

variable (blake3 : Blake3)

def mergeVerifiedClaimsIndexed (index : DagIndex) (node : AggregationNode) (children : List VerifiedClaim) :
    Except AggregationError VerifiedClaim := do
  refuseIf (children.map (·.id) ≠ node.children) (.childOrderMismatch (childName node.id))
  match children with
  | [] => throw (.childOrderMismatch (childName node.id))
  | first :: _ =>
      refuseIf (first.aggregationDigest ≠ node.planDigest ∨ ∃ claim ∈ children, OtherOrigin first claim)
        .aggregationIdentityMismatch
      let merged ← children.foldlM (mergeChild node.id) ⟨∅, ∅, ∅, ∅, ∅, ∅, ∅⟩
      let (frontier, closed) ←
        merged.frontier.keys.foldlM (closeCovered node.id index merged.covered) (merged.frontier, merged.closed)
      return sealClaim blake3
        { id := node.id
          aggregationDigest := first.aggregationDigest
          runIdentityDigest := first.runIdentityDigest
          partitionDigest := first.partitionDigest
          modelDigest := first.modelDigest
          weightsDigest := first.weightsDigest
          proofFlavor := first.proofFlavor
          coveredShards := merged.covered
          frontier
          closedEdges := closed
          publicInputs := merged.publicInputs.values
          publicOutputs := merged.publicOutputs.values
          leaves := merged.leaves
          digest := ⟨Vector.replicate 32 0⟩ }

def mergeVerifiedClaims (node : AggregationNode) (children : List VerifiedClaim) (dag : Dag) :
    Except AggregationError VerifiedClaim := do
  let index ← DagIndex.new dag dag.shards.length
  mergeVerifiedClaimsIndexed blake3 index node children

end Merging

section Bounds

theorem refuseIf_ok {c : Prop} [Decidable c] {error : AggregationError} : refuseIf c error = .ok () ↔ ¬c := by
  by_cases h : c <;> simp [refuseIf, h]

theorem checked_eq_some {n m : ℕ} : checked n = some m ↔ n < 2 ^ 64 ∧ m = n := by
  by_cases h : n < 2 ^ 64 <;> simp [checked, eq_comm]

theorem addIdentity_eq_some {total total' : ℕ × ℕ} {identity : String} (h : addIdentity total identity = some total') :
    total' = (total.1 + 1, total.2 + identity.utf8ByteSize) := by
  simp only [addIdentity, bind, Option.bind_eq_some_iff, checked_eq_some, pure, Option.some.injEq] at h
  obtain ⟨_, ⟨-, rfl⟩, _, ⟨-, rfl⟩, rfl⟩ := h
  rfl

theorem foldlM_addIdentity {texts : List String} {total total' : ℕ × ℕ} (h : texts.foldlM addIdentity total = some total') :
    total' = (total.1 + texts.length, total.2 + (texts.map (·.utf8ByteSize)).sum) := by
  induction texts generalizing total with
  | nil => cases h; rfl
  | cons text texts ih =>
      rw [List.foldlM_cons, Option.bind_eq_bind, Option.bind_eq_some_iff] at h
      obtain ⟨next, hnext, hrest⟩ := h
      rw [ih hrest, addIdentity_eq_some hnext, List.length_cons, List.map_cons, List.sum_cons]
      ext <;> omega

/-- The bytes of the identities of a boundary. -/
def identityBytes (descriptor : BoundaryDescriptor) : ℕ := ((identities descriptor).map (·.utf8ByteSize)).sum

theorem upperBound_eq {descriptor : BoundaryDescriptor} {bound : ℕ}
    (h : publicBoundaryWireUpperBound descriptor = some bound) :
    bound = 512 + 16 * (identities descriptor).length + 6 * identityBytes descriptor := by
  simp only [publicBoundaryWireUpperBound, bind, Option.bind_eq_some_iff, checked_eq_some] at h
  obtain ⟨total, htotal, _, ⟨-, rfl⟩, _, ⟨-, rfl⟩, _, ⟨-, rfl⟩, -, rfl⟩ := h
  rw [foldlM_addIdentity htotal, identityBytes]
  simp only [Nat.zero_add]
  omega

/-- The bound of a boundary, when it can be computed. -/
def boundOf (descriptor : BoundaryDescriptor) : ℕ := (publicBoundaryWireUpperBound descriptor).getD 0

/-- All boundaries have bounds, which stay within the bytes that the boundaries of a manifest may take. -/
structure Budgeted (descriptors : List BoundaryDescriptor) : Prop where
  bounded : ∀ descriptor ∈ descriptors, publicBoundaryWireUpperBound descriptor = some (boundOf descriptor)
  total : (descriptors.map boundOf).sum ≤ maxPublicBoundaryWireBytes

theorem Budgeted.sublist {ds ds' : List BoundaryDescriptor} (h : Budgeted ds) (hsub : ds'.Sublist ds) : Budgeted ds' := by
  constructor
  · exact fun d hd => h.bounded d (hsub.subset hd)
  · exact Nat.le_trans (List.Sublist.sum_le_sum (hsub.map boundOf) fun n _ => Nat.zero_le n) h.total

theorem addBoundary_eq_some {total total' : ℕ × ℕ} {d : BoundaryDescriptor} (h : addBoundary total d = some total') :
    publicBoundaryWireUpperBound d = some (boundOf d) ∧ total'.2 = total.2 + boundOf d := by
  simp only [addBoundary, bind, Option.bind_eq_some_iff, checked_eq_some, pure, Option.some.injEq] at h
  obtain ⟨_, -, bound, hbound, _, ⟨-, rfl⟩, rfl⟩ := h
  rw [boundOf, hbound]
  exact ⟨rfl, rfl⟩

theorem addDeclared_eq_some {total total' : ℕ × ℕ} {d : BoundaryDescriptor} (h : addDeclared total d = some total') :
    addBoundary total d = some total' ∧ WithinBudget total' := by
  simp only [addDeclared, bind, Option.bind_eq_some_iff] at h
  obtain ⟨next, hnext, h⟩ := h
  split_ifs at h with hwithin
  cases h
  exact ⟨hnext, hwithin⟩

/-- A fold that adds the bounds of the boundaries has all of them in its sum. -/
theorem foldlM_bounds {f : ℕ × ℕ → BoundaryDescriptor → Option (ℕ × ℕ)}
    (hf : ∀ t d t', f t d = some t' → addBoundary t d = some t') {ds : List BoundaryDescriptor} {total total' : ℕ × ℕ}
    (h : ds.foldlM f total = some total') :
    (∀ d ∈ ds, publicBoundaryWireUpperBound d = some (boundOf d)) ∧ total'.2 = total.2 + (ds.map boundOf).sum := by
  induction ds generalizing total with
  | nil =>
      cases h
      exact ⟨List.forall_mem_nil _, rfl⟩
  | cons d ds ih =>
      rw [List.foldlM_cons, Option.bind_eq_bind, Option.bind_eq_some_iff] at h
      obtain ⟨next, hnext, hrest⟩ := h
      obtain ⟨hbound, hsum⟩ := addBoundary_eq_some (hf _ _ _ hnext)
      obtain ⟨hbounds, htotal⟩ := ih hrest
      refine ⟨List.forall_mem_cons.mpr ⟨hbound, hbounds⟩, ?_⟩
      rw [htotal, hsum, List.map_cons, List.sum_cons, Nat.add_assoc]

theorem foldlM_addDeclared_within {ds : List BoundaryDescriptor} {total total' : ℕ × ℕ} (hwithin : WithinBudget total)
    (h : ds.foldlM addDeclared total = some total') : WithinBudget total' := by
  induction ds generalizing total with
  | nil =>
      cases h
      exact hwithin
  | cons d ds ih =>
      rw [List.foldlM_cons, Option.bind_eq_bind, Option.bind_eq_some_iff] at h
      obtain ⟨next, hnext, hrest⟩ := h
      exact ih (addDeclared_eq_some hnext).2 hrest

theorem budgeted_of_addBoundary {ds : List BoundaryDescriptor} {total : ℕ × ℕ} (h : ds.foldlM addBoundary (0, 0) = some total)
    (hwithin : WithinBudget total) : Budgeted ds := by
  obtain ⟨hbounds, hsum⟩ := foldlM_bounds (fun _ _ _ h => h) h
  rw [Nat.zero_add] at hsum
  exact ⟨hbounds, hsum ▸ hwithin.2⟩

theorem budgeted_of_addDeclared {ds : List BoundaryDescriptor} {total : ℕ × ℕ}
    (h : ds.foldlM addDeclared (0, 0) = some total) : Budgeted ds := by
  obtain ⟨hbounds, hsum⟩ := foldlM_bounds (fun _ _ _ h => (addDeclared_eq_some h).1) h
  have hwithin := foldlM_addDeclared_within (by decide) h
  rw [Nat.zero_add] at hsum
  exact ⟨hbounds, hsum ▸ hwithin.2⟩

end Bounds

section Claims

variable {blake3 : Blake3} {partition : PartitionPlan} {set : LeafExpectationSet} {claim : VerifiedClaim}

theorem new_budgeted {expectations : List LeafExpectation} (h : LeafExpectationSet.new blake3 partition expectations = .ok set)
    {k : UInt64} {e : LeafExpectation} (hget : set.leaves[k]? = some e) : Budgeted (e.publicInputs ++ e.publicOutputs) := by
  obtain ⟨_, -, h⟩ := bind_eq_ok.mp h
  obtain ⟨_, hbudget, h⟩ := bind_eq_ok.mp h
  obtain ⟨_, -, h⟩ := bind_eq_ok.mp h
  cases h
  obtain ⟨total, htotal⟩ := Option.ne_none_iff_exists'.mp (refuseIf_ok.mp hbudget)
  apply (budgeted_of_addDeclared htotal).sublist
  rw [List.flatMap_def]
  exact List.sublist_flatten_of_mem (List.mem_map_of_mem (byShard_mem hget).2)

/-- The boundaries of a claim in the order in which a manifest has them. -/
def descriptors (claim : VerifiedClaim) : List BoundaryDescriptor :=
  (claim.publicInputs ++ claim.publicOutputs).map (·.descriptor)

theorem admit_budgeted {plan : AggregationPlan} {run : RunIdentity} {proof : VerifiedProof blake3} {index : DagIndex}
    (hset : ∀ (k : UInt64) e, set.leaves[k]? = some e → Budgeted (e.publicInputs ++ e.publicOutputs))
    (h : admitVerifiedLeafIndexed plan partition run proof set index = .ok claim) : Budgeted (descriptors claim) := by
  obtain ⟨_, -, h⟩ := bind_eq_ok.mp h
  dsimp only at h
  split at h
  case h_2 => cases h
  next planned expected hplanned hexpected =>
  obtain ⟨_, -, h⟩ := bind_eq_ok.mp h
  obtain ⟨statement, -, h⟩ := bind_eq_ok.mp h
  obtain ⟨_, -, h⟩ := bind_eq_ok.mp h
  obtain ⟨_, hmatch, h⟩ := bind_eq_ok.mp h
  obtain ⟨_, -, h⟩ := bind_eq_ok.mp h
  obtain ⟨frontier, -, h⟩ := bind_eq_ok.mp h
  obtain ⟨_, -, h⟩ := bind_eq_ok.mp h
  cases h
  rw [refuseIf_ok, not_or, not_not, not_not] at hmatch
  obtain ⟨hinputs, houtputs⟩ := hmatch
  have hexpected := hset _ _ hexpected
  rw [← hinputs, ← houtputs, ← List.map_append] at hexpected
  exact hexpected

theorem mergeChild_budgeted {node : AggregationChildId} {merged merged' : Merged} {child : VerifiedClaim}
    (h : mergeChild node merged child = .ok merged') : Budgeted (merged'.bindings.map (·.descriptor)) := by
  obtain ⟨covered, -, h⟩ := bind_eq_ok.mp h
  obtain ⟨closed, -, h⟩ := bind_eq_ok.mp h
  obtain ⟨frontier, -, h⟩ := bind_eq_ok.mp h
  obtain ⟨publicInputs, -, h⟩ := bind_eq_ok.mp h
  obtain ⟨⟨publicOutputs, publicOutputNames⟩, -, h⟩ := bind_eq_ok.mp h
  dsimp only at h
  split at h
  · cases h
  · next total htotal =>
    obtain ⟨_, hwithin, h⟩ := bind_eq_ok.mp h
    cases h
    exact budgeted_of_addBoundary htotal (not_not.mp (refuseIf_ok.mp hwithin))

theorem merge_budgeted {index : DagIndex} {node : AggregationNode} {children : List VerifiedClaim}
    (h : mergeVerifiedClaimsIndexed blake3 index node children = .ok claim) : Budgeted (descriptors claim) := by
  obtain ⟨_, -, h⟩ := bind_eq_ok.mp h
  cases children with
  | nil => cases h
  | cons first rest =>
      obtain ⟨_, -, h⟩ := bind_eq_ok.mp h
      obtain ⟨merged, hmerged, h⟩ := bind_eq_ok.mp h
      obtain ⟨closed, -, h⟩ := bind_eq_ok.mp h
      cases h
      obtain ⟨before, last, hlast⟩ := foldlM_last hmerged
      exact mergeChild_budgeted hlast

variable (blake3) in
/-- The claims that are merged of leaves which were admitted under a set of expectations. -/
inductive Admitted (set : LeafExpectationSet) : VerifiedClaim → Prop
  | leaf {plan : AggregationPlan} {partition : PartitionPlan} {run : RunIdentity} {proof : VerifiedProof blake3}
      {index : DagIndex} {claim : VerifiedClaim}
      (h : admitVerifiedLeafIndexed plan partition run proof set index = .ok claim) : Admitted set claim
  | merge {index : DagIndex} {node : AggregationNode} {children : List VerifiedClaim} {claim : VerifiedClaim}
      (hchildren : ∀ child ∈ children, Admitted set child)
      (h : mergeVerifiedClaimsIndexed blake3 index node children = .ok claim) : Admitted set claim

theorem Admitted.budgeted {expectations : List LeafExpectation}
    (hset : LeafExpectationSet.new blake3 partition expectations = .ok set) (h : Admitted blake3 set claim) :
    Budgeted (descriptors claim) := by
  cases h with
  | leaf h => exact admit_budgeted (fun _ _ => new_budgeted hset) h
  | merge _ h => exact merge_budgeted h

end Claims

end Zkie.ClaimMerging
