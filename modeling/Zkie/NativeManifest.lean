import Zkie.ClaimMerging
import Zkie.JsonText

namespace Zkie.NativeManifest

open AggregationDigest AggregationTree Checked ClaimMerging JsonText
open PoseidonBoundary (Blake3 BoundaryDescriptor roleByte utf8)
open RunDatabase (Digest32)
open ScalarField (Fr)
open Statement (BoundaryClaim LeafStatement ProofFlavorId toRepr)
open VerifyProof (UnverifiedProof VerifiedProof cpu flatDigest flatHash kzg sampleShard validBytes)
open Zkie.Partition (PartitionPlan)

section Wire

theorem toRepr_size (value : Fr) : (toRepr value).toArray.size = 32 := LittleEndian.toBytes_length 32 value.val

def fieldEncoding (value : Fr) : Digest32 := ⟨⟨(toRepr value).toArray, toRepr_size value⟩⟩

/-- The second field is the type of the elements, of which there is one. -/
def boundaryWire (binding : PublicBoundaryBinding) : PublicBoundaryWire where
  role := roleByte binding.descriptor.role
  dtype := 1
  registerId := binding.descriptor.registerId
  edgeIds := binding.descriptor.edgeIds
  graphOutputNames := binding.descriptor.graphOutputNames
  elementCount := binding.descriptor.elementCount
  quantizationScale := binding.descriptor.quantizationScale
  commitment := fieldEncoding binding.commitment

@[ext]
structure ManifestWire where
  schemaVersion : UInt32
  kind : FinalArtifactKind
  aggregationDigest : Digest32
  partitionDigest : Digest32
  rootClaimDigest : Digest32
  leafCount : UInt64
  modelDigest : Digest32
  weightsDigest : Digest32
  proofFlavor : ProofFlavorId
  publicInputs : List PublicBoundaryWire
  publicOutputs : List PublicBoundaryWire
  manifestDigest : Digest32
  deriving DecidableEq

def manifestWire (manifest : VerifiedManifest) : ManifestWire where
  schemaVersion := 2
  kind := manifest.kind
  aggregationDigest := manifest.aggregationDigest
  partitionDigest := manifest.partitionDigest
  rootClaimDigest := manifest.rootClaimDigest
  leafCount := UInt64.ofNat manifest.leafCount
  modelDigest := manifest.modelDigest
  weightsDigest := manifest.weightsDigest
  proofFlavor := manifest.proofFlavor
  publicInputs := manifest.publicInputs
  publicOutputs := manifest.publicOutputs
  manifestDigest := manifest.manifestDigest

end Wire

section Json

def textJson (value : String) : List UInt8 := string (utf8 value)

def digestJson (digest : Digest32) : List UInt8 := array (digest.bytes.toList.map fun b => number b.toNat)

def boundaryFields (boundary : PublicBoundaryWire) : List (List UInt8 × List UInt8) :=
  [(utf8 "role", number boundary.role.toNat),
    (utf8 "dtype", number boundary.dtype.toNat),
    (utf8 "register_id", textJson boundary.registerId),
    (utf8 "edge_ids", array (boundary.edgeIds.map textJson)),
    (utf8 "graph_output_names", array (boundary.graphOutputNames.map textJson)),
    (utf8 "element_count", number boundary.elementCount.toNat),
    (utf8 "quantization_scale", number boundary.quantizationScale.toNat),
    (utf8 "commitment", digestJson boundary.commitment)]

def boundaryJson (boundary : PublicBoundaryWire) : List UInt8 := object (boundaryFields boundary)

def kindJson : FinalArtifactKind → List UInt8
  | .nativeVerifiedManifest => textJson "NativeVerifiedManifest"
  | .recursiveRootProof => textJson "RecursiveRootProof"

def manifestFields (wire : ManifestWire) : List (List UInt8 × List UInt8) :=
  [(utf8 "schema_version", number wire.schemaVersion.toNat),
    (utf8 "kind", kindJson wire.kind),
    (utf8 "aggregation_digest", digestJson wire.aggregationDigest),
    (utf8 "partition_digest", digestJson wire.partitionDigest),
    (utf8 "root_claim_digest", digestJson wire.rootClaimDigest),
    (utf8 "leaf_count", number wire.leafCount.toNat),
    (utf8 "model_digest", digestJson wire.modelDigest),
    (utf8 "weights_digest", digestJson wire.weightsDigest),
    (utf8 "proof_flavor", textJson wire.proofFlavor.text),
    (utf8 "public_inputs", array (wire.publicInputs.map boundaryJson)),
    (utf8 "public_outputs", array (wire.publicOutputs.map boundaryJson)),
    (utf8 "manifest_digest", digestJson wire.manifestDigest)]

def manifestJson (wire : ManifestWire) : List UInt8 := object (manifestFields wire)

/-- The library that writes and reads the JSON text of a manifest. -/
structure SerdeJson where
  toVec : ManifestWire → Option (List UInt8)
  fromSlice : List UInt8 → Option ManifestWire

/-- The writer puts the fields in their order, without blanks and with no more escapes than needed. -/
def SerdeJson.Compact (serde : SerdeJson) : Prop := ∀ wire, serde.toVec wire = some (manifestJson wire)

end Json

section Manifest

variable (serde : SerdeJson)

def encode (manifest : VerifiedManifest) : Except AggregationError (List UInt8) :=
  match serde.toVec (manifestWire manifest) with
  | none => .error .malformedManifest
  | some bytes => do
      refuseIf (maxManifestBytes < bytes.length) .resourceLimit
      return bytes

variable (blake3 : Blake3)

def sealManifest (manifest : VerifiedManifest) : VerifiedManifest :=
  { manifest with manifestDigest := manifestDigest blake3 manifest }

/-- The manifest of a root claim. -/
def rootManifest (plan : AggregationPlan) (partition : PartitionPlan) (root : VerifiedClaim) : VerifiedManifest :=
  sealManifest blake3
    { kind := .nativeVerifiedManifest
      aggregationDigest := plan.digest
      partitionDigest := partition.digest
      rootClaimDigest := root.digest
      leafCount := root.leaves.size
      modelDigest := root.modelDigest
      weightsDigest := root.weightsDigest
      proofFlavor := root.proofFlavor
      publicInputs := root.publicInputs.map boundaryWire
      publicOutputs := root.publicOutputs.map boundaryWire
      manifestDigest := ⟨Vector.replicate 32 0⟩ }

def refuseFirst {α : Type} (found : Option α) (error : α → AggregationError) : Except AggregationError Unit :=
  match found with
  | some a => .error (error a)
  | none => .ok ()

def finalizeNativeManifest (plan : AggregationPlan) (partition : PartitionPlan) (run : RunIdentity) (root : VerifiedClaim) :
    Except AggregationError VerifiedManifest := do
  let _ ← trustedLeafExpectations blake3 plan partition
  validatePublicModel run
  refuseIf (root.id ≠ plan.root ∨ root.aggregationDigest ≠ plan.digest ∨ root.partitionDigest ≠ partition.digest ∨
    run.aggregationPlanDigest ≠ plan.digest ∨ run.partitionPlanDigest ≠ partition.digest) .aggregationIdentityMismatch
  refuseFirst (partition.shards.find? fun shard => UInt64.ofNat shard.id ∉ root.coveredShards)
    fun shard => .missingLeaf (UInt64.ofNat shard.id)
  refuseFirst (partition.dag.edges.find? fun edge => String.ofList edge.id ∉ root.closedEdges)
    fun edge => .openInternalEdge (String.ofList edge.id)
  refuseFirst root.frontier.keys.head? .openInternalEdge
  refuseIf (root.modelDigest ≠ run.modelGraphDigest ∨ root.weightsDigest ≠ run.weightsDigest ∨
    root.proofFlavor ≠ run.proofFlavor ∨ root.runIdentityDigest ≠ run.canonicalDigest blake3 ∨
    root.leaves.size ≠ partition.shards.length) .aggregationIdentityMismatch
  let _ ← encode serde (rootManifest blake3 plan partition root)
  return rootManifest blake3 plan partition root

variable {blake3}

/-- The proofs come in the order of the shards. -/
def admitProof (plan : AggregationPlan) (partition : PartitionPlan) (run : RunIdentity) (expectations : LeafExpectationSet)
    (index : DagIndex) (claims : Std.ExtTreeMap AggregationChildId VerifiedClaim) (entry : VerifiedProof blake3 × ℕ) :
    Except AggregationError (Std.ExtTreeMap AggregationChildId VerifiedClaim) := do
  refuseIf (entry.1.proof.shard.id.toNat ≠ entry.2) (.childOrderMismatch "leaf-order")
  let claim ← admitVerifiedLeafIndexed plan partition run entry.1 expectations index
  refuseIf (claim.id ∈ claims) (.overlappingShard "leaf-order" (UInt64.ofNat entry.2))
  return claims.insert claim.id claim

/-- The first shard without a proof. -/
def missingShard (partition : PartitionPlan) (proofs : List (VerifiedProof blake3)) : UInt64 :=
  match partition.shards.find? fun shard => ∀ proof ∈ proofs, proof.proof.shard.id.toNat ≠ shard.id with
  | some shard => UInt64.ofNat shard.id
  | none => 0

def buildNativeManifest (plan : AggregationPlan) (partition : PartitionPlan) (run : RunIdentity)
    (proofs : List (VerifiedProof blake3)) : Except AggregationError VerifiedManifest := do
  let expectations ← trustedLeafExpectations blake3 plan partition
  validatePublicModel run
  let index ← DagIndex.new partition.dag partition.shards.length
  refuseIf (proofs.length ≠ partition.shards.length) (.missingLeaf (missingShard partition proofs))
  let claims ← proofs.zipIdx.foldlM (admitProof plan partition run expectations index) ∅
  let claims ← mergeLevels (mergeVerifiedClaimsIndexed blake3 index) plan.levels claims
  match claims[plan.root]? with
  | none => throw .aggregationIdentityMismatch
  | some root =>
      refuseIf ((claims.erase plan.root).isEmpty = false) .aggregationIdentityMismatch
      finalizeNativeManifest serde blake3 plan partition run root

/-- Whether a field of the text is another than the one of the manifest. -/
def Differs (wire : ManifestWire) (expected : VerifiedManifest) : Prop :=
  wire.aggregationDigest ≠ expected.aggregationDigest ∨ wire.partitionDigest ≠ expected.partitionDigest ∨
    wire.rootClaimDigest ≠ expected.rootClaimDigest ∨ wire.leafCount.toNat ≠ expected.leafCount ∨
    wire.modelDigest ≠ expected.modelDigest ∨ wire.weightsDigest ≠ expected.weightsDigest ∨
    wire.proofFlavor ≠ expected.proofFlavor ∨ wire.publicInputs ≠ expected.publicInputs ∨
    wire.publicOutputs ≠ expected.publicOutputs ∨ wire.manifestDigest ≠ expected.manifestDigest

instance (wire : ManifestWire) (expected : VerifiedManifest) : Decidable (Differs wire expected) :=
  inferInstanceAs (Decidable (_ ∨ _))

def verifyNativeManifest (bytes : List UInt8) (requestedKind : FinalArtifactKind) (plan : AggregationPlan)
    (partition : PartitionPlan) (run : RunIdentity) (proofs : List (VerifiedProof blake3)) :
    Except AggregationError VerifiedManifest := do
  refuseIf (requestedKind = .recursiveRootProof) .recursiveProofUnavailable
  let _ ← trustedLeafExpectations blake3 plan partition
  validatePublicModel run
  refuseIf (maxManifestBytes < bytes.length) .resourceLimit
  match serde.fromSlice bytes with
  | none => throw .malformedManifest
  | some wire =>
      refuseIf (wire.schemaVersion ≠ 2 ∨ wire.kind ≠ .nativeVerifiedManifest ∨ wire.kind ≠ requestedKind ∨
        maxLeaves < wire.leafCount.toNat) .malformedManifest
      let expected ← buildNativeManifest serde plan partition run proofs
      refuseIf (Differs wire expected ∨ manifestDigest blake3 expected ≠ expected.manifestDigest) .aggregationIdentityMismatch
      return expected

end Manifest

section Length

theorem textJson_length_le (value : String) : (textJson value).length ≤ 6 * value.utf8ByteSize + 2 := by
  rw [textJson, ← Statement.utf8_length]
  exact string_length_le _

theorem textsJson_length_le (values : List String) :
    totalLength (values.map textJson) ≤ 6 * (values.map (·.utf8ByteSize)).sum + 3 * values.length := by
  induction values with
  | nil => exact Nat.le_refl 0
  | cons value values ih =>
      have hvalue := textJson_length_le value
      rw [List.map_cons, List.map_cons, totalLength_cons, List.sum_cons, List.length_cons]
      omega

theorem textsJson_array_length_le (values : List String) :
    (array (values.map textJson)).length ≤ 6 * (values.map (·.utf8ByteSize)).sum + 3 * values.length + 2 :=
  Nat.le_trans (array_length_le _) (Nat.add_le_add_right (textsJson_length_le values) 2)

theorem byte_length_le (b : UInt8) : (number b.toNat).length ≤ 3 :=
  number_length_le (by omega) (Nat.lt_trans b.toNat_lt (by omega))

theorem word32_length_le (n : UInt32) : (number n.toNat).length ≤ 10 :=
  number_length_le (by omega) (Nat.lt_trans n.toNat_lt (by omega))

theorem word64_length_le (n : UInt64) : (number n.toNat).length ≤ 20 :=
  number_length_le (by omega) (Nat.lt_trans n.toNat_lt (by omega))

theorem digestJson_length_le (digest : Digest32) : (digestJson digest).length ≤ 130 := by
  have hbytes : ∀ part ∈ digest.bytes.toList.map (fun b => number b.toNat), part.length ≤ 3 := by
    intro part hpart
    obtain ⟨b, -, rfl⟩ := List.mem_map.mp hpart
    exact byte_length_le b
  have harray := array_length_le (digest.bytes.toList.map fun b => number b.toNat)
  have htotal := totalLength_le hbytes
  rw [List.length_map, Vector.length_toList] at htotal
  rw [digestJson]
  omega

theorem kindJson_length_le (kind : FinalArtifactKind) : (kindJson kind).length ≤ 24 := by
  cases kind <;> decide +kernel

example : (kindJson .nativeVerifiedManifest).length = 24 := by decide +kernel

theorem boundaryKeys_length :
    ["role", "dtype", "register_id", "edge_ids", "graph_output_names", "element_count", "quantization_scale",
      "commitment"].map (fun key => (string (utf8 key)).length) = [6, 7, 13, 10, 20, 15, 20, 12] := by
  decide +kernel

theorem manifestKeys_length :
    ["schema_version", "kind", "aggregation_digest", "partition_digest", "root_claim_digest", "leaf_count", "model_digest",
      "weights_digest", "proof_flavor", "public_inputs", "public_outputs", "manifest_digest"].map
        (fun key => (string (utf8 key)).length) = [16, 6, 20, 18, 19, 12, 14, 16, 14, 15, 16, 17] := by
  decide +kernel

theorem boundaryJson_length_le (boundary : PublicBoundaryWire) :
    (boundaryJson boundary).length ≤ 303 + 6 * boundary.registerId.utf8ByteSize +
      (6 * (boundary.edgeIds.map (·.utf8ByteSize)).sum + 3 * boundary.edgeIds.length) +
      (6 * (boundary.graphOutputNames.map (·.utf8ByteSize)).sum + 3 * boundary.graphOutputNames.length) := by
  have hobject : (boundaryJson boundary).length ≤ totalLength ((boundaryFields boundary).map field) + 2 := object_length_le _
  have hkeys := boundaryKeys_length
  simp only [List.map_cons, List.map_nil, List.cons.injEq] at hkeys
  obtain ⟨hrole, hdtype, hregister, hedges, hnames, hcount, hscale, hcommitment, -⟩ := hkeys
  simp only [boundaryFields, List.map_cons, List.map_nil, totalLength_cons, totalLength_nil, field_length, hrole, hdtype,
    hregister, hedges, hnames, hcount, hscale, hcommitment] at hobject
  have hrole := byte_length_le boundary.role
  have hdtype := byte_length_le boundary.dtype
  have hregister := textJson_length_le boundary.registerId
  have hedges := textsJson_array_length_le boundary.edgeIds
  have hnames := textsJson_array_length_le boundary.graphOutputNames
  have hcount := word64_length_le boundary.elementCount
  have hscale := word64_length_le boundary.quantizationScale
  have hcommitment := digestJson_length_le boundary.commitment
  omega

/-- The entry of a boundary and the comma behind it fit the estimate. -/
theorem boundaryJson_length_lt {binding : PublicBoundaryBinding} {bound : ℕ}
    (h : publicBoundaryWireUpperBound binding.descriptor = some bound) :
    (boundaryJson (boundaryWire binding)).length < bound := by
  have hjson := boundaryJson_length_le (boundaryWire binding)
  have hbound := upperBound_eq h
  simp only [identityBytes, identities, List.map_cons, List.map_append, List.sum_cons, List.sum_append, List.length_cons,
    List.length_append] at hbound
  simp only [boundaryWire] at hjson ⊢
  omega

/-- The entries of boundaries within a budget, with their commas. -/
theorem boundariesJson_length_le {bindings : List PublicBoundaryBinding}
    (h : ∀ d ∈ bindings.map (·.descriptor), publicBoundaryWireUpperBound d = some (boundOf d)) :
    totalLength ((bindings.map boundaryWire).map boundaryJson) ≤ ((bindings.map (·.descriptor)).map boundOf).sum := by
  induction bindings with
  | nil => exact Nat.le_refl 0
  | cons binding bindings ih =>
      rw [List.map_cons, List.forall_mem_cons] at h
      obtain ⟨hbinding, hbindings⟩ := h
      simp only [List.map_cons, totalLength_cons, List.sum_cons]
      exact Nat.add_le_add (boundaryJson_length_lt hbinding) (ih hbindings)

theorem manifestJson_length_le (wire : ManifestWire) :
    (manifestJson wire).length ≤ 1049 + 6 * wire.proofFlavor.text.utf8ByteSize +
      (totalLength (wire.publicInputs.map boundaryJson) + totalLength (wire.publicOutputs.map boundaryJson)) := by
  have hobject : (manifestJson wire).length ≤ totalLength ((manifestFields wire).map field) + 2 := object_length_le _
  have hkeys := manifestKeys_length
  simp only [List.map_cons, List.map_nil, List.cons.injEq] at hkeys
  obtain ⟨hschema, hkind, haggregation, hpartition, hroot, hleaves, hmodel, hweights, hflavor, hinputs, houtputs, hmanifest,
    -⟩ := hkeys
  simp only [manifestFields, List.map_cons, List.map_nil, totalLength_cons, totalLength_nil, field_length, hschema, hkind,
    haggregation, hpartition, hroot, hleaves, hmodel, hweights, hflavor, hinputs, houtputs, hmanifest] at hobject
  have hschema := word32_length_le wire.schemaVersion
  have hkind := kindJson_length_le wire.kind
  have haggregation := digestJson_length_le wire.aggregationDigest
  have hpartition := digestJson_length_le wire.partitionDigest
  have hroot := digestJson_length_le wire.rootClaimDigest
  have hleaves := word64_length_le wire.leafCount
  have hmodel := digestJson_length_le wire.modelDigest
  have hweights := digestJson_length_le wire.weightsDigest
  have hflavor := textJson_length_le wire.proofFlavor.text
  have hinputs := array_length_le (wire.publicInputs.map boundaryJson)
  have houtputs := array_length_le (wire.publicOutputs.map boundaryJson)
  have hmanifest := digestJson_length_le wire.manifestDigest
  omega

end Length

section Exactness

variable {serde : SerdeJson} {blake3 : Blake3} {plan : AggregationPlan} {partition : PartitionPlan} {run : RunIdentity}
  {root : VerifiedClaim} {manifest : VerifiedManifest} {proofs : List (VerifiedProof blake3)}

theorem rootManifest_encodes (hserde : serde.Compact) (hbudget : Budgeted (descriptors root))
    (hflavor : root.proofFlavor.text.utf8ByteSize ≤ 256) :
    ∃ bytes, encode serde (rootManifest blake3 plan partition root) = .ok bytes ∧ bytes.length ≤ maxManifestBytes := by
  let wire := manifestWire (rootManifest blake3 plan partition root)
  have hbounds := hbudget.bounded
  rw [descriptors, List.map_append, List.forall_mem_append] at hbounds
  have hinputs := boundariesJson_length_le hbounds.1
  have houtputs := boundariesJson_length_le hbounds.2
  have htotal := hbudget.total
  rw [descriptors, List.map_append, List.map_append, List.sum_append] at htotal
  have hjson : (manifestJson wire).length ≤ 1049 + 6 * root.proofFlavor.text.utf8ByteSize +
      (totalLength ((root.publicInputs.map boundaryWire).map boundaryJson) +
        totalLength ((root.publicOutputs.map boundaryWire).map boundaryJson)) := manifestJson_length_le wire
  have hlimit : maxPublicBoundaryWireBytes + 4096 = maxManifestBytes := rfl
  have hfits : (manifestJson wire).length ≤ maxManifestBytes := by omega
  refine ⟨manifestJson wire, ?_, hfits⟩
  rw [encode, hserde]
  exact bind_eq_ok.mpr ⟨(), refuseIf_ok.mpr (Nat.not_lt.mpr hfits), rfl⟩

theorem refuseFirst_ok {α : Type} {found : Option α} {error : α → AggregationError} :
    refuseFirst found error = .ok () ↔ found = none := by
  cases found <;> simp [refuseFirst]

/-- What holds of a manifest that is handed out. -/
structure Finalized (blake3 : Blake3) (plan : AggregationPlan) (partition : PartitionPlan) (run : RunIdentity)
    (manifest : VerifiedManifest) : Prop where
  trusted : ∃ expectations, trustedLeafExpectations blake3 plan partition = .ok expectations
  visible : validatePublicModel run = .ok ()
  kind : manifest.kind = .nativeVerifiedManifest
  leafCount : manifest.leafCount = partition.shards.length
  digest : manifestDigest blake3 manifest = manifest.manifestDigest

theorem finalize_ok (h : finalizeNativeManifest serde blake3 plan partition run root = .ok manifest) :
    Finalized blake3 plan partition run manifest := by
  obtain ⟨expectations, htrusted, h⟩ := bind_eq_ok.mp h
  obtain ⟨_, hvisible, h⟩ := bind_eq_ok.mp h
  obtain ⟨_, -, h⟩ := bind_eq_ok.mp h
  obtain ⟨_, -, h⟩ := bind_eq_ok.mp h
  obtain ⟨_, -, h⟩ := bind_eq_ok.mp h
  obtain ⟨_, -, h⟩ := bind_eq_ok.mp h
  obtain ⟨_, hroot, h⟩ := bind_eq_ok.mp h
  obtain ⟨_, -, h⟩ := bind_eq_ok.mp h
  cases h
  have hroot := refuseIf_ok.mp hroot
  simp only [not_or, not_not] at hroot
  obtain ⟨-, -, -, -, hsize⟩ := hroot
  exact ⟨⟨expectations, htrusted⟩, hvisible, rfl, hsize, rfl⟩

theorem build_ok (h : buildNativeManifest serde plan partition run proofs = .ok manifest) :
    Finalized blake3 plan partition run manifest ∧ partition.shards.length ≤ maxLeaves := by
  obtain ⟨expectations, -, h⟩ := bind_eq_ok.mp h
  obtain ⟨_, -, h⟩ := bind_eq_ok.mp h
  obtain ⟨index, hindex, h⟩ := bind_eq_ok.mp h
  obtain ⟨_, -, h⟩ := bind_eq_ok.mp h
  obtain ⟨_, -, h⟩ := bind_eq_ok.mp h
  obtain ⟨claims, -, h⟩ := bind_eq_ok.mp h
  split at h
  · cases h
  · obtain ⟨_, -, h⟩ := bind_eq_ok.mp h
    obtain ⟨_, hcount, -⟩ := bind_eq_ok.mp hindex
    have hcount := refuseIf_ok.mp hcount
    simp only [not_or, not_lt] at hcount
    exact ⟨finalize_ok h, hcount.2.1⟩

theorem differs_iff (wire : ManifestWire) (hschema : wire.schemaVersion = 2) (hkind : wire.kind = manifest.kind)
    (hcount : manifest.leafCount < 2 ^ 64) : ¬Differs wire manifest ↔ wire = manifestWire manifest := by
  have hleaves : wire.leafCount.toNat = manifest.leafCount ↔ wire.leafCount = UInt64.ofNat manifest.leafCount := by
    rw [← UInt64.toNat_inj, UInt64.toNat_ofNat_of_lt' hcount]
  simp only [Differs, not_or, not_not, hleaves]
  constructor
  · rintro ⟨h1, h2, h3, h4, h5, h6, h7, h8, h9, h10⟩
    exact ManifestWire.ext hschema hkind h1 h2 h3 h4 h5 h6 h7 h8 h9 h10
  · rintro rfl
    exact ⟨rfl, rfl, rfl, rfl, rfl, rfl, rfl, rfl, rfl, rfl⟩

theorem verify_ok_iff (bytes : List UInt8) (requestedKind : FinalArtifactKind) :
    verifyNativeManifest serde bytes requestedKind plan partition run proofs = .ok manifest ↔
      requestedKind = .nativeVerifiedManifest ∧ bytes.length ≤ maxManifestBytes ∧
        buildNativeManifest serde plan partition run proofs = .ok manifest ∧
          serde.fromSlice bytes = some (manifestWire manifest) := by
  constructor
  · intro h
    obtain ⟨_, -, h⟩ := bind_eq_ok.mp h
    obtain ⟨_, -, h⟩ := bind_eq_ok.mp h
    obtain ⟨_, -, h⟩ := bind_eq_ok.mp h
    obtain ⟨_, hbytes, h⟩ := bind_eq_ok.mp h
    split at h
    · cases h
    · next wire hwire =>
      obtain ⟨_, hheader, h⟩ := bind_eq_ok.mp h
      obtain ⟨expected, hbuild, h⟩ := bind_eq_ok.mp h
      obtain ⟨_, hsame, h⟩ := bind_eq_ok.mp h
      cases h
      obtain ⟨hfinal, hleaves⟩ := build_ok hbuild
      have hheader := refuseIf_ok.mp hheader
      simp only [not_or, not_not] at hheader
      obtain ⟨hschema, hkind, hrequested, -⟩ := hheader
      have hcount : manifest.leafCount < 2 ^ 64 := by
        rw [hfinal.leafCount]
        exact Nat.lt_of_le_of_lt hleaves (by decide)
      rw [hwire, (differs_iff wire hschema (hkind.trans hfinal.kind.symm) hcount).mp (not_or.mp (refuseIf_ok.mp hsame)).1]
      exact ⟨hrequested.symm.trans hkind, Nat.not_lt.mp (refuseIf_ok.mp hbytes), hbuild, rfl⟩
  · rintro ⟨rfl, hbytes, hbuild, hwire⟩
    obtain ⟨hfinal, hleaves⟩ := build_ok hbuild
    obtain ⟨expectations, htrusted⟩ := hfinal.trusted
    have hcount : manifest.leafCount < 2 ^ 64 := by
      rw [hfinal.leafCount]
      exact Nat.lt_of_le_of_lt hleaves (by decide)
    have hwirecount : (manifestWire manifest).leafCount.toNat ≤ maxLeaves := by
      change (UInt64.ofNat manifest.leafCount).toNat ≤ maxLeaves
      rw [UInt64.toNat_ofNat_of_lt' hcount, hfinal.leafCount]
      exact hleaves
    have hsame := (differs_iff (manifestWire manifest) rfl rfl hcount).mpr rfl
    refine bind_eq_ok.mpr ⟨(), refuseIf_ok.mpr (by decide), bind_eq_ok.mpr ⟨expectations, htrusted,
      bind_eq_ok.mpr ⟨(), hfinal.visible, bind_eq_ok.mpr ⟨(), refuseIf_ok.mpr (Nat.not_lt.mpr hbytes), ?_⟩⟩⟩⟩
    rw [hwire]
    refine bind_eq_ok.mpr ⟨(), refuseIf_ok.mpr ?_, bind_eq_ok.mpr ⟨manifest, hbuild,
      bind_eq_ok.mpr ⟨(), refuseIf_ok.mpr ?_, rfl⟩⟩⟩
    · simp only [not_or, not_not, Nat.not_lt]
      exact ⟨rfl, hfinal.kind, hfinal.kind, hwirecount⟩
    · rw [not_or, not_not]
      exact ⟨hsame, hfinal.digest⟩

theorem refuseIf_ne {c : Prop} [Decidable c] {error e : AggregationError} (h : error ≠ e) : refuseIf c error ≠ .error e := by
  by_cases hc : c
  · rw [refuseIf, if_pos hc]
    exact fun heq => h (Except.error.inj heq)
  · rw [refuseIf, if_neg hc]
    intro heq
    cases heq

theorem refuseFirst_ne {α : Type} {found : Option α} {error : α → AggregationError} {e : AggregationError}
    (h : ∀ a, error a ≠ e) : refuseFirst found error ≠ .error e := by
  cases found with
  | none => exact fun heq => nomatch heq
  | some a => exact fun heq => h a (Except.error.inj heq)

theorem trusted_ne : trustedLeafExpectations blake3 plan partition ≠ .error .resourceLimit := by
  unfold trustedLeafExpectations
  split
  · exact fun heq => nomatch heq
  · split_ifs <;> exact fun heq => nomatch heq

/-- A manifest within the budget is never refused for its size. -/
theorem finalize_within (hserde : serde.Compact) (hbudget : Budgeted (descriptors root))
    (hflavor : root.proofFlavor.text.utf8ByteSize ≤ 256) :
    finalizeNativeManifest serde blake3 plan partition run root ≠ .error .resourceLimit := by
  have hfits : ∃ bytes, encode serde (rootManifest blake3 plan partition root) = .ok bytes ∧ bytes.length ≤ maxManifestBytes :=
    rootManifest_encodes hserde hbudget hflavor
  obtain ⟨bytes, hencode, -⟩ := hfits
  refine bind_ne_error trusted_ne fun _ _ => bind_ne_error (refuseIf_ne (by decide)) fun _ _ =>
    bind_ne_error (refuseIf_ne (by decide)) fun _ _ => bind_ne_error (refuseFirst_ne fun _ => by simp) fun _ _ =>
    bind_ne_error (refuseFirst_ne fun _ => by simp) fun _ _ => bind_ne_error (refuseFirst_ne fun _ => by simp) fun _ _ =>
    bind_ne_error (refuseIf_ne (by decide)) fun _ _ => bind_ne_error ?_ fun _ _ heq => nomatch heq
  rw [hencode]
  exact fun heq => nomatch heq

end Exactness

section Building

variable {C : Type} {P : C → Prop} {merge : AggregationNode → List C → Except AggregationError C}
  {claims claims' : Std.ExtTreeMap AggregationChildId C}

/-- All claims of a map have a property. -/
def Holds (P : C → Prop) (claims : Std.ExtTreeMap AggregationChildId C) : Prop :=
  ∀ (id : AggregationChildId) c, claims[id]? = some c → P c

theorem Holds.empty : Holds P ∅ := by
  intro id c h
  rw [Std.ExtTreeMap.getElem?_empty] at h
  cases h

theorem Holds.insert (h : Holds P claims) {c : C} (hc : P c) (id : AggregationChildId) : Holds P (claims.insert id c) := by
  intro other d hget
  rw [Std.ExtTreeMap.getElem?_insert] at hget
  split_ifs at hget
  · cases hget
    exact hc
  · exact h other d hget

theorem Holds.erase (h : Holds P claims) (id : AggregationChildId) : Holds P (claims.erase id) := by
  intro other d hget
  rw [Std.ExtTreeMap.getElem?_erase] at hget
  split_ifs at hget
  exact h other d hget

theorem Holds.take (h : Holds P claims) {node : AggregationChildId} {ids : List AggregationChildId} {children : List C}
    (htake : takeClaims node ids claims = .ok (children, claims')) : (∀ c ∈ children, P c) ∧ Holds P claims' := by
  induction ids generalizing claims children with
  | nil =>
      cases htake
      exact ⟨List.forall_mem_nil _, h⟩
  | cons id ids ih =>
      rw [takeClaims] at htake
      split at htake
      · cases htake
      · next claim hget =>
        obtain ⟨⟨rest, _⟩, hrest, htake⟩ := bind_eq_ok.mp htake
        cases htake
        obtain ⟨hchildren, hclaims⟩ := ih (h.erase id) hrest
        exact ⟨List.forall_mem_cons.mpr ⟨h id claim hget, hchildren⟩, hclaims⟩

theorem Holds.mergeNode (hmerge : ∀ node children c, (∀ child ∈ children, P child) → merge node children = .ok c → P c)
    (h : Holds P claims) {node : AggregationNode} (hok : mergeNode merge claims node = .ok claims') : Holds P claims' := by
  obtain ⟨⟨children, rest⟩, htake, hok⟩ := bind_eq_ok.mp hok
  obtain ⟨claim, hclaim, hok⟩ := bind_eq_ok.mp hok
  cases hok
  obtain ⟨hchildren, hrest⟩ := h.take htake
  exact hrest.insert (hmerge node children claim hchildren hclaim) node.id

theorem Holds.mergeLevels (hmerge : ∀ node children c, (∀ child ∈ children, P child) → merge node children = .ok c → P c)
    (h : Holds P claims) {levels : List (List AggregationNode)} (hok : mergeLevels merge levels claims = .ok claims') :
    Holds P claims' :=
  foldlM_keeps (fun _ _ _ hlevel => foldlM_keeps (fun _ _ _ hnode => hnode.mergeNode hmerge) hlevel) h hok

variable {serde : SerdeJson} {blake3 : Blake3} {plan : AggregationPlan} {partition : PartitionPlan} {run : RunIdentity}
  {manifest : VerifiedManifest} {proofs : List (VerifiedProof blake3)}

theorem Holds.admitProof {set : LeafExpectationSet} {index : DagIndex} {entry : VerifiedProof blake3 × ℕ}
    {claims claims' : Std.ExtTreeMap AggregationChildId VerifiedClaim} (h : Holds (Admitted blake3 set) claims)
    (hok : admitProof plan partition run set index claims entry = .ok claims') : Holds (Admitted blake3 set) claims' := by
  obtain ⟨_, -, hok⟩ := bind_eq_ok.mp hok
  obtain ⟨claim, hclaim, hok⟩ := bind_eq_ok.mp hok
  obtain ⟨_, -, hok⟩ := bind_eq_ok.mp hok
  cases hok
  exact h.insert (.leaf hclaim) claim.id

/-- The root that is finalized is merged of leaves that were admitted under the expectations of the plan. -/
theorem build_admitted (h : buildNativeManifest serde plan partition run proofs = .ok manifest) :
    ∃ set root, plan.leafExpectations = some set ∧ Admitted blake3 set root ∧
      finalizeNativeManifest serde blake3 plan partition run root = .ok manifest := by
  obtain ⟨set, hset, h⟩ := bind_eq_ok.mp h
  obtain ⟨_, -, h⟩ := bind_eq_ok.mp h
  obtain ⟨index, -, h⟩ := bind_eq_ok.mp h
  obtain ⟨_, -, h⟩ := bind_eq_ok.mp h
  obtain ⟨leaves, hleaves, h⟩ := bind_eq_ok.mp h
  obtain ⟨claims, hclaims, h⟩ := bind_eq_ok.mp h
  have hadmitted : Holds (Admitted blake3 set) leaves :=
    foldlM_keeps (fun _ _ _ hclaims hstep => hclaims.admitProof hstep) Holds.empty hleaves
  have hmerged := hadmitted.mergeLevels (fun _ _ _ => Admitted.merge) hclaims
  split at h
  · cases h
  · next root hroot =>
    obtain ⟨_, -, h⟩ := bind_eq_ok.mp h
    refine ⟨set, root, ?_, hmerged plan.root root hroot, h⟩
    unfold trustedLeafExpectations at hset
    split at hset
    · cases hset
    · next expectations hexpectations =>
      split_ifs at hset
      cases hset
      exact hexpectations

end Building

section Sample

def oneShard : PartitionPlan where
  shards := [⟨0, "shard-0", ⟨0, 1⟩, ⟨1, 1⟩, []⟩]
  dag := ⟨[], []⟩
  modelDigest := flatDigest
  boundaryLayoutDigest := none
  digest := flatDigest
  programSnapshot := ⟨[], [], [], []⟩

def graphInput : BoundaryDescriptor := ⟨.input, "graph-input:x", [], [], 1, 262144⟩

theorem graphInput_valid : graphInput.validate = .ok () := by
  decide +kernel

def oneLeaf : LeafExpectation := ⟨0, "shard-0", flatDigest, flatDigest, cpu, kzg, [graphInput], []⟩

def oneClaim : BoundaryClaim := ⟨graphInput, 0, graphInput_valid⟩

theorem shard_named : "shard-0" ≠ "" ∧ "shard-0".utf8ByteSize ≤ Statement.maxTextBytes := by
  decide +kernel

theorem noWeights_few : ([] : List FixedPoint.I18).length ≤ Statement.maxClaims * 256 := Nat.zero_le _

theorem oneClaim_few : ([oneClaim] : List BoundaryClaim).length + ([] : List BoundaryClaim).length ≤ Statement.maxClaims :=
  Nat.succ_le_of_lt (Nat.two_pow_pos 12)

theorem oneClaim_role : ∀ claim ∈ [oneClaim], claim.descriptor.role = .input := List.forall_mem_singleton.mpr rfl

theorem noClaims_role : ∀ claim ∈ ([] : List BoundaryClaim), claim.descriptor.role = .output := List.forall_mem_nil _

def oneStatement : LeafStatement where
  shardId := 0
  shardName := "shard-0"
  circuitDigest := flatDigest
  partitionDigest := flatDigest
  modelDigest := flatDigest
  weightsDigest := flatDigest
  proofFlavor := kzg
  verificationKeyDigest := flatDigest
  inputClaims := [oneClaim]
  outputClaims := []
  publicWeights := []
  named := shard_named
  fewClaims := oneClaim_few
  inputRoles := oneClaim_role
  outputRoles := noClaims_role
  fewWeights := noWeights_few

theorem two_ne : (2 : UInt8) ≠ 0 := by
  decide

def onePlan : AggregationPlan := ⟨flatDigest, ⟨2, two_ne⟩, 1, [], .leaf 0, none, flatDigest⟩

def oneRun : RunIdentity :=
  ⟨flatDigest, flatDigest, flatDigest, flatDigest, flatDigest, flatDigest, flatDigest, kzg, .publicModel, 2, 2⟩

theorem proof_path : VerifyProof.validText "proof" = .ok () := by
  decide +kernel

/-- A proof of the statement with the given bytes. -/
def oneProof (bytes : List UInt8) (hbytes : validBytes bytes = .ok ()) : VerifiedProof flatHash :=
  ⟨{ VerifyProof.sampleProof "proof" proof_path with
      publicStatement := bytes
      statement := hbytes
      statementDigest := rfl }⟩

def oneRoot : VerifiedClaim :=
  sealClaim flatHash
    { id := .leaf 0
      aggregationDigest := flatDigest
      runIdentityDigest := flatDigest
      partitionDigest := flatDigest
      modelDigest := flatDigest
      weightsDigest := flatDigest
      proofFlavor := kzg
      coveredShards := Std.ExtTreeSet.ofList [(0 : UInt64)]
      frontier := ∅
      closedEdges := ∅
      publicInputs := publicBindings false [oneClaim]
      publicOutputs := publicBindings true []
      leaves := Std.ExtTreeMap.ofList [((0 : UInt64), (⟨flatDigest, flatDigest, flatDigest, flatDigest⟩ : LeafBinding))]
      digest := ⟨Vector.replicate 32 0⟩ }

example : (rootManifest flatHash onePlan oneShard oneRoot).publicInputs.length = 1 := by decide +kernel

theorem oneLeaf_set : ∃ set, LeafExpectationSet.new flatHash oneShard [oneLeaf] = .ok set ∧ set.leaves[(0 : UInt64)]? = some oneLeaf := by
  have hget : (byShard [oneLeaf])[(0 : UInt64)]? = some oneLeaf := by
    simp [byShard, oneLeaf]
  have hsize : (byShard [oneLeaf]).size = 1 := by
    simp [byShard, Std.ExtTreeMap.size_insert]
  refine ⟨⟨flatDigest, byShard [oneLeaf], flatDigest, byShard_keyed [oneLeaf]⟩, ?_, hget⟩
  refine bind_eq_ok.mpr ⟨(), refuseIf_ok.mpr (by decide), bind_eq_ok.mpr ⟨(), refuseIf_ok.mpr (by decide +kernel),
    bind_eq_ok.mpr ⟨(), refuseIf_ok.mpr ?_, rfl⟩⟩⟩
  rintro (hne | ⟨shard, hshard, hname⟩)
  · exact hne hsize
  · rw [List.mem_singleton.mp hshard] at hname
    exact hname oneLeaf hget rfl

theorem oneStatement_bytes : ∃ bytes, validBytes bytes = .ok () ∧ LeafStatement.decode bytes = .ok oneStatement := by
  have htexts : ∀ text ∈ oneStatement.texts, Statement.FitsText text := by
    decide +kernel
  obtain ⟨out, hput, hsize⟩ := oneStatement.measured_body.writes htexts Statement.magic
  have hlength : out.length ≤ Statement.maxStatementBytes := by
    rw [hsize, Nat.add_sub_cancel' oneStatement.magic_le_size]
    decide +kernel
  exact ⟨out, if_neg (Nat.not_lt.mpr hlength), LeafStatement.decode_put hput hlength⟩

theorem oneRoot_admitted {set : LeafExpectationSet} (hget : set.leaves[(0 : UInt64)]? = some oneLeaf) :
    Admitted flatHash set oneRoot := by
  obtain ⟨bytes, hbytes, hdecode⟩ := oneStatement_bytes
  have hallowed : admitVerifiedLeafIndexed onePlan oneShard oneRun (oneProof bytes hbytes) set ⟨∅, [[]]⟩ = .ok oneRoot := by
    have hleaf : set.leaves[(oneProof bytes hbytes).proof.shard.id]? = some oneLeaf := hget
    have hshard : oneShard.shards[(oneProof bytes hbytes).proof.shard.id.toNat]? =
      some ⟨0, "shard-0", ⟨0, 1⟩, ⟨1, 1⟩, []⟩ := rfl
    rw [admitVerifiedLeafIndexed]
    dsimp only
    rw [hleaf, hshard]
    refine bind_eq_ok.mpr ⟨(), rfl, bind_eq_ok.mpr ⟨(), refuseIf_ok.mpr ?_, bind_eq_ok.mpr ⟨oneStatement, ?_,
      bind_eq_ok.mpr ⟨(), refuseIf_ok.mpr ?_, bind_eq_ok.mpr ⟨(), refuseIf_ok.mpr ?_, bind_eq_ok.mpr ⟨∅, ?_,
        bind_eq_ok.mpr ⟨∅, rfl, bind_eq_ok.mpr ⟨(), rfl, rfl⟩⟩⟩⟩⟩⟩⟩⟩
    · simp only [ne_eq, not_or, not_not]
      exact ⟨rfl, rfl, rfl, rfl, rfl, rfl, rfl, rfl, rfl, rfl, rfl, rfl, rfl, rfl, rfl⟩
    · exact FixedPoint.mapError_eq_ok.mpr hdecode
    · simp only [ne_eq, not_or, not_not]
      exact ⟨rfl, rfl, rfl, rfl, rfl, rfl, rfl, rfl, rfl⟩
    · simp only [not_or, not_not]
      exact ⟨by decide +kernel, rfl⟩
    · have hpublic : IsPublic false oneClaim.descriptor := by
        decide +kernel
      exact bind_eq_ok.mpr ⟨∅, bind_eq_ok.mpr ⟨(), refuseIf_ok.mpr fun h => h.2 hpublic, rfl⟩, rfl⟩
  exact .leaf hallowed

/-- The library as it writes, and as it reads the text of the one manifest. -/
def printing : SerdeJson where
  toVec wire := some (manifestJson wire)
  fromSlice bytes :=
    let wire := manifestWire (rootManifest flatHash onePlan oneShard oneRoot)
    if bytes = manifestJson wire then some wire else none

end Sample

/-- Verification accepts exactly the texts of the manifest that it builds itself, and a manifest of leaves that were
admitted under a set of expectations is never too large for its text: the estimate of a boundary is above its entry. -/
theorem manifest_verification_exact (blake3 : Blake3) (serde : SerdeJson) (hserde : serde.Compact) :
    (∀ (plan : AggregationPlan) (partition : PartitionPlan) (run : RunIdentity) (proofs : List (VerifiedProof blake3))
      (bytes : List UInt8) (requestedKind : FinalArtifactKind) (manifest : VerifiedManifest),
      verifyNativeManifest serde bytes requestedKind plan partition run proofs = .ok manifest ↔
        requestedKind = .nativeVerifiedManifest ∧ bytes.length ≤ maxManifestBytes ∧
          buildNativeManifest serde plan partition run proofs = .ok manifest ∧
            serde.fromSlice bytes = some (manifestWire manifest)) ∧
    (∀ (declared : PartitionPlan) (expectations : List LeafExpectation) (set : LeafExpectationSet),
      LeafExpectationSet.new blake3 declared expectations = .ok set → ∀ root, Admitted blake3 set root →
        root.proofFlavor.text.utf8ByteSize ≤ 256 → ∀ (plan : AggregationPlan) (partition : PartitionPlan) (run : RunIdentity),
          finalizeNativeManifest serde blake3 plan partition run root ≠ .error .resourceLimit ∧
            ∃ bytes, encode serde (rootManifest blake3 plan partition root) = .ok bytes ∧ bytes.length ≤ maxManifestBytes) ∧
    ∀ (binding : PublicBoundaryBinding) (bound : ℕ), publicBoundaryWireUpperBound binding.descriptor = some bound →
      (boundaryJson (boundaryWire binding)).length < bound := by
  refine ⟨fun _ _ _ _ bytes requestedKind _ => verify_ok_iff bytes requestedKind, ?_, fun _ _ => boundaryJson_length_lt⟩
  intro declared expectations set hset root hroot hflavor plan partition run
  have hbudget := hroot.budgeted hset
  exact ⟨finalize_within hserde hbudget hflavor, rootManifest_encodes hserde hbudget hflavor⟩

theorem manifest_verification_exact_one :
    (∃ set, LeafExpectationSet.new flatHash oneShard [oneLeaf] = .ok set ∧ Admitted flatHash set oneRoot) ∧
      ∃ bytes, encode printing (rootManifest flatHash onePlan oneShard oneRoot) = .ok bytes ∧
        bytes.length ≤ maxManifestBytes := by
  obtain ⟨set, hset, hget⟩ := oneLeaf_set
  have hadmitted := oneRoot_admitted hget
  have hexact := manifest_verification_exact flatHash printing fun _ => rfl
  have hfits := hexact.2.1 oneShard [oneLeaf] set hset oneRoot hadmitted (by decide +kernel) onePlan oneShard oneRun
  exact ⟨⟨set, hset, hadmitted⟩, hfits.2⟩

end Zkie.NativeManifest
