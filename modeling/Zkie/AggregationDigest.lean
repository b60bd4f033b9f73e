import Zkie.DigestBytes

namespace Zkie.AggregationDigest

open DigestBytes Encoding
open LittleEndian (toBytes)
open PoseidonBoundary (Blake3 BoundaryDescriptor roleByte utf8)
open RunDatabase (Digest32)
open ScalarField (Fr)
open Statement (ProofFlavorId toRepr)

section Model

inductive AggregationChildId where
  | leaf (shard : UInt64)
  | node (level index : UInt32)
  deriving DecidableEq, Repr

structure NonZeroU8 where
  get : UInt8
  ne : get ≠ 0
  deriving DecidableEq, Repr

/-- A node and its children, of which the planner makes at most sixteen. -/
structure Topology where
  id : AggregationChildId
  children : List AggregationChildId
  arity : 2 ≤ children.length ∧ children.length ≤ 16
  deriving DecidableEq, Repr

structure AggregationNode extends Topology where
  planDigest : Digest32
  deriving DecidableEq, Repr

def AggregationNode.actualArity (node : AggregationNode) : UInt8 := UInt8.ofNat node.children.length

@[ext]
structure ExecutionBackendId where
  text : String
  nonempty : text ≠ ""
  ascii : ∀ c ∈ text.toList, c.toNat < 128
  deriving Repr

instance : DecidableEq ExecutionBackendId := fun _ _ => decidable_of_iff _ ExecutionBackendId.ext_iff.symm

structure LeafExpectation where
  shardId : UInt64
  shardName : String
  circuitDigest : Digest32
  verificationKeyDigest : Digest32
  executionBackend : ExecutionBackendId
  proofFlavor : ProofFlavorId
  publicInputs : List BoundaryDescriptor
  publicOutputs : List BoundaryDescriptor
  deriving DecidableEq, Repr

structure EdgeFrontier where
  producer : Option Fr
  consumer : Option Fr
  deriving DecidableEq

structure LeafBinding where
  proofDigest : Digest32
  statementDigest : Digest32
  circuitDigest : Digest32
  verificationKeyDigest : Digest32
  deriving DecidableEq, Repr

structure PublicBoundaryBinding where
  descriptor : BoundaryDescriptor
  commitment : Fr
  deriving DecidableEq

structure VerifiedClaim where
  id : AggregationChildId
  aggregationDigest : Digest32
  runIdentityDigest : Digest32
  partitionDigest : Digest32
  modelDigest : Digest32
  weightsDigest : Digest32
  proofFlavor : ProofFlavorId
  coveredShards : Std.ExtTreeSet UInt64
  frontier : Std.ExtTreeMap String EdgeFrontier
  closedEdges : Std.ExtTreeSet String
  publicInputs : List PublicBoundaryBinding
  publicOutputs : List PublicBoundaryBinding
  leaves : Std.ExtTreeMap UInt64 LeafBinding
  digest : Digest32

inductive FinalArtifactKind where
  | nativeVerifiedManifest
  | recursiveRootProof
  deriving DecidableEq, Repr

structure PublicBoundaryWire where
  role : UInt8
  dtype : UInt8
  registerId : String
  edgeIds : List String
  graphOutputNames : List String
  elementCount : UInt64
  quantizationScale : UInt64
  commitment : Digest32
  deriving DecidableEq, Repr

structure VerifiedManifest where
  kind : FinalArtifactKind
  aggregationDigest : Digest32
  partitionDigest : Digest32
  rootClaimDigest : Digest32
  leafCount : ℕ
  modelDigest : Digest32
  weightsDigest : Digest32
  proofFlavor : ProofFlavorId
  publicInputs : List PublicBoundaryWire
  publicOutputs : List PublicBoundaryWire
  manifestDigest : Digest32
  deriving DecidableEq, Repr

inductive ModelVisibility where
  | publicModel
  | privateModel
  deriving DecidableEq, Repr

/-- Everything that a run depends on. -/
structure RunIdentity where
  modelGraphDigest : Digest32
  weightsDigest : Digest32
  compilerDigest : Digest32
  isaDigest : Digest32
  quantizationDigest : Digest32
  partitionPlanDigest : Digest32
  aggregationPlanDigest : Digest32
  proofFlavor : ProofFlavorId
  modelVisibility : ModelVisibility
  aggregationFanIn : UInt32
  publicInputSchemaVersion : UInt32
  deriving DecidableEq, Repr

end Model

section Encoders

def encodeText (value : String) : List UInt8 := toBytes 8 value.utf8ByteSize ++ utf8 value

def encodeTextList (values : List String) : List UInt8 := toBytes 8 values.length ++ values.flatMap encodeText

def encodeDigest (digest : Digest32) : List UInt8 := digest.bytes.toList

def encodeChildId : AggregationChildId → List UInt8
  | .leaf shard => 0 :: toBytes 8 shard.toNat
  | .node level index => 1 :: (toBytes 4 level.toNat ++ toBytes 4 index.toNat)

/-- The second byte is the type of the elements, of which there is one. -/
def encodeBoundaryDescriptor (descriptor : BoundaryDescriptor) : List UInt8 :=
  [roleByte descriptor.role] ++ [1] ++ encodeText descriptor.registerId ++ encodeTextList descriptor.edgeIds ++
    encodeTextList descriptor.graphOutputNames ++ toBytes 8 descriptor.elementCount.toNat ++
    toBytes 8 descriptor.quantizationScale.toNat

def encodeBinding (boundary : PublicBoundaryBinding) : List UInt8 :=
  encodeBoundaryDescriptor boundary.descriptor ++ toRepr boundary.commitment

def encodeWire (boundary : PublicBoundaryWire) : List UInt8 :=
  [boundary.role] ++ [boundary.dtype] ++ encodeText boundary.registerId ++ encodeTextList boundary.edgeIds ++
    encodeTextList boundary.graphOutputNames ++ toBytes 8 boundary.elementCount.toNat ++
    toBytes 8 boundary.quantizationScale.toNat ++ encodeDigest boundary.commitment

def encodeEndpoint : Option Fr → List UInt8
  | some value => 1 :: toRepr value
  | none => [0]

def encodeFrontier (entry : String × EdgeFrontier) : List UInt8 :=
  encodeText entry.1 ++ encodeEndpoint entry.2.producer ++ encodeEndpoint entry.2.consumer

def encodeLeaf (entry : UInt64 × LeafBinding) : List UInt8 :=
  toBytes 8 entry.1.toNat ++ encodeDigest entry.2.proofDigest ++ encodeDigest entry.2.statementDigest ++
    encodeDigest entry.2.circuitDigest ++ encodeDigest entry.2.verificationKeyDigest

def claimBytes (claim : VerifiedClaim) : List UInt8 :=
  utf8 "zkie.verified-aggregation-claim.v2\x00" ++ encodeChildId claim.id ++ encodeDigest claim.aggregationDigest ++
    encodeDigest claim.runIdentityDigest ++ encodeDigest claim.partitionDigest ++ encodeDigest claim.modelDigest ++
    encodeDigest claim.weightsDigest ++ encodeText claim.proofFlavor.text ++
    utf8 "covered\x00" ++ toBytes 8 claim.coveredShards.toList.length ++
      claim.coveredShards.toList.flatMap (fun shard => toBytes 8 shard.toNat) ++
    utf8 "frontier\x00" ++ toBytes 8 claim.frontier.toList.length ++ claim.frontier.toList.flatMap encodeFrontier ++
    utf8 "closed\x00" ++ toBytes 8 claim.closedEdges.toList.length ++ claim.closedEdges.toList.flatMap encodeText ++
    utf8 "public-inputs\x00" ++ toBytes 8 claim.publicInputs.length ++ claim.publicInputs.flatMap encodeBinding ++
    utf8 "public-outputs\x00" ++ toBytes 8 claim.publicOutputs.length ++ claim.publicOutputs.flatMap encodeBinding ++
    utf8 "leaves\x00" ++ toBytes 8 claim.leaves.toList.length ++ claim.leaves.toList.flatMap encodeLeaf

def kindByte : FinalArtifactKind → UInt8
  | .nativeVerifiedManifest => 1
  | .recursiveRootProof => 2

def manifestBytes (manifest : VerifiedManifest) : List UInt8 :=
  utf8 "zkie.native-verified-manifest.v2\x00" ++ [kindByte manifest.kind] ++ encodeDigest manifest.aggregationDigest ++
    encodeDigest manifest.partitionDigest ++ encodeDigest manifest.rootClaimDigest ++ encodeDigest manifest.modelDigest ++
    encodeDigest manifest.weightsDigest ++ toBytes 8 manifest.leafCount ++ encodeText manifest.proofFlavor.text ++
    utf8 "public-inputs\x00" ++ toBytes 8 manifest.publicInputs.length ++ manifest.publicInputs.flatMap encodeWire ++
    utf8 "public-outputs\x00" ++ toBytes 8 manifest.publicOutputs.length ++ manifest.publicOutputs.flatMap encodeWire

def encodeOptionalDigest : Option Digest32 → List UInt8
  | some digest => 1 :: encodeDigest digest
  | none => [0]

def encodeNode (node : AggregationNode) : List UInt8 :=
  encodeChildId node.id ++ [node.actualArity] ++ node.children.flatMap encodeChildId

def encodeLevel (level : List AggregationNode) : List UInt8 := toBytes 8 level.length ++ level.flatMap encodeNode

def aggregationPlanBytes (partitionDigest : Digest32) (fanIn : NonZeroU8) (leafCount : ℕ)
    (levels : List (List AggregationNode)) (root : AggregationChildId) (leafExpectationSetDigest : Option Digest32) :
    List UInt8 :=
  utf8 "zkie.native-aggregation-plan.v2\x00" ++ encodeDigest partitionDigest ++ encodeOptionalDigest leafExpectationSetDigest ++
    [fanIn.get] ++ toBytes 8 leafCount ++ toBytes 8 levels.length ++ levels.flatMap encodeLevel ++ encodeChildId root

def encodeExpectation (entry : UInt64 × LeafExpectation) : List UInt8 :=
  toBytes 8 entry.1.toNat ++ encodeText entry.2.shardName ++ encodeDigest entry.2.circuitDigest ++
    encodeDigest entry.2.verificationKeyDigest ++ encodeText entry.2.executionBackend.text ++
    encodeText entry.2.proofFlavor.text ++
    toBytes 8 entry.2.publicInputs.length ++ entry.2.publicInputs.flatMap encodeBoundaryDescriptor ++
    toBytes 8 entry.2.publicOutputs.length ++ entry.2.publicOutputs.flatMap encodeBoundaryDescriptor

def leafExpectationSetBytes (partitionDigest : Digest32) (leaves : Std.ExtTreeMap UInt64 LeafExpectation) : List UInt8 :=
  utf8 "zkie.leaf-expectation-set.v1\x00" ++ encodeDigest partitionDigest ++
    toBytes 8 leaves.toList.length ++ leaves.toList.flatMap encodeExpectation

def visibilityByte : ModelVisibility → UInt8
  | .publicModel => 0
  | .privateModel => 1

def RunIdentity.bytes (run : RunIdentity) : List UInt8 :=
  utf8 "zkie.run-identity.v1" ++ encodeDigest run.modelGraphDigest ++ encodeDigest run.weightsDigest ++
    encodeDigest run.compilerDigest ++ encodeDigest run.isaDigest ++ encodeDigest run.quantizationDigest ++
    encodeDigest run.partitionPlanDigest ++ encodeDigest run.aggregationPlanDigest ++ encodeText run.proofFlavor.text ++
    [visibilityByte run.modelVisibility] ++ toBytes 4 run.aggregationFanIn.toNat ++
    toBytes 4 run.publicInputSchemaVersion.toNat

section Digests

variable (blake3 : Blake3)

def claimDigest (claim : VerifiedClaim) : Digest32 := ⟨blake3 (claimBytes claim)⟩

def manifestDigest (manifest : VerifiedManifest) : Digest32 := ⟨blake3 (manifestBytes manifest)⟩

def aggregationPlanDigest (partitionDigest : Digest32) (fanIn : NonZeroU8) (leafCount : ℕ)
    (levels : List (List AggregationNode)) (root : AggregationChildId) (leafExpectationSetDigest : Option Digest32) : Digest32 :=
  ⟨blake3 (aggregationPlanBytes partitionDigest fanIn leafCount levels root leafExpectationSetDigest)⟩

def leafExpectationSetDigest (partitionDigest : Digest32) (leaves : Std.ExtTreeMap UInt64 LeafExpectation) : Digest32 :=
  ⟨blake3 (leafExpectationSetBytes partitionDigest leaves)⟩

def RunIdentity.canonicalDigest (run : RunIdentity) : Digest32 := ⟨blake3 run.bytes⟩

end Digests

end Encoders

section Parts

abbrev TextFits (value : String) : Prop := Machine value.utf8ByteSize

def TextsFit (values : List String) : Prop := Machine values.length ∧ ∀ value ∈ values, TextFits value

structure DescriptorFits (descriptor : BoundaryDescriptor) : Prop where
  registerId : TextFits descriptor.registerId
  edgeIds : TextsFit descriptor.edgeIds
  graphOutputNames : TextsFit descriptor.graphOutputNames

structure WireFits (boundary : PublicBoundaryWire) : Prop where
  registerId : TextFits boundary.registerId
  edgeIds : TextsFit boundary.edgeIds
  graphOutputNames : TextsFit boundary.graphOutputNames

theorem prefixFree_encodeText : PrefixFree TextFits encodeText := prefixFree_text

theorem prefixFree_encodeDigest : PrefixFree (fun _ => True) encodeDigest := prefixFree_digest

theorem prefixFree_encodeTextList : PrefixFree TextsFit encodeTextList := by
  have hnothing : Reveals TextsFit (fun _ => []) _ := reveals_const []
  apply (hnothing.counted prefixFree_encodeText 8 id fun _ h => h).imp
  rintro a b - - ⟨-, rfl⟩
  rfl

theorem prefixFree_encodeChildId : PrefixFree (fun _ => True) encodeChildId := by
  have hnode := (prefixFree_word32.field (Prod.fst : UInt32 × UInt32 → UInt32) (P := fun _ => True)).append
    (prefixFree_word32.field Prod.snd)
  rintro (a | ⟨a, i⟩) (b | ⟨b, j⟩) s t - - heq
  · obtain ⟨rfl, hst⟩ := prefixFree_word64 trivial trivial (List.cons.inj heq).2
    exact ⟨rfl, hst⟩
  · exact absurd (List.cons.inj heq).1 (by decide)
  · exact absurd (List.cons.inj heq).1 (by decide)
  · obtain ⟨⟨rfl, rfl⟩, hst⟩ := @hnode (a, i) (b, j) s t trivial trivial (List.cons.inj heq).2
    exact ⟨rfl, hst⟩

theorem roleByte_injective : Function.Injective roleByte := by
  rintro (_ | _) (_ | _) h
  · rfl
  · cases h
  · cases h
  · rfl

theorem prefixFree_encodeBoundaryDescriptor : PrefixFree DescriptorFits encodeBoundaryDescriptor := by
  have hrole := ((prefixFree_tag roleByte_injective).field BoundaryDescriptor.role (P := DescriptorFits)).append (reveals_const [1])
  have hregister := hrole.append (prefixFree_encodeText.comp BoundaryDescriptor.registerId fun d h => h.registerId)
  have hedges := hregister.append (prefixFree_encodeTextList.comp BoundaryDescriptor.edgeIds fun d h => h.edgeIds)
  have hnames := hedges.append
    (prefixFree_encodeTextList.comp BoundaryDescriptor.graphOutputNames fun d h => h.graphOutputNames)
  have hcount := hnames.append (prefixFree_word64.field BoundaryDescriptor.elementCount)
  apply (hcount.append (prefixFree_word64.field BoundaryDescriptor.quantizationScale)).imp
  rintro ⟨r, x, es, ns, m, q⟩ ⟨r', x', es', ns', m', q'⟩ - - ⟨⟨⟨⟨⟨⟨rfl, -⟩, rfl⟩, rfl⟩, rfl⟩, rfl⟩, rfl⟩
  rfl

theorem prefixFree_encodeBinding : PrefixFree (fun b : PublicBoundaryBinding => DescriptorFits b.descriptor) encodeBinding := by
  have hdescriptor := prefixFree_encodeBoundaryDescriptor.comp PublicBoundaryBinding.descriptor
    fun b (h : DescriptorFits b.descriptor) => h
  apply (hdescriptor.append (prefixFree_toRepr.field PublicBoundaryBinding.commitment)).imp
  rintro ⟨d, c⟩ ⟨d', c'⟩ - - ⟨rfl, rfl⟩
  rfl

theorem prefixFree_encodeWire : PrefixFree WireFits encodeWire := by
  have hrole := ((prefixFree_tag Function.injective_id).field PublicBoundaryWire.role (P := WireFits)).append
    ((prefixFree_tag Function.injective_id).field PublicBoundaryWire.dtype)
  have hregister := hrole.append (prefixFree_encodeText.comp PublicBoundaryWire.registerId fun w h => h.registerId)
  have hedges := hregister.append (prefixFree_encodeTextList.comp PublicBoundaryWire.edgeIds fun w h => h.edgeIds)
  have hnames := hedges.append
    (prefixFree_encodeTextList.comp PublicBoundaryWire.graphOutputNames fun w h => h.graphOutputNames)
  have hcount := hnames.append (prefixFree_word64.field PublicBoundaryWire.elementCount)
  have hscale := hcount.append (prefixFree_word64.field PublicBoundaryWire.quantizationScale)
  apply (hscale.append (prefixFree_encodeDigest.field PublicBoundaryWire.commitment)).imp
  rintro ⟨r, y, x, es, ns, m, q, c⟩ ⟨r', y', x', es', ns', m', q', c'⟩ - -
    ⟨⟨⟨⟨⟨⟨⟨rfl, rfl⟩, rfl⟩, rfl⟩, rfl⟩, rfl⟩, rfl⟩, rfl⟩
  rfl

theorem prefixFree_encodeEndpoint : PrefixFree (fun _ => True) encodeEndpoint :=
  Reveals.mono (prefixFree_toRepr.option rfl fun _ => rfl) fun _ _ _ _ => trivial

theorem prefixFree_encodeOptionalDigest : PrefixFree (fun _ => True) encodeOptionalDigest :=
  Reveals.mono (prefixFree_encodeDigest.option rfl fun _ => rfl) fun _ _ _ _ => trivial

theorem prefixFree_encodeFrontier : PrefixFree (fun entry : String × EdgeFrontier => TextFits entry.1) encodeFrontier := by
  have hedge := prefixFree_encodeText.comp Prod.fst fun (entry : String × EdgeFrontier) (h : TextFits entry.1) => h
  have hproducer := hedge.append (prefixFree_encodeEndpoint.field fun entry : String × EdgeFrontier => entry.2.producer)
  apply (hproducer.append (prefixFree_encodeEndpoint.field fun entry : String × EdgeFrontier => entry.2.consumer)).imp
  rintro ⟨e, p, c⟩ ⟨e', p', c'⟩ - - ⟨⟨rfl, rfl⟩, rfl⟩
  rfl

theorem prefixFree_encodeLeaf : PrefixFree (fun _ => True) encodeLeaf := by
  have hshard := prefixFree_word64.field (Prod.fst : UInt64 × LeafBinding → UInt64) (P := fun _ => True)
  have hproof := hshard.append (prefixFree_encodeDigest.field fun entry : UInt64 × LeafBinding => entry.2.proofDigest)
  have hstatement := hproof.append (prefixFree_encodeDigest.field fun entry : UInt64 × LeafBinding => entry.2.statementDigest)
  have hcircuit := hstatement.append (prefixFree_encodeDigest.field fun entry : UInt64 × LeafBinding => entry.2.circuitDigest)
  apply (hcircuit.append
    (prefixFree_encodeDigest.field fun entry : UInt64 × LeafBinding => entry.2.verificationKeyDigest)).imp
  rintro ⟨n, p, s, c, v⟩ ⟨n', p', s', c', v'⟩ - - ⟨⟨⟨⟨rfl, rfl⟩, rfl⟩, rfl⟩, rfl⟩
  rfl

theorem kindByte_injective : Function.Injective kindByte := by
  rintro (_ | _) (_ | _) h
  · rfl
  · cases h
  · cases h
  · rfl

theorem visibilityByte_injective : Function.Injective visibilityByte := by
  rintro (_ | _) (_ | _) h
  · rfl
  · cases h
  · cases h
  · rfl

def encodeTopology (node : Topology) : List UInt8 :=
  encodeChildId node.id ++ [UInt8.ofNat node.children.length] ++ node.children.flatMap encodeChildId

/-- The arity byte does not wrap. -/
theorem Topology.children_length_eq {a b : Topology} (h : UInt8.ofNat a.children.length = UInt8.ofNat b.children.length) :
    a.children.length = b.children.length := by
  have ha := a.arity.2
  have hb := b.arity.2
  have h := congrArg UInt8.toNat h
  rwa [UInt8.toNat_ofNat_of_lt' (lt_of_le_of_lt ha (by decide)), UInt8.toNat_ofNat_of_lt' (lt_of_le_of_lt hb (by decide))] at h

theorem prefixFree_encodeTopology : PrefixFree (fun _ => True) encodeTopology := by
  have hid := prefixFree_encodeChildId.field Topology.id (P := fun _ => True)
  have harity : Reveals (fun _ => True) (fun node : Topology => [UInt8.ofNat node.children.length])
      (fun a b => a.children.length = b.children.length) := by
    intro a b s t _ _ heq
    obtain ⟨hbyte, hst⟩ := List.cons.inj heq
    exact ⟨Topology.children_length_eq hbyte, hst⟩
  apply ((hid.append harity).andThen (S := fun a b => a.children = b.children) ?_).imp
  · rintro ⟨i, cs, _⟩ ⟨j, ds, _⟩ - - ⟨⟨rfl, -⟩, rfl⟩
    rfl
  · rintro a b s t - - ⟨-, hlength⟩ heq
    exact prefixFree_encodeChildId.flatMap (fun _ _ => trivial) (fun _ _ => trivial) hlength heq

/-- A level without the digests in its nodes. -/
def topologies (level : List AggregationNode) : List Topology := level.map AggregationNode.toTopology

def encodeTopologies (level : List Topology) : List UInt8 := toBytes 8 level.length ++ level.flatMap encodeTopology

theorem encodeTopologies_topologies (level : List AggregationNode) : encodeTopologies (topologies level) = encodeLevel level := by
  rw [encodeTopologies, topologies, List.length_map, List.flatMap_map]
  rfl

theorem prefixFree_encodeTopologies : PrefixFree (fun level => Machine level.length) encodeTopologies := by
  have hnothing : Reveals (fun level : List Topology => Machine level.length) (fun _ => []) _ := reveals_const []
  apply (hnothing.counted prefixFree_encodeTopology 8 id fun level h => ⟨h, fun _ _ => trivial⟩).imp
  rintro a b - - ⟨-, rfl⟩
  rfl

structure ExpectationFits (entry : UInt64 × LeafExpectation) : Prop where
  key : entry.2.shardId = entry.1
  shardName : TextFits entry.2.shardName
  executionBackend : TextFits entry.2.executionBackend.text
  proofFlavor : TextFits entry.2.proofFlavor.text
  inputCount : Machine entry.2.publicInputs.length
  inputs : ∀ descriptor ∈ entry.2.publicInputs, DescriptorFits descriptor
  outputCount : Machine entry.2.publicOutputs.length
  outputs : ∀ descriptor ∈ entry.2.publicOutputs, DescriptorFits descriptor

theorem prefixFree_encodeExpectation : PrefixFree ExpectationFits encodeExpectation := by
  have hshard := prefixFree_word64.field (Prod.fst : UInt64 × LeafExpectation → UInt64) (P := ExpectationFits)
  have hname := hshard.append
    (prefixFree_encodeText.comp (fun entry : UInt64 × LeafExpectation => entry.2.shardName) fun entry h => h.shardName)
  have hcircuit := hname.append
    (prefixFree_encodeDigest.field fun entry : UInt64 × LeafExpectation => entry.2.circuitDigest)
  have hkey := hcircuit.append
    (prefixFree_encodeDigest.field fun entry : UInt64 × LeafExpectation => entry.2.verificationKeyDigest)
  have hbackend := hkey.append (prefixFree_encodeText.comp
    (fun entry : UInt64 × LeafExpectation => entry.2.executionBackend.text) fun entry h => h.executionBackend)
  have hflavor := hbackend.append (prefixFree_encodeText.comp
    (fun entry : UInt64 × LeafExpectation => entry.2.proofFlavor.text) fun entry h => h.proofFlavor)
  have hinputs := hflavor.counted prefixFree_encodeBoundaryDescriptor 8
    (fun entry : UInt64 × LeafExpectation => entry.2.publicInputs) fun entry h => ⟨h.inputCount, h.inputs⟩
  apply (hinputs.counted prefixFree_encodeBoundaryDescriptor 8
    (fun entry : UInt64 × LeafExpectation => entry.2.publicOutputs) fun entry h => ⟨h.outputCount, h.outputs⟩).imp
  rintro ⟨k, i, n, c, v, ⟨b, _, _⟩, ⟨f, _, _⟩, is, os⟩ ⟨k', i', n', c', v', ⟨b', _, _⟩, ⟨f', _, _⟩, is', os'⟩ ⟨hk, -, -, -, -, -, -, -⟩
    ⟨hk', -, -, -, -, -, -, -⟩ ⟨⟨⟨⟨⟨⟨⟨hshard, rfl⟩, rfl⟩, rfl⟩, rfl⟩, rfl⟩, rfl⟩, rfl⟩
  dsimp only at hk hk' hshard
  subst hk hk' hshard
  rfl

end Parts

section Kinds

structure PlanPreimage where
  partitionDigest : Digest32
  fanIn : NonZeroU8
  leafCount : ℕ
  levels : List (List AggregationNode)
  root : AggregationChildId
  leafExpectationSetDigest : Option Digest32

def PlanPreimage.bytes (p : PlanPreimage) : List UInt8 :=
  aggregationPlanBytes p.partitionDigest p.fanIn p.leafCount p.levels p.root p.leafExpectationSetDigest

/-- The plans agree but for the digests that their nodes have stored. -/
structure PlanPreimage.Same (p q : PlanPreimage) : Prop where
  levels : p.levels.map topologies = q.levels.map topologies
  rest : p = { q with levels := p.levels }

structure PlanPreimage.Fits (p : PlanPreimage) : Prop where
  leafCount : Machine p.leafCount
  levelCount : Machine p.levels.length
  levels : ∀ level ∈ p.levels, Machine level.length

theorem PlanPreimage.bytes_reveal : Reveals PlanPreimage.Fits PlanPreimage.bytes PlanPreimage.Same := by
  have hdomain : Reveals PlanPreimage.Fits (fun _ => utf8 "zkie.native-aggregation-plan.v2\x00") _ := reveals_const _
  have hpartition := hdomain.append (prefixFree_encodeDigest.field PlanPreimage.partitionDigest)
  have hset := hpartition.append (prefixFree_encodeOptionalDigest.field PlanPreimage.leafExpectationSetDigest)
  have hfan := hset.append ((prefixFree_tag Function.injective_id).field fun p : PlanPreimage => p.fanIn.get)
  have hcount := hfan.append (prefixFree_u64.comp PlanPreimage.leafCount fun p h => h.leafCount)
  have hlevels := hcount.counted prefixFree_encodeTopologies 8 (fun p : PlanPreimage => p.levels.map topologies) fun p h => by
    rw [List.length_map]
    refine ⟨h.levelCount, fun level hlevel => ?_⟩
    obtain ⟨nodes, hnodes, rfl⟩ := List.mem_map.mp hlevel
    rw [topologies, List.length_map]
    exact h.levels nodes hnodes
  simp only [List.length_map, List.flatMap_map, encodeTopologies_topologies] at hlevels
  apply (hlevels.append (prefixFree_encodeChildId.field PlanPreimage.root)).imp
  rintro ⟨d, ⟨f, _⟩, n, ls, r, e⟩ ⟨d', ⟨f', _⟩, n', ls', r', e'⟩ - - ⟨⟨⟨⟨⟨⟨-, rfl⟩, rfl⟩, hfan⟩, rfl⟩, hlevels⟩, rfl⟩
  dsimp only at hfan hlevels
  subst hfan
  exact ⟨hlevels, rfl⟩

structure ExpectationsPreimage where
  partitionDigest : Digest32
  leaves : Std.ExtTreeMap UInt64 LeafExpectation

def ExpectationsPreimage.bytes (p : ExpectationsPreimage) : List UInt8 := leafExpectationSetBytes p.partitionDigest p.leaves

structure ExpectationsPreimage.Fits (p : ExpectationsPreimage) : Prop where
  count : Machine p.leaves.toList.length
  leaves : ∀ entry ∈ p.leaves.toList, ExpectationFits entry

theorem ExpectationsPreimage.bytes_prefixFree : PrefixFree ExpectationsPreimage.Fits ExpectationsPreimage.bytes := by
  have hdomain : Reveals ExpectationsPreimage.Fits (fun _ => utf8 "zkie.leaf-expectation-set.v1\x00") _ := reveals_const _
  have hpartition := hdomain.append (prefixFree_encodeDigest.field ExpectationsPreimage.partitionDigest)
  apply (hpartition.counted prefixFree_encodeExpectation 8 (fun p : ExpectationsPreimage => p.leaves.toList)
    fun p h => ⟨h.count, h.leaves⟩).imp
  rintro ⟨d, ls⟩ ⟨d', ls'⟩ - - ⟨⟨-, rfl⟩, hleaves⟩
  obtain rfl : ls = ls' := Std.ExtTreeMap.toList_inj.mp hleaves
  rfl

structure ClaimFits (claim : VerifiedClaim) : Prop where
  proofFlavor : TextFits claim.proofFlavor.text
  covered : Machine claim.coveredShards.toList.length
  frontierCount : Machine claim.frontier.toList.length
  frontier : ∀ entry ∈ claim.frontier.toList, TextFits entry.1
  closedCount : Machine claim.closedEdges.toList.length
  closed : ∀ edge ∈ claim.closedEdges.toList, TextFits edge
  inputCount : Machine claim.publicInputs.length
  inputs : ∀ binding ∈ claim.publicInputs, DescriptorFits binding.descriptor
  outputCount : Machine claim.publicOutputs.length
  outputs : ∀ binding ∈ claim.publicOutputs, DescriptorFits binding.descriptor
  leaves : Machine claim.leaves.toList.length

/-- The claims agree but for the digests that they have stored. -/
def SameClaim (a b : VerifiedClaim) : Prop := a = { b with digest := a.digest }

theorem reveals_claimBytes : Reveals ClaimFits claimBytes SameClaim := by
  have hdomain : Reveals ClaimFits (fun _ => utf8 "zkie.verified-aggregation-claim.v2\x00") _ := reveals_const _
  have hid := hdomain.append (prefixFree_encodeChildId.field VerifiedClaim.id)
  have haggregation := hid.append (prefixFree_encodeDigest.field VerifiedClaim.aggregationDigest)
  have hrun := haggregation.append (prefixFree_encodeDigest.field VerifiedClaim.runIdentityDigest)
  have hpartition := hrun.append (prefixFree_encodeDigest.field VerifiedClaim.partitionDigest)
  have hmodel := hpartition.append (prefixFree_encodeDigest.field VerifiedClaim.modelDigest)
  have hweights := hmodel.append (prefixFree_encodeDigest.field VerifiedClaim.weightsDigest)
  have hflavor := hweights.append
    (prefixFree_encodeText.comp (fun claim : VerifiedClaim => claim.proofFlavor.text) fun claim h => h.proofFlavor)
  have hcovered := (hflavor.append (reveals_const (utf8 "covered\x00"))).counted prefixFree_word64 8
    (fun claim => claim.coveredShards.toList) fun claim h => ⟨h.covered, fun _ _ => trivial⟩
  have hfrontier := (hcovered.append (reveals_const (utf8 "frontier\x00"))).counted prefixFree_encodeFrontier 8
    (fun claim => claim.frontier.toList) fun claim h => ⟨h.frontierCount, h.frontier⟩
  have hclosed := (hfrontier.append (reveals_const (utf8 "closed\x00"))).counted prefixFree_encodeText 8
    (fun claim => claim.closedEdges.toList) fun claim h => ⟨h.closedCount, h.closed⟩
  have hinputs := (hclosed.append (reveals_const (utf8 "public-inputs\x00"))).counted prefixFree_encodeBinding 8
    VerifiedClaim.publicInputs fun claim h => ⟨h.inputCount, h.inputs⟩
  have houtputs := (hinputs.append (reveals_const (utf8 "public-outputs\x00"))).counted prefixFree_encodeBinding 8
    VerifiedClaim.publicOutputs fun claim h => ⟨h.outputCount, h.outputs⟩
  have hleaves := (houtputs.append (reveals_const (utf8 "leaves\x00"))).counted prefixFree_encodeLeaf 8
    (fun claim => claim.leaves.toList) fun claim h => ⟨h.leaves, fun _ _ => trivial⟩
  apply hleaves.imp
  rintro ⟨i, a, r, p, m, w, ⟨f, _, _⟩, cs, fs, es, is, os, ls, d⟩ ⟨i', a', r', p', m', w', ⟨f', _, _⟩, cs', fs', es', is', os', ls', d'⟩ - -
    ⟨⟨⟨⟨⟨⟨⟨⟨⟨⟨⟨⟨⟨⟨⟨⟨⟨⟨⟨-, rfl⟩, rfl⟩, rfl⟩, rfl⟩, rfl⟩, rfl⟩, hflavor⟩, -⟩, hcovered⟩, -⟩, hfrontier⟩, -⟩, hclosed⟩, -⟩,
      hinputs⟩, -⟩, houtputs⟩, -⟩, hleaves⟩
  dsimp only at hflavor hcovered hfrontier hclosed hinputs houtputs hleaves
  obtain rfl := Std.ExtTreeSet.toList_inj.mp hcovered
  obtain rfl := Std.ExtTreeMap.toList_inj.mp hfrontier
  obtain rfl := Std.ExtTreeSet.toList_inj.mp hclosed
  obtain rfl := Std.ExtTreeMap.toList_inj.mp hleaves
  subst hflavor hinputs houtputs
  rfl

structure ManifestFits (manifest : VerifiedManifest) : Prop where
  leafCount : Machine manifest.leafCount
  proofFlavor : TextFits manifest.proofFlavor.text
  inputCount : Machine manifest.publicInputs.length
  inputs : ∀ boundary ∈ manifest.publicInputs, WireFits boundary
  outputCount : Machine manifest.publicOutputs.length
  outputs : ∀ boundary ∈ manifest.publicOutputs, WireFits boundary

/-- The manifests agree but for the digests that they have stored. -/
def SameManifest (a b : VerifiedManifest) : Prop := a = { b with manifestDigest := a.manifestDigest }

theorem reveals_manifestBytes : Reveals ManifestFits manifestBytes SameManifest := by
  have hdomain : Reveals ManifestFits (fun _ => utf8 "zkie.native-verified-manifest.v2\x00") _ := reveals_const _
  have hkind := hdomain.append ((prefixFree_tag kindByte_injective).field VerifiedManifest.kind)
  have haggregation := hkind.append (prefixFree_encodeDigest.field VerifiedManifest.aggregationDigest)
  have hpartition := haggregation.append (prefixFree_encodeDigest.field VerifiedManifest.partitionDigest)
  have hroot := hpartition.append (prefixFree_encodeDigest.field VerifiedManifest.rootClaimDigest)
  have hmodel := hroot.append (prefixFree_encodeDigest.field VerifiedManifest.modelDigest)
  have hweights := hmodel.append (prefixFree_encodeDigest.field VerifiedManifest.weightsDigest)
  have hcount := hweights.append (prefixFree_u64.comp VerifiedManifest.leafCount fun manifest h => h.leafCount)
  have hflavor := hcount.append
    (prefixFree_encodeText.comp (fun manifest : VerifiedManifest => manifest.proofFlavor.text) fun manifest h => h.proofFlavor)
  have hinputs := (hflavor.append (reveals_const (utf8 "public-inputs\x00"))).counted prefixFree_encodeWire 8
    VerifiedManifest.publicInputs fun manifest h => ⟨h.inputCount, h.inputs⟩
  have houtputs := (hinputs.append (reveals_const (utf8 "public-outputs\x00"))).counted prefixFree_encodeWire 8
    VerifiedManifest.publicOutputs fun manifest h => ⟨h.outputCount, h.outputs⟩
  apply houtputs.imp
  rintro ⟨k, a, p, r, n, m, w, ⟨f, _, _⟩, is, os, d⟩ ⟨k', a', p', r', n', m', w', ⟨f', _, _⟩, is', os', d'⟩ - -
    ⟨⟨⟨⟨⟨⟨⟨⟨⟨⟨⟨⟨-, rfl⟩, rfl⟩, rfl⟩, rfl⟩, rfl⟩, rfl⟩, rfl⟩, hflavor⟩, -⟩, rfl⟩, -⟩, rfl⟩
  dsimp only at hflavor
  subst hflavor
  rfl

theorem RunIdentity.bytes_prefixFree : PrefixFree (fun run : RunIdentity => TextFits run.proofFlavor.text) RunIdentity.bytes := by
  have hdomain : Reveals (fun run : RunIdentity => TextFits run.proofFlavor.text) (fun _ => utf8 "zkie.run-identity.v1") _ :=
    reveals_const _
  have hgraph := hdomain.append (prefixFree_encodeDigest.field RunIdentity.modelGraphDigest)
  have hweights := hgraph.append (prefixFree_encodeDigest.field RunIdentity.weightsDigest)
  have hcompiler := hweights.append (prefixFree_encodeDigest.field RunIdentity.compilerDigest)
  have hisa := hcompiler.append (prefixFree_encodeDigest.field RunIdentity.isaDigest)
  have hquantization := hisa.append (prefixFree_encodeDigest.field RunIdentity.quantizationDigest)
  have hpartition := hquantization.append (prefixFree_encodeDigest.field RunIdentity.partitionPlanDigest)
  have haggregation := hpartition.append (prefixFree_encodeDigest.field RunIdentity.aggregationPlanDigest)
  have hflavor := haggregation.append
    (prefixFree_encodeText.comp (fun run : RunIdentity => run.proofFlavor.text) fun _ h => h)
  have hvisibility := hflavor.append ((prefixFree_tag visibilityByte_injective).field RunIdentity.modelVisibility)
  have hfan := hvisibility.append (prefixFree_word32.field RunIdentity.aggregationFanIn)
  apply (hfan.append (prefixFree_word32.field RunIdentity.publicInputSchemaVersion)).imp
  rintro ⟨g, w, c, i, q, p, a, ⟨f, _, _⟩, v, n, s⟩ ⟨g', w', c', i', q', p', a', ⟨f', _, _⟩, v', n', s'⟩ - -
    ⟨⟨⟨⟨⟨⟨⟨⟨⟨⟨⟨-, rfl⟩, rfl⟩, rfl⟩, rfl⟩, rfl⟩, rfl⟩, rfl⟩, hflavor⟩, rfl⟩, rfl⟩, rfl⟩
  dsimp only at hflavor
  subst hflavor
  rfl

end Kinds

section Bound

inductive Kind where
  | plan
  | expectations
  | claim
  | manifest
  | run
  deriving DecidableEq, Repr

def Kind.domain : Kind → List UInt8
  | .plan => utf8 "zkie.native-aggregation-plan.v2\x00"
  | .expectations => utf8 "zkie.leaf-expectation-set.v1\x00"
  | .claim => utf8 "zkie.verified-aggregation-claim.v2\x00"
  | .manifest => utf8 "zkie.native-verified-manifest.v2\x00"
  | .run => utf8 "zkie.run-identity.v1"

theorem Kind.domain_length (k : Kind) : 13 ≤ k.domain.length := by
  cases k <;> decide +kernel

/-- The domains differ in the first letters behind the name of the program. -/
theorem Kind.eq_of_take {k l : Kind} (h : k.domain.take 13 = l.domain.take 13) : k = l := by
  revert h
  cases k <;> cases l <;> decide +kernel

theorem Kind.eq_of_domain {k l : Kind} {s t : List UInt8} (h : k.domain ++ s = l.domain ++ t) : k = l := by
  have h := congrArg (List.take 13) h
  rw [List.take_append_of_le_length k.domain_length, List.take_append_of_le_length l.domain_length] at h
  exact Kind.eq_of_take h

/-- The arguments of the five digests. -/
inductive Hashed where
  | plan (p : PlanPreimage)
  | expectations (p : ExpectationsPreimage)
  | claim (claim : VerifiedClaim)
  | manifest (manifest : VerifiedManifest)
  | run (run : RunIdentity)

namespace Hashed

def digest (blake3 : Blake3) : Hashed → Digest32
  | .plan p => aggregationPlanDigest blake3 p.partitionDigest p.fanIn p.leafCount p.levels p.root p.leafExpectationSetDigest
  | .expectations p => leafExpectationSetDigest blake3 p.partitionDigest p.leaves
  | .claim c => claimDigest blake3 c
  | .manifest m => manifestDigest blake3 m
  | .run r => r.canonicalDigest blake3

def bytes : Hashed → List UInt8
  | .plan p => p.bytes
  | .expectations p => p.bytes
  | .claim c => claimBytes c
  | .manifest m => manifestBytes m
  | .run r => r.bytes

/-- Texts, lists and counts have the sizes that a program can hold, and expectations stand under their shards. -/
def Fits : Hashed → Prop
  | .plan p => p.Fits
  | .expectations p => p.Fits
  | .claim c => ClaimFits c
  | .manifest m => ManifestFits m
  | .run r => TextFits r.proofFlavor.text

/-- Of the same kind, and the same but for stored digests. -/
def Same : Hashed → Hashed → Prop
  | .plan p, .plan q => p.Same q
  | .expectations p, .expectations q => p = q
  | .claim a, .claim b => SameClaim a b
  | .manifest a, .manifest b => SameManifest a b
  | .run a, .run b => a = b
  | _, _ => False

def kind : Hashed → Kind
  | .plan _ => .plan
  | .expectations _ => .expectations
  | .claim _ => .claim
  | .manifest _ => .manifest
  | .run _ => .run

theorem digest_eq (blake3 : Blake3) (h : Hashed) : h.digest blake3 = ⟨blake3 h.bytes⟩ := by
  cases h <;> rfl

theorem domain_prefix (h : Hashed) : h.kind.domain <+: h.bytes := by
  cases h with
  | plan p =>
      change utf8 "zkie.native-aggregation-plan.v2\x00" <+: p.bytes
      unfold PlanPreimage.bytes aggregationPlanBytes
      generalize utf8 "zkie.native-aggregation-plan.v2\x00" = domain
      repeat apply List.prefix_append_of_prefix
      exact List.prefix_rfl
  | expectations p =>
      change utf8 "zkie.leaf-expectation-set.v1\x00" <+: p.bytes
      unfold ExpectationsPreimage.bytes leafExpectationSetBytes
      generalize utf8 "zkie.leaf-expectation-set.v1\x00" = domain
      repeat apply List.prefix_append_of_prefix
      exact List.prefix_rfl
  | claim c =>
      change utf8 "zkie.verified-aggregation-claim.v2\x00" <+: claimBytes c
      unfold claimBytes
      generalize utf8 "zkie.verified-aggregation-claim.v2\x00" = domain
      repeat apply List.prefix_append_of_prefix
      exact List.prefix_rfl
  | manifest m =>
      change utf8 "zkie.native-verified-manifest.v2\x00" <+: manifestBytes m
      unfold manifestBytes
      generalize utf8 "zkie.native-verified-manifest.v2\x00" = domain
      repeat apply List.prefix_append_of_prefix
      exact List.prefix_rfl
  | run r =>
      change utf8 "zkie.run-identity.v1" <+: r.bytes
      unfold RunIdentity.bytes
      generalize utf8 "zkie.run-identity.v1" = domain
      repeat apply List.prefix_append_of_prefix
      exact List.prefix_rfl

theorem kind_eq {a b : Hashed} (h : a.bytes = b.bytes) : a.kind = b.kind := by
  obtain ⟨s, hs⟩ := a.domain_prefix
  obtain ⟨t, ht⟩ := b.domain_prefix
  rw [← hs, ← ht] at h
  exact Kind.eq_of_domain h

theorem same_of_bytes {a b : Hashed} (ha : a.Fits) (hb : b.Fits) (h : a.bytes = b.bytes) : a.Same b := by
  have hkind := kind_eq h
  cases a with
  | plan p =>
      cases b with
      | plan q => exact PlanPreimage.bytes_reveal.of_eq ha hb h
      | _ => cases hkind
  | expectations p =>
      cases b with
      | expectations q => exact ExpectationsPreimage.bytes_prefixFree.of_eq ha hb h
      | _ => cases hkind
  | claim c =>
      cases b with
      | claim d => exact reveals_claimBytes.of_eq ha hb h
      | _ => cases hkind
  | manifest m =>
      cases b with
      | manifest n => exact reveals_manifestBytes.of_eq ha hb h
      | _ => cases hkind
  | run r =>
      cases b with
      | run s => exact RunIdentity.bytes_prefixFree.of_eq ha hb h
      | _ => cases hkind

end Hashed

/-- Each digest is the hash of a byte string that determines the kind of its argument and everything in it. -/
theorem digests_bind (blake3 : Blake3) :
    (∀ h : Hashed, h.digest blake3 = ⟨blake3 h.bytes⟩) ∧
      ∀ a b : Hashed, a.Fits → b.Fits → a.bytes = b.bytes → a.Same b :=
  ⟨Hashed.digest_eq blake3, fun _ _ => Hashed.same_of_bytes⟩

def zeroDigest : Digest32 := ⟨Vector.replicate 32 0⟩

/-- The claim of a leaf whose outgoing edge is open. -/
def openLeaf : VerifiedClaim where
  id := .leaf 0
  aggregationDigest := zeroDigest
  runIdentityDigest := zeroDigest
  partitionDigest := zeroDigest
  modelDigest := zeroDigest
  weightsDigest := zeroDigest
  proofFlavor := ⟨"kzg", by decide, by simp⟩
  coveredShards := {0}
  frontier := {("v0:0->1", ⟨some 5, none⟩)}
  closedEdges := ∅
  publicInputs := []
  publicOutputs := []
  leaves := {(0, ⟨zeroDigest, zeroDigest, zeroDigest, zeroDigest⟩)}
  digest := zeroDigest

theorem openLeaf_fits : ClaimFits openLeaf where
  proofFlavor := by decide +kernel
  covered := by decide +kernel
  frontierCount := by decide +kernel
  frontier := by decide +kernel
  closedCount := by decide +kernel
  closed := by decide +kernel
  inputCount := by decide +kernel
  inputs := by simp [openLeaf]
  outputCount := by decide +kernel
  outputs := by simp [openLeaf]
  leaves := by decide +kernel

theorem ClaimFits.withDigest {claim : VerifiedClaim} (h : ClaimFits claim) (digest : Digest32) :
    ClaimFits { claim with digest } :=
  ⟨h.proofFlavor, h.covered, h.frontierCount, h.frontier, h.closedCount, h.closed, h.inputCount, h.inputs, h.outputCount,
    h.outputs, h.leaves⟩

def sealedLeaf : VerifiedClaim := { openLeaf with digest := ⟨Vector.replicate 32 1⟩ }

/-- The digest is computed while its own slot is still zero. -/
theorem digests_bind_sealedLeaf : SameClaim openLeaf sealedLeaf :=
  (digests_bind fun _ => Vector.replicate 32 0).2 (.claim openLeaf) (.claim sealedLeaf) openLeaf_fits
    (openLeaf_fits.withDigest _) rfl

end Bound

end Zkie.AggregationDigest
