import Zkie.ClaimFlow
import Zkie.ShardedRun

namespace Zkie.ManifestFlow

open AggregationDigest AggregationTree Checked ClaimFlow ClaimMerging LeafClaims NativeManifest
open BuildDag (Dag Edge)
open PoseidonBoundary (Blake3 BoundaryDescriptor)
open Statement (BoundaryClaim LeafStatement)
open ScalarField (Fr)
open VerifyProof (ShardIdentity VerifiedProof cpu flatDigest flatHash kzg validBytes validText)
open Zkie.Partition (PartitionPlan)
open Std (ExtTreeMap ExtTreeSet)

section Leaf

variable {statements : UInt64 → Option LeafStatement} {index : DagIndex} {L : UInt64 → LeafStatement → Prop} {edges : List Edge} {n : ℕ}
  {shardId : UInt64} {statement : LeafStatement} {claim : VerifiedClaim}

theorem word_eq {k : ℕ} (hk : k < n) (hn : n ≤ maxLeaves) : UInt64.ofNat k = shardId ↔ k = shardId.toNat := by
  have hlt : k < 2 ^ 64 := Nat.lt_of_lt_of_le hk (Nat.le_trans hn (by decide))
  rw [← UInt64.toNat_inj, UInt64.toNat_ofNat_of_lt' hlt]

theorem mem_single {s : UInt64} : s ∈ ExtTreeSet.ofList [shardId] ↔ s = shardId := by
  rw [eq_comm (a := s)]
  simp

/-- The claims of a leaf know the edges that they speak of. -/
theorem edge_of_claim (hchecked : Checked index shardId statement) {id : String}
    (h : (commitmentOf statement.outputClaims id).isSome ∨ (commitmentOf statement.inputClaims id).isSome) :
    ∃ edge, index.edgesById[id]? = some edge := by
  rcases h with h | h
  · obtain ⟨m, hm, rfl⟩ := List.mem_map.mp (mem_mentions_iff.mpr h)
    obtain ⟨edge, hedge, -⟩ := hchecked.outputs m hm
    exact ⟨edge, hedge⟩
  · obtain ⟨m, hm, rfl⟩ := List.mem_map.mp (mem_mentions_iff.mpr h)
    obtain ⟨edge, hedge, -⟩ := hchecked.inputs m hm
    exact ⟨edge, hedge⟩

theorem leaf_flow (hindex : Indexes edges n index) (hn : n ≤ maxLeaves) (hstatement : statements shardId = some statement)
    (hchecked : Checked index shardId statement) (hclaim : LeafClaim statement shardId claim) :
    Flow statements index claim.coveredShards claim.frontier claim.closedEdges := by
  rw [hclaim.covered, hclaim.closed]
  refine ⟨fun id => ?_, fun id hid => absurd hid (by simp)⟩
  rw [hclaim.frontier, opened]
  cases hedge : index.edgesById[id]? with
  | none =>
      rw [if_neg fun h => by
        obtain ⟨edge, hsome⟩ := edge_of_claim hchecked h
        rw [hedge] at hsome
        cases hsome]
      rfl
  | some edge =>
      obtain ⟨hmem, -⟩ := (hindex.mem id edge).mp hedge
      obtain ⟨hlt, hconsumer⟩ := hindex.ends edge hmem
      have hproduced := hchecked.produced id edge hedge
      have hconsumed := hchecked.consumed id edge hedge
      have hends : Meets (ExtTreeSet.ofList [shardId]) edge ↔ edge.producer = shardId.toNat ∨ edge.consumer = shardId.toNat := by
        rw [Meets, mem_single, mem_single, word_eq (Nat.lt_trans hlt hconsumer) hn, word_eq hconsumer hn]
      have hsides : sides statements (ExtTreeSet.ofList [shardId]) id edge = leafEntry statement id := by
        rw [sides, leafEntry]
        congr 1
        · split
          · next h =>
            rw [mem_single.mp h, claimed, hstatement]
            rfl
          · next h =>
            rw [mem_single, word_eq (Nat.lt_trans hlt hconsumer) hn, ← hproduced, Option.not_isSome_iff_eq_none] at h
            exact h.symm
        · split
          · next h =>
            rw [mem_single.mp h, claimed, hstatement]
            rfl
          · next h =>
            rw [mem_single, word_eq hconsumer hn, ← hconsumed, Option.not_isSome_iff_eq_none] at h
            exact h.symm
      rw [Option.bind_some, hsides]
      simp only [hproduced, hconsumed, hends, ExtTreeSet.not_mem_empty, not_false_eq_true, true_and]

theorem leaf_sound (hindex : Indexes edges n index) (hn : n ≤ maxLeaves) (hstatement : statements shardId = some statement)
    (hL : L shardId statement) (hchecked : Checked index shardId statement) (hclaim : LeafClaim statement shardId claim) :
    Sound statements index L claim := by
  have hlist : (ExtTreeSet.ofList [shardId]).toList = [shardId] := rfl
  refine ⟨?_, fun s hs => ?_, fun s => ?_, leaf_flow hindex hn hstatement hchecked hclaim, fun id edge hedge hinside => ?_, fun b => ?_, ?_⟩
  · rw [hclaim.covered, hlist]
    exact Nat.le_refl 1
  · rw [hclaim.covered] at hs
    obtain rfl := mem_single.mp hs
    exact ⟨statement, hstatement, hL⟩
  · rw [hclaim.leaves, hclaim.covered, mem_single]
  · -- no edge goes from a shard to itself
    obtain ⟨hmem, -⟩ := (hindex.mem id edge).mp hedge
    obtain ⟨hlt, hconsumer⟩ := hindex.ends edge hmem
    rw [hclaim.covered, Inside, mem_single, mem_single, word_eq (Nat.lt_trans hlt hconsumer) hn, word_eq hconsumer hn] at hinside
    omega
  · rw [hclaim.publicInputs, hclaim.covered]
    constructor
    · intro hb
      exact ⟨shardId, mem_single.mpr rfl, statement, hstatement, hb⟩
    · rintro ⟨s, hs, other, hother, hb⟩
      rw [mem_single.mp hs, hstatement] at hother
      cases hother
      exact hb
  · rw [hclaim.publicOutputs, hclaim.covered, hlist, List.flatMap_singleton, outputsOf, hstatement]
    exact .refl _

end Leaf

section Admission

variable {blake3 : Blake3} {plan : AggregationPlan} {partition : PartitionPlan} {run : RunIdentity} {proofs : List (VerifiedProof blake3)}
  {set : LeafExpectationSet} {index : DagIndex} {statements : UInt64 → Option LeafStatement} {L : UInt64 → LeafStatement → Prop}

/-- The statement that the proof of a shard comes with. -/
def statementOf (proofs : List (VerifiedProof blake3)) (shard : UInt64) : Option LeafStatement :=
  proofs[shard.toNat]?.bind fun proof => (LeafStatement.decode proof.proof.publicStatement).toOption

/-- A leaf that is the expected one and fits the graph. -/
structure Fits (partition : PartitionPlan) (run : RunIdentity) (set : LeafExpectationSet) (index : DagIndex) (shardId : UInt64)
    (statement : LeafStatement) : Prop where
  identified : Identified partition run set shardId statement
  checked : Checked index shardId statement

/-- The public boundaries of a claim are those of its one leaf as they are, or merged ones. -/
inductive Published (statements : UInt64 → Option LeafStatement) (claim : VerifiedClaim) : Prop
  | leaf (shard : UInt64) (statement : LeafStatement) (stated : statements shard = some statement)
      (covered : claim.coveredShards = ExtTreeSet.ofList [shard]) (inputs : claim.publicInputs = publicBindings false statement.inputClaims)
      (outputs : claim.publicOutputs = publicBindings true statement.outputClaims)
  | merged (canonical : Canonical statements claim)

structure Accounted (statements : UInt64 → Option LeafStatement) (index : DagIndex) (L : UInt64 → LeafStatement → Prop)
    (claim : VerifiedClaim) : Prop where
  sound : Sound statements index L claim
  published : Published statements claim

theorem merge_accounted {node : AggregationNode} {children : List VerifiedClaim} {claim : VerifiedClaim}
    (hchildren : ∀ child ∈ children, Accounted statements index L child)
    (hok : mergeVerifiedClaimsIndexed blake3 index node children = .ok claim) : Accounted statements index L claim := by
  obtain ⟨hsound, hcanonical⟩ := merge_sound (fun child hchild => (hchildren child hchild).sound) hok
  exact ⟨hsound, .merged hcanonical⟩

theorem admit_accounted (hindex : Indexes partition.dag.edges partition.shards.length index) (hn : partition.shards.length ≤ maxLeaves)
    {proof : VerifiedProof blake3} (hplace : proofs[proof.proof.shard.id.toNat]? = some proof) {claim : VerifiedClaim}
    (hclaim : admitVerifiedLeafIndexed plan partition run proof set index = .ok claim) :
    ∃ statement, LeafStatement.decode proof.proof.publicStatement = .ok statement ∧
      Fits partition run set index proof.proof.shard.id statement ∧ LeafClaim statement proof.proof.shard.id claim ∧
        Accounted (statementOf proofs) index (Fits partition run set index) claim := by
  obtain ⟨statement, hdecode, hidentified, hchecked, hleaf⟩ := admit_ok hindex hclaim
  have hstatement : statementOf proofs proof.proof.shard.id = some statement := by
    rw [statementOf, hplace, Option.bind_some, hdecode]
    rfl
  have hfits : Fits partition run set index proof.proof.shard.id statement := ⟨hidentified, hchecked⟩
  exact ⟨statement, hdecode, hfits, hleaf, leaf_sound hindex hn hstatement hfits hchecked hleaf,
    .leaf proof.proof.shard.id statement hstatement hleaf.covered hleaf.publicInputs hleaf.publicOutputs⟩

theorem admitProof_ok (hindex : Indexes partition.dag.edges partition.shards.length index) (hn : partition.shards.length ≤ maxLeaves)
    {entry : VerifiedProof blake3 × ℕ} (hplace : proofs[entry.2]? = some entry.1) {claims claims' : ExtTreeMap AggregationChildId VerifiedClaim}
    (hok : admitProof plan partition run set index claims entry = .ok claims') :
    ∃ claim statement, claims' = claims.insert claim.id claim ∧ LeafStatement.decode entry.1.proof.publicStatement = .ok statement ∧
      Fits partition run set index (UInt64.ofNat entry.2) statement ∧
        Accounted (statementOf proofs) index (Fits partition run set index) claim := by
  obtain ⟨_, horder, hok⟩ := bind_eq_ok.mp hok
  obtain ⟨claim, hclaim, hok⟩ := bind_eq_ok.mp hok
  obtain ⟨_, -, hok⟩ := bind_eq_ok.mp hok
  cases hok
  have hplaced : entry.1.proof.shard.id.toNat = entry.2 := not_not.mp (refuse_ok.mp horder)
  obtain ⟨statement, hdecode, hfits, -, haccounted⟩ := admit_accounted hindex hn (hplaced ▸ hplace) hclaim
  refine ⟨claim, statement, rfl, hdecode, ?_, haccounted⟩
  rwa [← hplaced, UInt64.ofNat_toNat]

theorem admitProofs_ok (hindex : Indexes partition.dag.edges partition.shards.length index) (hn : partition.shards.length ≤ maxLeaves)
    {claims : ExtTreeMap AggregationChildId VerifiedClaim}
    (hok : proofs.zipIdx.foldlM (admitProof plan partition run set index) ∅ = .ok claims) :
    Holds (Accounted (statementOf proofs) index (Fits partition run set index)) claims ∧
      ∀ s proof, proofs[s]? = some proof → ∃ statement, LeafStatement.decode proof.proof.publicStatement = .ok statement ∧
        Fits partition run set index (UInt64.ofNat s) statement := by
  have hplaces : ∀ entry ∈ proofs.zipIdx, proofs[entry.2]? = some entry.1 := fun entry hentry =>
    List.mem_zipIdx_iff_getElem?.mp hentry
  constructor
  · have hfold := foldlM_builds
      (I := fun done claims => (∀ entry ∈ done, proofs[entry.2]? = some entry.1) →
        Holds (Accounted (statementOf proofs) index (Fits partition run set index)) claims)
      (fun done claims entry claims' hdone hstep hall => by
        rw [List.forall_mem_append, List.forall_mem_singleton] at hall
        obtain ⟨claim, _, rfl, -, -, haccounted⟩ := admitProof_ok hindex hn hall.2 hstep
        exact (hdone hall.1).insert haccounted claim.id) [] (fun _ => Holds.empty) hok
    exact hfold hplaces
  · intro s proof hproof
    obtain ⟨_, _, hstep⟩ := foldlM_ok_step hok (x := (proof, s)) (List.mem_zipIdx_iff_getElem?.mpr hproof)
    obtain ⟨_, statement, -, hdecode, hfits, -⟩ := admitProof_ok hindex hn hproof hstep
    exact ⟨statement, hdecode, hfits⟩

end Admission

section Root

variable {serde : SerdeJson} {blake3 : Blake3} {plan : AggregationPlan} {partition : PartitionPlan} {run : RunIdentity}
  {proofs : List (VerifiedProof blake3)} {set : LeafExpectationSet} {index : DagIndex} {statements : List LeafStatement}
  {manifest : VerifiedManifest} {root : VerifiedClaim}

/-- What a root claim was found to be before its manifest was made. -/
structure Final (plan : AggregationPlan) (partition : PartitionPlan) (run : RunIdentity) (root : VerifiedClaim) : Prop where
  covered : ∀ shard ∈ partition.shards, UInt64.ofNat shard.id ∈ root.coveredShards
  closed : ∀ edge ∈ partition.dag.edges, String.ofList edge.id ∈ root.closedEdges
  model : root.modelDigest = run.modelGraphDigest
  weights : root.weightsDigest = run.weightsDigest
  flavor : root.proofFlavor = run.proofFlavor
  leaves : root.leaves.size = partition.shards.length

theorem refuseFirst_find_ok {α : Type} {p : α → Bool} {xs : List α} {error : α → AggregationError} {u : Unit}
    (h : refuseFirst (xs.find? p) error = .ok u) : ∀ x ∈ xs, p x = false := by
  cases hfound : xs.find? p with
  | none => exact fun x hx => Bool.not_eq_true _ ▸ List.find?_eq_none.mp hfound x hx
  | some x =>
      rw [hfound] at h
      cases h

theorem finalize_final (h : finalizeNativeManifest serde blake3 plan partition run root = .ok manifest) :
    Final plan partition run root ∧ manifest = rootManifest blake3 plan partition root := by
  obtain ⟨_, -, h⟩ := bind_eq_ok.mp h
  obtain ⟨_, -, h⟩ := bind_eq_ok.mp h
  obtain ⟨_, -, h⟩ := bind_eq_ok.mp h
  obtain ⟨_, hcovered, h⟩ := bind_eq_ok.mp h
  obtain ⟨_, hclosed, h⟩ := bind_eq_ok.mp h
  obtain ⟨_, -, h⟩ := bind_eq_ok.mp h
  obtain ⟨_, hsame, h⟩ := bind_eq_ok.mp h
  obtain ⟨_, -, h⟩ := bind_eq_ok.mp h
  cases h
  have hsame := refuse_ok.mp hsame
  simp only [not_or, not_not, ne_eq] at hsame
  obtain ⟨hmodel, hweights, hflavor, -, hleaves⟩ := hsame
  refine ⟨⟨fun shard hshard => ?_, fun edge hedge => ?_, hmodel, hweights, hflavor, hleaves⟩, rfl⟩
  · simpa using refuseFirst_find_ok hcovered shard hshard
  · simpa using refuseFirst_find_ok hclosed edge hedge

/-- The claims of an edge name it, and its register. -/
def Carries (edge : Edge) (claim : BoundaryClaim) : Prop :=
  String.ofList edge.id ∈ claim.descriptor.edgeIds ∧ claim.descriptor.registerId = registerId edge.register

/-- The two ends of an edge have the same commitment for it. -/
structure Connected (statements : List LeafStatement) (edge : Edge) (producer consumer : LeafStatement) (output input : BoundaryClaim) :
    Prop where
  fromProducer : statements[edge.producer]? = some producer
  toConsumer : statements[edge.consumer]? = some consumer
  produced : output ∈ producer.outputClaims ∧ Carries edge output
  consumed : input ∈ consumer.inputClaims ∧ Carries edge input
  same : output.commitment = input.commitment

/-- The claims speak of edges that have this end here, of each once, and the others are public. -/
structure Settled (partition : PartitionPlan) (out : Bool) (s : ℕ) (claims : List BoundaryClaim) : Prop where
  ends : ∀ mention ∈ mentions claims, ∃ edge ∈ partition.dag.edges, String.ofList edge.id = mention.2 ∧ endOf out edge = s
  once : ((mentions claims).map Prod.snd).Nodup
  rest : ∀ claim ∈ claims, claim.descriptor.edgeIds = [] → IsPublic out claim.descriptor

def publicInputsOf (statement : LeafStatement) : List PublicBoundaryBinding := publicBindings false statement.inputClaims

def publicOutputsOf (statement : LeafStatement) : List PublicBoundaryBinding := publicBindings true statement.outputClaims

/-- What a manifest says of the statements of its leaves, one for each shard. -/
structure Bound (partition : PartitionPlan) (run : RunIdentity) (set : LeafExpectationSet) (statements : List LeafStatement)
    (manifest : VerifiedManifest) : Prop where
  count : statements.length = partition.shards.length ∧ manifest.leafCount = partition.shards.length
  identified : ∀ s statement, statements[s]? = some statement → Identified partition run set (UInt64.ofNat s) statement
  connected : ∀ edge ∈ partition.dag.edges, ∃ producer consumer output input, Connected statements edge producer consumer output input
  consumed : ∀ (s : ℕ) statement, statements[s]? = some statement → Settled partition false s statement.inputClaims
  produced : ∀ (s : ℕ) statement, statements[s]? = some statement → Settled partition true s statement.outputClaims
  inputs : ∀ wire, wire ∈ manifest.publicInputs ↔ wire ∈ (statements.flatMap publicInputsOf).map boundaryWire
  outputs : manifest.publicOutputs.Perm ((statements.flatMap publicOutputsOf).map boundaryWire)
  oneInput : 2 ≤ partition.shards.length → ∀ b ∈ statements.flatMap publicInputsOf, ∀ b' ∈ statements.flatMap publicInputsOf,
    b.descriptor.registerId = b'.descriptor.registerId → b = b'
  oneOutput : 2 ≤ partition.shards.length → (statements.flatMap publicOutputsOf).Pairwise fun b b' =>
    List.Disjoint b.descriptor.graphOutputNames b'.descriptor.graphOutputNames
  digests : manifest.modelDigest = partition.modelDigest ∧ manifest.partitionDigest = partition.digest ∧
    manifest.weightsDigest = run.weightsDigest ∧ manifest.proofFlavor = run.proofFlavor

/-- The statements are those that the proofs come with. -/
def Stated (proofs : List (VerifiedProof blake3)) (statements : List LeafStatement) : Prop :=
  proofs.map (fun proof => LeafStatement.decode proof.proof.publicStatement) = statements.map .ok

theorem statementOf_eq (hstated : Stated proofs statements) (hlength : proofs.length ≤ maxLeaves) {s : ℕ} (hs : s < proofs.length) :
    statementOf proofs (UInt64.ofNat s) = statements[s]? := by
  have hsmall : s < 2 ^ 64 := Nat.lt_of_lt_of_le hs (Nat.le_trans hlength (by decide))
  have hget : (proofs[s]?).map (fun proof => LeafStatement.decode proof.proof.publicStatement) = statements[s]?.map .ok := by
    rw [← List.getElem?_map, ← List.getElem?_map, hstated]
  rw [statementOf, UInt64.toNat_ofNat_of_lt' hsmall]
  cases hproof : proofs[s]? with
  | none =>
      rw [List.getElem?_eq_none_iff] at hproof
      omega
  | some proof =>
      rw [hproof, Option.map_some] at hget
      obtain ⟨statement, hstatement, hdecode⟩ := Option.map_eq_some_iff.mp hget.symm
      rw [Option.bind_some, ← hdecode, hstatement]
      rfl

theorem stated_of_all (h : ∀ (s : ℕ) (proof : VerifiedProof blake3), proofs[s]? = some proof →
    ∃ statement, LeafStatement.decode proof.proof.publicStatement = .ok statement) : ∃ statements, Stated proofs statements := by
  have hall : ∀ proof ∈ proofs, ∃ statement, LeafStatement.decode proof.proof.publicStatement = .ok statement := by
    intro proof hproof
    obtain ⟨s, hs⟩ := List.mem_iff_getElem?.mp hproof
    exact h s proof hs
  obtain ⟨statements, hstatements⟩ := Satisfaction.exists_forall₂ hall
  refine ⟨statements, ?_⟩
  rw [Stated, ← List.forall₂_eq_eq_eq, List.forall₂_map_left_iff, List.forall₂_map_right_iff]
  exact hstatements

theorem flatMap_range {β : Type} {f : ℕ → Option LeafStatement} {g : LeafStatement → List β}
    (h : ∀ s < statements.length, f s = statements[s]?) :
    (List.range statements.length).flatMap (fun s => ((f s).map g).getD []) = statements.flatMap g := by
  rw [List.flatMap_def, List.flatMap_def]
  congr 1
  apply List.ext_getElem
  · rw [List.length_map, List.length_map, List.length_range]
  · intro s hs hs'
    rw [List.length_map] at hs'
    rw [List.getElem_map, List.getElem_range, List.getElem_map, h s hs', List.getElem?_eq_getElem hs']
    rfl

/-- All leaves of the plan, with the statements that they have. -/
structure Complete (partition : PartitionPlan) (run : RunIdentity) (set : LeafExpectationSet) (index : DagIndex)
    (proofs : List (VerifiedProof blake3)) (statements : List LeafStatement) : Prop where
  indexes : Indexes partition.dag.edges partition.shards.length index
  few : partition.shards.length ≤ maxLeaves
  count : proofs.length = partition.shards.length
  stated : Stated proofs statements
  fits : ∀ (s : ℕ) statement, statements[s]? = some statement → Fits partition run set index (UInt64.ofNat s) statement

theorem Complete.length (h : Complete partition run set index proofs statements) : statements.length = partition.shards.length := by
  have hlength := congrArg List.length h.stated
  rw [List.length_map, List.length_map] at hlength
  rw [← hlength, h.count]

theorem Complete.statementOf (h : Complete partition run set index proofs statements) {s : ℕ} (hs : s < partition.shards.length) :
    ManifestFlow.statementOf proofs (UInt64.ofNat s) = statements[s]? :=
  statementOf_eq h.stated (h.count ▸ h.few) (h.count ▸ hs)

theorem Complete.toNat (h : Complete partition run set index proofs statements) {s : ℕ} (hs : s < partition.shards.length) :
    (UInt64.ofNat s).toNat = s :=
  UInt64.toNat_ofNat_of_lt' (Nat.lt_of_lt_of_le hs (Nat.le_trans h.few (by decide)))

theorem Complete.shards_nodup (h : Complete partition run set index proofs statements) :
    ((List.range partition.shards.length).map UInt64.ofNat).Nodup := by
  apply List.Nodup.map_on _ List.nodup_range
  intro k hk k' hk' heq
  rw [← h.toNat (List.mem_range.mp hk), heq, h.toNat (List.mem_range.mp hk')]

theorem Complete.mem_covered (h : Complete partition run set index proofs statements)
    (hroot : Accounted (ManifestFlow.statementOf proofs) index (Fits partition run set index) root)
    (hfinal : Final plan partition run root) {s : UInt64} : s ∈ root.coveredShards ↔ s.toNat < partition.shards.length := by
  constructor
  · intro hs
    obtain ⟨_, -, hfits⟩ := hroot.sound.known s hs
    obtain ⟨planned, _, hplanned, -⟩ := hfits.identified.expected
    exact (List.getElem?_eq_some_iff.mp hplanned).1
  · intro hs
    have hfits := h.fits s.toNat _ (List.getElem?_eq_getElem (h.length ▸ hs))
    rw [UInt64.ofNat_toNat] at hfits
    obtain ⟨planned, _, hplanned, -, hplace, -⟩ := hfits.identified.expected
    have hcovered := hfinal.covered planned (List.mem_of_getElem? hplanned)
    rwa [hplace, UInt64.ofNat_toNat] at hcovered

theorem Complete.covered_perm (h : Complete partition run set index proofs statements)
    (hroot : Accounted (ManifestFlow.statementOf proofs) index (Fits partition run set index) root)
    (hfinal : Final plan partition run root) :
    root.coveredShards.toList.Perm ((List.range partition.shards.length).map UInt64.ofNat) := by
  apply (List.perm_ext_iff_of_nodup (OrderedMap.nodup_setToList _) _).mpr
  · intro s
    rw [ExtTreeSet.mem_toList, h.mem_covered hroot hfinal, List.mem_map]
    constructor
    · intro hs
      exact ⟨s.toNat, List.mem_range.mpr hs, UInt64.ofNat_toNat⟩
    · rintro ⟨k, hk, rfl⟩
      rw [h.toNat (List.mem_range.mp hk)]
      exact List.mem_range.mp hk
  · exact h.shards_nodup

theorem Complete.outputs_perm (h : Complete partition run set index proofs statements)
    (hroot : Accounted (ManifestFlow.statementOf proofs) index (Fits partition run set index) root)
    (hfinal : Final plan partition run root) :
    (root.coveredShards.toList.flatMap (outputsOf (ManifestFlow.statementOf proofs))).Perm (statements.flatMap publicOutputsOf) := by
  refine ((h.covered_perm hroot hfinal).flatMap_right _).trans (.of_eq ?_)
  rw [List.flatMap_map, ← h.length]
  exact flatMap_range fun s hs => h.statementOf (h.length ▸ hs)

theorem Complete.isInput (h : Complete partition run set index proofs statements)
    (hroot : Accounted (ManifestFlow.statementOf proofs) index (Fits partition run set index) root)
    (hfinal : Final plan partition run root) {b : PublicBoundaryBinding} :
    IsInput (ManifestFlow.statementOf proofs) root.coveredShards b ↔ b ∈ statements.flatMap publicInputsOf := by
  rw [List.mem_flatMap]
  constructor
  · rintro ⟨s, hs, statement, hstatement, hb⟩
    have hlt := (h.mem_covered hroot hfinal).mp hs
    have hget := h.statementOf hlt
    rw [UInt64.ofNat_toNat, hstatement] at hget
    exact ⟨statement, List.mem_of_getElem? hget.symm, hb⟩
  · rintro ⟨statement, hmem, hb⟩
    obtain ⟨k, hk, rfl⟩ := List.mem_iff_getElem.mp hmem
    have hlt : k < partition.shards.length := h.length ▸ hk
    refine ⟨UInt64.ofNat k, (h.mem_covered hroot hfinal).mpr ?_, statements[k], ?_, hb⟩
    · rwa [h.toNat hlt]
    · rw [h.statementOf hlt, List.getElem?_eq_getElem hk]

theorem Complete.connected (h : Complete partition run set index proofs statements)
    (hroot : Accounted (ManifestFlow.statementOf proofs) index (Fits partition run set index) root)
    (hfinal : Final plan partition run root) {edge : Edge} (hedge : edge ∈ partition.dag.edges) :
    ∃ producer consumer output input, Connected statements edge producer consumer output input := by
  have hknown := (h.indexes.mem (String.ofList edge.id) edge).mpr ⟨hedge, rfl⟩
  obtain ⟨edge', hedge', hinside, commitment, hsides⟩ := hroot.sound.flow.closed _ (hfinal.closed edge hedge)
  obtain rfl : edge' = edge := Option.some.inj (hedge'.symm.trans hknown)
  obtain ⟨hlt, hconsumer⟩ := h.indexes.ends _ hedge
  have hproducer := Nat.lt_trans hlt hconsumer
  rw [sides, if_pos hinside.1, if_pos hinside.2, EdgeFrontier.mk.injEq, claimed, claimed, h.statementOf hproducer,
    h.statementOf hconsumer, Option.bind_eq_some_iff, Option.bind_eq_some_iff] at hsides
  obtain ⟨⟨producer, hproducer, houtput⟩, consumer, hconsumer, hinput⟩ := hsides
  obtain ⟨output, houtput, hsame⟩ := commitmentOf_eq_some houtput
  obtain ⟨input, hinput, hsame'⟩ := commitmentOf_eq_some hinput
  have hregister : ∀ {out : Bool} {shard : UInt64} {claim : BoundaryClaim}, Speaks index shard out (claim, String.ofList edge'.id) →
      claim.descriptor.registerId = registerId edge'.register := by
    rintro out shard claim ⟨found, hfound, -, hregister⟩
    rw [hregister, Option.some.inj (hfound.symm.trans hknown)]
  have houtputs := (h.fits _ _ hproducer).checked.outputs _ houtput
  have hinputs := (h.fits _ _ hconsumer).checked.inputs _ hinput
  obtain ⟨houtput, houtputId⟩ := mem_mentions.mp houtput
  obtain ⟨hinput, hinputId⟩ := mem_mentions.mp hinput
  exact ⟨producer, consumer, output, input, hproducer, hconsumer, ⟨houtput, houtputId, hregister houtputs⟩,
    ⟨hinput, hinputId, hregister hinputs⟩, hsame.trans hsame'.symm⟩

theorem Complete.settled (h : Complete partition run set index proofs statements) {out : Bool} {s : ℕ} {claims : List BoundaryClaim}
    (hs : s < partition.shards.length) (hspeaks : ∀ m ∈ mentions claims, Speaks index (UInt64.ofNat s) out m)
    (honce : ((mentions claims).map Prod.snd).Nodup) (hrest : ∀ claim ∈ claims, claim.descriptor.edgeIds = [] → IsPublic out claim.descriptor) :
    Settled partition out s claims := by
  refine ⟨fun mention hmention => ?_, honce, hrest⟩
  obtain ⟨edge, hedge, hend, -⟩ := hspeaks mention hmention
  obtain ⟨hmem, hid⟩ := (h.indexes.mem _ _).mp hedge
  rw [h.toNat hs] at hend
  exact ⟨edge, hmem, hid, hend⟩

/-- A root of several leaves has merged boundaries. -/
theorem Complete.canonical (h : Complete partition run set index proofs statements)
    (hroot : Accounted (ManifestFlow.statementOf proofs) index (Fits partition run set index) root)
    (hfinal : Final plan partition run root) (hseveral : 2 ≤ partition.shards.length) : Canonical (ManifestFlow.statementOf proofs) root := by
  cases hroot.published with
  | merged hcanonical => exact hcanonical
  | leaf shard _ _ hcovered _ _ =>
      have hlength := (h.covered_perm hroot hfinal).length_eq
      have hlist : (ExtTreeSet.ofList [shard]).toList = [shard] := rfl
      rw [hcovered, hlist, List.length_map, List.length_range, List.length_singleton] at hlength
      omega

theorem Complete.bound (h : Complete partition run set index proofs statements)
    (hroot : Accounted (ManifestFlow.statementOf proofs) index (Fits partition run set index) root)
    (hfinal : Final plan partition run root) : Bound partition run set statements (rootManifest blake3 plan partition root) := by
  have hlt : ∀ (s : ℕ) statement, statements[s]? = some statement → s < partition.shards.length := fun s statement hget =>
    h.length ▸ (List.getElem?_eq_some_iff.mp hget).1
  have hinputs : ∀ b, b ∈ root.publicInputs ↔ b ∈ statements.flatMap publicInputsOf := fun b =>
    (hroot.sound.inputs b).trans (h.isInput hroot hfinal)
  have houtputs := hroot.sound.outputs.trans (h.outputs_perm hroot hfinal)
  refine ⟨⟨h.length, hfinal.leaves⟩, fun s statement hget => (h.fits s statement hget).identified,
    fun edge => h.connected hroot hfinal, fun s statement hget => ?_, fun s statement hget => ?_, fun wire => ?_,
    houtputs.map boundaryWire, fun hseveral b hb b' hb' hregister => ?_, fun hseveral => ?_, ?_⟩
  · have hchecked := (h.fits s statement hget).checked
    exact h.settled (hlt s statement hget) hchecked.inputs hchecked.inputsOnce hchecked.inputPublic
  · have hchecked := (h.fits s statement hget).checked
    exact h.settled (hlt s statement hget) hchecked.outputs hchecked.outputsOnce hchecked.outputPublic
  · change wire ∈ root.publicInputs.map boundaryWire ↔ _
    simp only [List.mem_map, hinputs]
  · obtain ⟨target, htarget, -⟩ := (h.canonical hroot hfinal hseveral).inputs
    have hget := (htarget _ b).mpr ⟨rfl, (h.isInput hroot hfinal).mpr hb⟩
    have hget' := (htarget _ b').mpr ⟨rfl, (h.isInput hroot hfinal).mpr hb'⟩
    rw [hregister, hget'] at hget
    exact (Option.some.inj hget).symm
  · obtain ⟨target, htarget, -⟩ := (h.canonical hroot hfinal hseveral).outputs
    exact ((h.outputs_perm hroot hfinal).pairwise_iff fun hdisjoint => hdisjoint.symm).mp htarget.disjoint
  · refine ⟨?_, rfl, hfinal.weights, hfinal.flavor⟩
    have hpos := hroot.sound.nonempty
    obtain ⟨s, hs⟩ := List.exists_mem_of_length_pos hpos
    obtain ⟨_, -, hfits⟩ := hroot.sound.known s (ExtTreeSet.mem_toList.mp hs)
    exact hfinal.model.trans hfits.identified.modelDigest.2

end Root

section Manifest

variable {serde : SerdeJson} {blake3 : Blake3} {plan : AggregationPlan} {partition : PartitionPlan} {run : RunIdentity}
  {proofs : List (VerifiedProof blake3)} {set : LeafExpectationSet} {index : DagIndex} {manifest : VerifiedManifest}

theorem trusted_ok (h : trustedLeafExpectations blake3 plan partition = .ok set) :
    plan.leafExpectations = some set := by
  unfold trustedLeafExpectations at h
  split at h
  · cases h
  · next expectations hexpectations =>
    split_ifs at h
    cases h
    exact hexpectations

theorem leaves_complete (hindex : Indexes partition.dag.edges partition.shards.length index) (hn : partition.shards.length ≤ maxLeaves)
    (hcount : proofs.length = partition.shards.length) {claims : ExtTreeMap AggregationChildId VerifiedClaim}
    (hleaves : proofs.zipIdx.foldlM (admitProof plan partition run set index) ∅ = .ok claims) :
    ∃ statements, Complete partition run set index proofs statements := by
  obtain ⟨-, hfits⟩ := admitProofs_ok hindex hn hleaves
  obtain ⟨statements, hstated⟩ := stated_of_all fun s proof hproof =>
    (hfits s proof hproof).imp fun _ hstatement => hstatement.1
  refine ⟨statements, hindex, hn, hcount, hstated, fun s statement hget => ?_⟩
  have hmap : (proofs[s]?).map (fun proof => LeafStatement.decode proof.proof.publicStatement) = statements[s]?.map .ok := by
    rw [← List.getElem?_map, ← List.getElem?_map, hstated]
  rw [hget, Option.map_some, Option.map_eq_some_iff] at hmap
  obtain ⟨proof, hproof, hdecode⟩ := hmap
  obtain ⟨other, hother, hfits⟩ := hfits s proof hproof
  obtain rfl := Except.ok.inj (hother.symm.trans hdecode)
  exact hfits

/-- The leaves and the root of a manifest that was built. -/
theorem build_complete (h : buildNativeManifest serde plan partition run proofs = .ok manifest) :
    ∃ set index statements root, plan.leafExpectations = some set ∧ Complete partition run set index proofs statements ∧
      Accounted (statementOf proofs) index (Fits partition run set index) root ∧ Final plan partition run root ∧
        manifest = rootManifest blake3 plan partition root := by
  obtain ⟨set, hset, h⟩ := bind_eq_ok.mp h
  obtain ⟨_, -, h⟩ := bind_eq_ok.mp h
  obtain ⟨index, hnew, h⟩ := bind_eq_ok.mp h
  obtain ⟨_, hcount, h⟩ := bind_eq_ok.mp h
  obtain ⟨leaves, hleaves, h⟩ := bind_eq_ok.mp h
  obtain ⟨claims, hclaims, h⟩ := bind_eq_ok.mp h
  obtain ⟨hindex, hn⟩ := new_indexes hnew
  obtain ⟨statements, hcomplete⟩ := leaves_complete hindex hn (not_not.mp (refuse_ok.mp hcount)) hleaves
  have hmerged := (admitProofs_ok hindex hn hleaves).1.mergeLevels (fun _ _ _ => merge_accounted) hclaims
  split at h
  · cases h
  next root hroot =>
  obtain ⟨_, -, h⟩ := bind_eq_ok.mp h
  obtain ⟨hfinal, rfl⟩ := finalize_final h
  exact ⟨set, index, statements, root, trusted_ok hset, hcomplete, hmerged plan.root root hroot, hfinal, rfl⟩

end Manifest

section Sample

/-- What the first of two shards computes is read by the second one. -/
def passed : Edge :=
  ⟨"edge-v1:00000000000000000000:00000000000000000001:virtual:00000000000000000000".toList, 0, 1, .virtual 0, .sequential⟩

def twoShards : PartitionPlan where
  shards := [⟨0, "shard-0", ⟨0, 1⟩, ⟨1, 1⟩, [⟨1, 1⟩]⟩, ⟨1, "shard-1", ⟨1, 2⟩, ⟨1, 1⟩, [⟨1, 1⟩]⟩]
  dag := ⟨[⟨0, "shard-0", ⟨0, 1⟩, [], [.virtual 0]⟩, ⟨1, "shard-1", ⟨1, 2⟩, [.virtual 0], []⟩], [passed]⟩
  modelDigest := flatDigest
  boundaryLayoutDigest := some flatDigest
  digest := flatDigest
  programSnapshot := ShardedRun.twoSums

def endOfOne (role : PoseidonBoundary.BoundaryRole) (registerId : String) (edgeIds graphOutputNames : List String) : BoundaryDescriptor :=
  ⟨role, registerId, edgeIds, graphOutputNames, 1, 1000000000000000000⟩

def readDescriptor : BoundaryDescriptor := endOfOne .input "graph-input:x" [] []

def readClaim : BoundaryClaim := ⟨readDescriptor, 1, by decide +kernel⟩

def producedDescriptor : BoundaryDescriptor := endOfOne .output "virtual:0" [String.ofList passed.id] []

def consumedDescriptor : BoundaryDescriptor := endOfOne .input "virtual:0" [String.ofList passed.id] []

theorem passed_valid (role : PoseidonBoundary.BoundaryRole) :
    (endOfOne role "virtual:0" [String.ofList passed.id] []).validate = .ok () := by
  cases role <;> decide +kernel

/-- The commitment that both ends of the edge carry. -/
def passedCommitment : Fr := 1 + 1

def producedClaim : BoundaryClaim := ⟨producedDescriptor, passedCommitment, passed_valid _⟩

def consumedClaim : BoundaryClaim := ⟨consumedDescriptor, passedCommitment, passed_valid _⟩

def graphOutput : BoundaryDescriptor := endOfOne .output "virtual:1" [] ["y"]

def outputClaim : BoundaryClaim := ⟨graphOutput, 3, by decide +kernel⟩

theorem two_claims (a b : BoundaryClaim) : [a].length + [b].length ≤ Statement.maxClaims :=
  Nat.le_of_ble_eq_true rfl

theorem three_claims (a b c : BoundaryClaim) : [a, b].length + [c].length ≤ Statement.maxClaims :=
  Nat.le_of_ble_eq_true rfl

theorem first_named : "shard-0" ≠ "" ∧ "shard-0".utf8ByteSize ≤ Statement.maxTextBytes := shard_named

theorem second_named : "shard-1" ≠ "" ∧ "shard-1".utf8ByteSize ≤ Statement.maxTextBytes := by
  decide +kernel

theorem read_role : ∀ claim ∈ [readClaim], claim.descriptor.role = .input := List.forall_mem_singleton.mpr rfl

theorem consumed_role : ∀ claim ∈ [readClaim, consumedClaim], claim.descriptor.role = .input :=
  List.forall_mem_cons.mpr ⟨rfl, List.forall_mem_singleton.mpr rfl⟩

theorem produced_role : ∀ claim ∈ [producedClaim], claim.descriptor.role = .output := List.forall_mem_singleton.mpr rfl

theorem output_role : ∀ claim ∈ [outputClaim], claim.descriptor.role = .output := List.forall_mem_singleton.mpr rfl

/-- The statements of the first shard and of the second one. -/
def twoStatement : Bool → LeafStatement
  | false => ⟨0, "shard-0", flatDigest, flatDigest, flatDigest, flatDigest, kzg, flatDigest, [readClaim], [producedClaim], [],
      first_named, two_claims _ _, read_role, produced_role, noWeights_few⟩
  | true => ⟨1, "shard-1", flatDigest, flatDigest, flatDigest, flatDigest, kzg, flatDigest, [readClaim, consumedClaim], [outputClaim], [],
      second_named, three_claims _ _ _, consumed_role, output_role, noWeights_few⟩

def twoLeaf : Bool → LeafExpectation
  | false => ⟨0, "shard-0", flatDigest, flatDigest, cpu, kzg, [readDescriptor], []⟩
  | true => ⟨1, "shard-1", flatDigest, flatDigest, cpu, kzg, [readDescriptor], [graphOutput]⟩

def twoSet : LeafExpectationSet := ⟨flatDigest, byShard [twoLeaf false, twoLeaf true], flatDigest, byShard_keyed _⟩

def twoNode : AggregationNode := ⟨⟨.node 0 0, [.leaf 0, .leaf 1], by decide⟩, flatDigest⟩

def twoPlan (fanIn : NonZeroU8) : AggregationPlan := ⟨flatDigest, fanIn, 2, [[twoNode]], .node 0 0, some twoSet, flatDigest⟩

def twoRun (fanIn : NonZeroU8) : RunIdentity := { oneRun with aggregationFanIn := fanIn.get.toUInt32 }

def twoIndex : DagIndex := ⟨(∅ : ExtTreeMap String Edge).insert (String.ofList passed.id) passed, [[passed], [passed]]⟩

theorem first_text : validText "shard-0" = .ok () := VerifyProof.sampleShard.named

def twoShard : Bool → ShardIdentity
  | false => ⟨0, "shard-0", flatDigest, first_text⟩
  | true => ⟨1, "shard-1", flatDigest, by decide +kernel⟩

theorem twoShard_circuit (second : Bool) : (twoShard second).circuitDigest = flatDigest := by
  cases second <;> rfl

theorem flat_bytes (bytes : List UInt8) : flatDigest = VerifyProof.digest flatHash bytes := rfl

def twoProof (second : Bool) (bytes : List UInt8) (hbytes : validBytes bytes = .ok ()) : VerifiedProof flatHash :=
  ⟨{ VerifyProof.sampleProof "proof" proof_path with
      shard := twoShard second
      circuit := twoShard_circuit second
      publicStatement := bytes
      statement := hbytes
      statementDigest := flat_bytes bytes }⟩

/-- The side of the edge that a shard has. -/
def twoFrontier (second : Bool) : Frontier :=
  (∅ : Frontier).insert (String.ofList passed.id) (if second then ⟨none, some passedCommitment⟩ else ⟨some passedCommitment, none⟩)

def twoClaim (second : Bool) : VerifiedClaim :=
  sealClaim flatHash
    { id := .leaf (twoStatement second).shardId
      aggregationDigest := flatDigest
      runIdentityDigest := flatDigest
      partitionDigest := flatDigest
      modelDigest := flatDigest
      weightsDigest := flatDigest
      proofFlavor := kzg
      coveredShards := ExtTreeSet.ofList [(twoStatement second).shardId]
      frontier := twoFrontier second
      closedEdges := ∅
      publicInputs := publicInputsOf (twoStatement second)
      publicOutputs := publicOutputsOf (twoStatement second)
      leaves := ExtTreeMap.ofList [((twoStatement second).shardId, (⟨flatDigest, flatDigest, flatDigest, flatDigest⟩ : LeafBinding))]
      digest := ⟨Vector.replicate 32 0⟩ }

theorem twoSet_size : twoSet.leaves.size = 2 := by
  decide +kernel

theorem twoSet_trusted (fanIn : NonZeroU8) : trustedLeafExpectations flatHash (twoPlan fanIn) twoShards = .ok twoSet := by
  unfold trustedLeafExpectations
  split
  · next h => cases h
  · next set hset =>
    obtain rfl := Option.some.inj hset
    refine if_neg ?_
    simp only [not_or, not_not, ne_eq]
    exact ⟨rfl, rfl, twoSet_size, rfl, rfl⟩

theorem twoStatement_bytes (second : Bool) : ∃ bytes, validBytes bytes = .ok () ∧ LeafStatement.decode bytes = .ok (twoStatement second) := by
  have htexts : ∀ text ∈ (twoStatement second).texts, Statement.FitsText text := by
    cases second <;> decide +kernel
  obtain ⟨out, hput, hsize⟩ := (twoStatement second).measured_body.writes htexts Statement.magic
  have hlength : out.length ≤ Statement.maxStatementBytes := by
    rw [hsize, Nat.add_sub_cancel' (twoStatement second).magic_le_size]
    cases second <;> decide +kernel
  exact ⟨out, if_neg (Nat.not_lt.mpr hlength), LeafStatement.decode_put hput hlength⟩

theorem twoStatement_admitted (fanIn : NonZeroU8) (second : Bool) {bytes : List UInt8} {hbytes : validBytes bytes = .ok ()}
    (hdecode : LeafStatement.decode bytes = .ok (twoStatement second)) :
    admitVerifiedLeafIndexed (twoPlan fanIn) twoShards (twoRun fanIn) (twoProof second bytes hbytes) twoSet twoIndex =
      .ok (twoClaim second) := by
  have hleaf : twoSet.leaves[(twoStatement second).shardId]? = some (twoLeaf second) := by
    cases second <;> decide +kernel
  have hshard : twoShards.shards[(twoProof second bytes hbytes).proof.shard.id.toNat]? =
      some (if second then ⟨1, "shard-1", ⟨1, 2⟩, ⟨1, 1⟩, [⟨1, 1⟩]⟩ else ⟨0, "shard-0", ⟨0, 1⟩, ⟨1, 1⟩, [⟨1, 1⟩]⟩) := by
    cases second <;> rfl
  have hid : (twoProof second bytes hbytes).proof.shard.id = (twoStatement second).shardId := by
    cases second <;> rfl
  rw [admitVerifiedLeafIndexed]
  dsimp only
  rw [hshard, hid, hleaf]
  refine bind_eq_ok.mpr ⟨(), rfl, bind_eq_ok.mpr ⟨(), refuseIf_ok.mpr ?_, bind_eq_ok.mpr ⟨twoStatement second, ?_,
    bind_eq_ok.mpr ⟨(), refuseIf_ok.mpr ?_, bind_eq_ok.mpr ⟨(), refuseIf_ok.mpr ?_,
      bind_eq_ok.mpr ⟨if second then twoFrontier true else ∅, ?_, bind_eq_ok.mpr ⟨twoFrontier second, ?_,
        bind_eq_ok.mpr ⟨(), ?_, ?_⟩⟩⟩⟩⟩⟩⟩⟩
  · simp only [ne_eq, not_or, not_not]
    cases second <;> and_intros <;> rfl
  · exact FixedPoint.mapError_eq_ok.mpr hdecode
  · simp only [ne_eq, not_or, not_not]
    cases second <;> and_intros <;> first | rfl | exact trivial
  · simp only [not_or, not_not]
    cases second <;> exact ⟨by decide +kernel, by decide +kernel⟩
  · cases second <;> rfl
  · cases second <;> rfl
  · cases second <;> rfl
  · cases second <;> rfl

def twoClaims : ExtTreeMap AggregationChildId VerifiedClaim :=
  ((∅ : ExtTreeMap AggregationChildId VerifiedClaim).insert (.leaf 0) (twoClaim false)).insert (.leaf 1) (twoClaim true)

example : twoClaims.size = 2 := by decide +kernel

/-- The claims of the two leaves are merged into a root that becomes a manifest. -/
def twoManifest (fanIn : NonZeroU8) : Except AggregationError VerifiedManifest := do
  let claims ← mergeLevels (mergeVerifiedClaimsIndexed flatHash twoIndex) (twoPlan fanIn).levels twoClaims
  match claims[(twoPlan fanIn).root]? with
  | none => throw .aggregationIdentityMismatch
  | some root =>
      refuseIf ((claims.erase (twoPlan fanIn).root).isEmpty = false) .aggregationIdentityMismatch
      finalizeNativeManifest printing flatHash (twoPlan fanIn) twoShards (twoRun fanIn) root

theorem three_ne : (3 : UInt8) ≠ 0 := by
  decide

theorem twoManifest_ok (three : Bool) : ∃ manifest, twoManifest (if three then ⟨3, three_ne⟩ else ⟨2, two_ne⟩) = .ok manifest := by
  have hok : (twoManifest (if three then ⟨3, three_ne⟩ else ⟨2, two_ne⟩)).isOk = true := by
    cases three <;> decide +kernel
  cases hmanifest : twoManifest (if three then ⟨3, three_ne⟩ else ⟨2, two_ne⟩) with
  | ok manifest => exact ⟨manifest, rfl⟩
  | error e =>
      rw [hmanifest] at hok
      cases hok

theorem twoManifest_built {fanIn : NonZeroU8} {manifest : VerifiedManifest} (hok : twoManifest fanIn = .ok manifest)
    {first second : List UInt8} (hfirst : validBytes first = .ok ()) (hdecode : LeafStatement.decode first = .ok (twoStatement false))
    (hsecond : validBytes second = .ok ()) (hdecode' : LeafStatement.decode second = .ok (twoStatement true)) :
    buildNativeManifest printing (twoPlan fanIn) twoShards (twoRun fanIn) [twoProof false first hfirst, twoProof true second hsecond] =
      .ok manifest := by
  refine bind_eq_ok.mpr ⟨twoSet, twoSet_trusted fanIn, bind_eq_ok.mpr ⟨(), rfl, bind_eq_ok.mpr ⟨twoIndex, rfl,
    bind_eq_ok.mpr ⟨(), rfl, bind_eq_ok.mpr ⟨twoClaims, ?_, hok⟩⟩⟩⟩⟩
  refine bind_eq_ok.mpr ⟨(∅ : ExtTreeMap AggregationChildId VerifiedClaim).insert (.leaf 0) (twoClaim false), ?_, ?_⟩
  · exact bind_eq_ok.mpr ⟨(), rfl, bind_eq_ok.mpr ⟨_, twoStatement_admitted fanIn false hdecode, rfl⟩⟩
  · exact bind_eq_ok.mpr ⟨_, bind_eq_ok.mpr ⟨(), rfl, bind_eq_ok.mpr ⟨_, twoStatement_admitted fanIn true hdecode', rfl⟩⟩, rfl⟩

end Sample

section Trees

variable {blake3 : Blake3} {plan plan' : AggregationPlan} {partition : PartitionPlan} {run run' : RunIdentity}
  {proofs proofs' : List (VerifiedProof blake3)} {set set' : LeafExpectationSet} {index index' : DagIndex} {statements : List LeafStatement}
  {root root' : VerifiedClaim}

/-- Two roots over the same statements have the same public boundaries. -/
theorem boundaries_unique (h : Complete partition run set index proofs statements) (h' : Complete partition run' set' index' proofs' statements)
    (hroot : Accounted (statementOf proofs) index (Fits partition run set index) root)
    (hroot' : Accounted (statementOf proofs') index' (Fits partition run' set' index') root')
    (hfinal : Final plan partition run root) (hfinal' : Final plan' partition run' root') :
    root.publicInputs = root'.publicInputs ∧ root.publicOutputs = root'.publicOutputs := by
  by_cases hseveral : 2 ≤ partition.shards.length
  · obtain ⟨-, ⟨target, htarget, hinputs⟩, outputs, houtputs, heq⟩ := h.canonical hroot hfinal hseveral
    obtain ⟨-, ⟨target', htarget', hinputs'⟩, outputs', houtputs', heq'⟩ := h'.canonical hroot' hfinal' hseveral
    rw [hinputs, hinputs', heq, heq', Keyed.unique htarget htarget' fun b =>
      (h.isInput hroot hfinal).trans (h'.isInput hroot' hfinal').symm,
      houtputs.unique houtputs' ((h.outputs_perm hroot hfinal).trans (h'.outputs_perm hroot' hfinal').symm)]
    exact ⟨rfl, rfl⟩
  · have hone : ∀ {plan : AggregationPlan} {run : RunIdentity} {set : LeafExpectationSet} {index : DagIndex}
        {proofs : List (VerifiedProof blake3)} {root : VerifiedClaim}, Complete partition run set index proofs statements →
          Accounted (statementOf proofs) index (Fits partition run set index) root → Final plan partition run root →
            ∃ statement, statements = [statement] ∧ root.publicInputs = publicInputsOf statement ∧
              root.publicOutputs = publicOutputsOf statement := by
      intro plan run set index proofs root h hroot hfinal
      have hlength := (h.covered_perm hroot hfinal).length_eq
      rw [List.length_map, List.length_range] at hlength
      cases hroot.published with
      | merged hcanonical => exact absurd (hlength ▸ hcanonical.several) hseveral
      | leaf shard statement hstated hcovered hinputs houtputs =>
          have hmem : shard ∈ root.coveredShards := hcovered ▸ mem_single.mpr rfl
          have hlt := (h.mem_covered hroot hfinal).mp hmem
          have hget := h.statementOf hlt
          rw [UInt64.ofNat_toNat, hstated, show shard.toNat = 0 by omega] at hget
          have hsingle : statements.length = 1 := by
            rw [h.length]
            omega
          obtain ⟨only, rfl⟩ := List.length_eq_one_iff.mp hsingle
          cases hget
          exact ⟨_, rfl, hinputs, houtputs⟩
    obtain ⟨statement, rfl, hinputs, houtputs⟩ := hone h hroot hfinal
    obtain ⟨statement', hstatement, hinputs', houtputs'⟩ := hone h' hroot' hfinal'
    obtain rfl := List.singleton_inj.mp hstatement
    rw [hinputs, hinputs', houtputs, houtputs']
    exact ⟨rfl, rfl⟩

end Trees

/-- What a manifest says does not depend on how the leaves are put together: over the same statements it is the same for every plan, fan-in
and tree, but for the digests of the plan. -/
theorem manifest_tree_independent (serde serde' : SerdeJson) (blake3 : Blake3) (plan plan' : AggregationPlan) (partition : PartitionPlan)
    (run run' : RunIdentity) (proofs proofs' : List (VerifiedProof blake3)) (manifest manifest' : VerifiedManifest)
    (h : buildNativeManifest serde plan partition run proofs = .ok manifest)
    (h' : buildNativeManifest serde' plan' partition run' proofs' = .ok manifest')
    (hsame : proofs.map (·.proof.publicStatement) = proofs'.map (·.proof.publicStatement)) :
    manifest' = { manifest with
      aggregationDigest := plan'.digest
      rootClaimDigest := manifest'.rootClaimDigest
      manifestDigest := manifest'.manifestDigest } := by
  obtain ⟨set, index, statements, root, -, hcomplete, hroot, hfinal, rfl⟩ := build_complete h
  obtain ⟨set', index', statements', root', -, hcomplete', hroot', hfinal', rfl⟩ := build_complete h'
  have hstatements : statements = statements' := by
    apply List.map_injective_iff.mpr fun _ _ => Except.ok.inj (ε := Statement.LeafStatementError)
    rw [← hcomplete.stated, ← hcomplete'.stated]
    simpa only [List.map_map, Function.comp_def] using congrArg (List.map LeafStatement.decode) hsame
  subst hstatements
  obtain ⟨hinputs, houtputs⟩ := boundaries_unique hcomplete hcomplete' hroot hroot' hfinal hfinal'
  have hlength : 0 < statements.length := by
    obtain ⟨s, hs⟩ := List.exists_mem_of_length_pos hroot.sound.nonempty
    rw [hcomplete.length]
    exact Nat.zero_lt_of_lt ((hcomplete.mem_covered hroot hfinal).mp (ExtTreeSet.mem_toList.mp hs))
  have hfirst := (hcomplete.fits 0 _ (List.getElem?_eq_getElem hlength)).identified
  have hfirst' := (hcomplete'.fits 0 _ (List.getElem?_eq_getElem hlength)).identified
  have hleaves : root'.leaves.size = root.leaves.size := hfinal'.leaves.trans hfinal.leaves.symm
  have hmodel : root'.modelDigest = root.modelDigest := by
    rw [hfinal.model, hfinal'.model, ← hfirst.modelDigest.1, hfirst'.modelDigest.1]
  have hweights : root'.weightsDigest = root.weightsDigest := by
    rw [hfinal.weights, hfinal'.weights, ← hfirst.weightsDigest, hfirst'.weightsDigest]
  have hflavor : root'.proofFlavor = root.proofFlavor := by
    rw [hfinal.flavor, hfinal'.flavor, ← hfirst.proofFlavor, hfirst'.proofFlavor]
  exact (VerifiedManifest.mk.injEq ..).mpr ⟨rfl, rfl, rfl, rfl, hleaves, hmodel, hweights, hflavor,
    congrArg (List.map boundaryWire) hinputs.symm, congrArg (List.map boundaryWire) houtputs.symm, rfl⟩

theorem manifest_tree_independent_two : ∃ (proofs : List (VerifiedProof flatHash)) (manifest manifest' : VerifiedManifest),
    buildNativeManifest printing (twoPlan ⟨2, two_ne⟩) twoShards (twoRun ⟨2, two_ne⟩) proofs = .ok manifest ∧
      buildNativeManifest printing (twoPlan ⟨3, three_ne⟩) twoShards (twoRun ⟨3, three_ne⟩) proofs = .ok manifest' ∧
        manifest'.publicInputs = manifest.publicInputs ∧ manifest'.publicOutputs = manifest.publicOutputs := by
  obtain ⟨first, hfirst, hdecode⟩ := twoStatement_bytes false
  obtain ⟨second, hsecond, hdecode'⟩ := twoStatement_bytes true
  obtain ⟨manifest, hmanifest⟩ := twoManifest_ok false
  obtain ⟨manifest', hmanifest'⟩ := twoManifest_ok true
  have hbuild := twoManifest_built hmanifest hfirst hdecode hsecond hdecode'
  have hbuild' := twoManifest_built hmanifest' hfirst hdecode hsecond hdecode'
  have heq := manifest_tree_independent _ _ _ _ _ _ _ _ _ _ _ _ hbuild hbuild' rfl
  exact ⟨_, manifest, manifest', hbuild, hbuild', by rw [heq], by rw [heq]⟩

end Zkie.ManifestFlow
