import Zkie.MergeAccepts

namespace Zkie.ManifestAccepts

open AggregationDigest AggregationTree Checked ClaimFlow ClaimMerging LeafClaims ManifestFlow MergeAccepts NativeManifest
open BuildDag (Edge)
open PoseidonBoundary (Blake3 BoundaryDescriptor)
open RunDatabase (Digest32)
open Statement (BoundaryClaim LeafStatement)
open VerifyProof (VerifiedProof flatHash)
open Zkie.Partition (PartitionPlan)
open Std (ExtTreeMap ExtTreeSet)

section Plan

variable {blake3 : Blake3} {partition : PartitionPlan} {fanIn : NonZeroU8} {base plan : AggregationPlan} {set : LeafExpectationSet}
  {expectations : List LeafExpectation}

theorem validPartition_of_accepted
    (h : ¬(partition.shards = [] ∨ maxLeaves < partition.shards.length ∨ maxEdges < partition.dag.edges.length ∨
      (∃ entry ∈ partition.shards.zipIdx, entry.1.id ≠ entry.2) ∨
      ∃ edge ∈ partition.dag.edges, edge.consumer ≤ edge.producer ∨ partition.shards.length ≤ edge.consumer)) :
    ValidPartition partition := by
  simp only [not_or, not_lt, not_exists, not_and, not_not, not_le, ne_eq] at h
  obtain ⟨hnil, hmany, hedges, hids, hends⟩ := h
  refine ⟨hnil, hmany, hedges, ?_, hends⟩
  apply List.ext_getElem
  · rw [List.length_map, List.length_range]
  · intro i hi hi'
    rw [List.length_map] at hi
    rw [List.getElem_map, List.getElem_range]
    exact hids (partition.shards[i], i) (List.mem_zipIdx_iff_getElem?.mpr (List.getElem?_eq_getElem hi))

/-- The tree that the planner builds before its nodes get the digest of the plan. -/
theorem planAggregation_built (h : planAggregation blake3 partition fanIn = .ok base) :
    ValidPartition partition ∧ ∃ fan levels digest, Built partition.shards.length fan levels [base.root] ∧
      (partition.shards.length = 1 → levels = [] ∧ base.root = .leaf 0) ∧ base.levels = sealNodes digest levels ∧
        base.partitionDigest = partition.digest ∧ base.leafCount = partition.shards.length := by
  unfold planAggregation at h
  split at h
  case isFalse => cases h
  next hfan =>
  split at h
  case isTrue => cases h
  next haccepted =>
  have hvalid := validPartition_of_accepted haccepted
  have hcurrent : (partition.shards.map fun shard => AggregationChildId.leaf (UInt64.ofNat shard.id)) =
      (List.range partition.shards.length).map fun shard => .leaf (UInt64.ofNat shard) := by
    rw [← hvalid.ids, List.map_map]
    rfl
  obtain ⟨levels, root, hlevels, hbuilt⟩ := planLevels_ok (fan_bounds hfan)
    (built_start (List.length_pos_iff.mpr hvalid.nonempty) hvalid.leaves)
  obtain ⟨⟨levels', current⟩, hlevels', h⟩ := bind_eq_ok.mp h
  rw [hcurrent] at hlevels'
  cases hlevels.symm.trans hlevels'
  cases h
  refine ⟨hvalid, fanIn.get.toNat, levels, _, hbuilt, fun hone => ?_, rfl, rfl, rfl⟩
  rw [planLevels, if_neg (by rw [List.length_map, List.length_range, hone]; exact Nat.lt_irrefl 1), hone] at hlevels
  cases hlevels
  exact ⟨rfl, rfl⟩

theorem encodeLevel_seal (digest : Digest32) (level : List AggregationNode) :
    encodeLevel (level.map (sealNode digest)) = encodeLevel level := by
  rw [encodeLevel, encodeLevel, List.length_map, List.flatMap_map]
  rfl

/-- The digest of a plan does not depend on the digests in its nodes. -/
theorem aggregationPlanDigest_seal (partitionDigest : Digest32) (leafCount : ℕ) (digest : Digest32) (levels : List (List AggregationNode))
    (root : AggregationChildId) (expected : Option Digest32) :
    aggregationPlanDigest blake3 partitionDigest fanIn leafCount (sealNodes digest levels) root expected =
      aggregationPlanDigest blake3 partitionDigest fanIn leafCount levels root expected := by
  have hlevels : (sealNodes digest levels).flatMap encodeLevel = levels.flatMap encodeLevel := by
    rw [sealNodes, List.flatMap_map]
    exact List.flatMap_congr fun level _ => encodeLevel_seal digest level
  rw [aggregationPlanDigest, aggregationPlanDigest, aggregationPlanBytes, aggregationPlanBytes, hlevels, sealNodes, List.length_map]

/-- A plan with its expectations. -/
structure Planned (blake3 : Blake3) (partition : PartitionPlan) (set : LeafExpectationSet) (plan : AggregationPlan) : Prop where
  valid : ValidPartition partition
  ordered : Ordered partition.shards.length plan
  single : partition.shards.length = 1 → plan.levels = [] ∧ plan.root = .leaf 0
  trusted : trustedLeafExpectations blake3 plan partition = .ok set

theorem expectations_digest (h : LeafExpectationSet.new blake3 partition expectations = .ok set) :
    set.partitionDigest = partition.digest ∧ set.leaves = byShard expectations ∧
      leafExpectationSetDigest blake3 set.partitionDigest set.leaves = set.digest := by
  obtain ⟨_, -, h⟩ := bind_eq_ok.mp h
  obtain ⟨_, -, h⟩ := bind_eq_ok.mp h
  obtain ⟨_, -, h⟩ := bind_eq_ok.mp h
  cases h
  exact ⟨rfl, rfl, rfl⟩

theorem planned (hbase : planAggregation blake3 partition fanIn = .ok base) (hset : LeafExpectationSet.new blake3 partition expectations = .ok set)
    (hplan : bindLeafExpectations blake3 base set = .ok plan) : Planned blake3 partition set plan := by
  obtain ⟨hvalid, fan, levels, digest, hbuilt, hsingle, hlevels, hpartition, hcount⟩ := planAggregation_built hbase
  obtain ⟨hsetPartition, -, hsetDigest⟩ := expectations_digest hset
  obtain ⟨_, hfits, hplan⟩ := bind_eq_ok.mp hplan
  cases hplan
  have hfits := refuse_ok.mp hfits
  simp only [not_or, not_not, ne_eq] at hfits
  have hformed : WellFormed partition.shards.length fan (sealNodes (boundDigest blake3 base set) base.levels) base.root := by
    rw [hlevels]
    exact (hbuilt.wellFormed.seal digest).seal _
  refine ⟨hvalid, ⟨hformed.distinct, fun node hnode => ?_, hformed.merges⟩, fun hone => ?_, ?_⟩
  · dsimp only at hnode
    rw [hlevels, flatten_sealNodes, flatten_sealNodes, List.map_map, List.mem_map] at hnode
    obtain ⟨inner, hinner, rfl⟩ := hnode
    obtain ⟨level, hlevel, hmem⟩ := List.mem_flatten.mp hinner
    obtain ⟨i, -, j, hid⟩ := hbuilt.old level hlevel inner hmem
    exact ⟨⟨_, j, hid⟩, rfl⟩
  · obtain ⟨rfl, hroot⟩ := hsingle hone
    dsimp only
    rw [hlevels]
    exact ⟨rfl, hroot⟩
  · have hbound : boundDigest blake3 { base with
        leafExpectations := some set
        digest := boundDigest blake3 base set
        levels := sealNodes (boundDigest blake3 base set) base.levels } set = boundDigest blake3 base set :=
      aggregationPlanDigest_seal ..
    unfold trustedLeafExpectations
    dsimp only
    rw [if_neg]
    simp only [not_or, not_not, ne_eq]
    exact ⟨hpartition, hsetPartition, hfits.2.trans hcount, hsetDigest, hbound⟩

end Plan

section Leaves

variable {blake3 : Blake3} {plan : AggregationPlan} {partition : PartitionPlan} {run : RunIdentity} {proofs : List (VerifiedProof blake3)}
  {set : LeafExpectationSet} {index : DagIndex} {expectations : List LeafExpectation} {claim : VerifiedClaim} {statements : List LeafStatement}

/-- What the run says of its plan. -/
structure RunOf (plan : AggregationPlan) (partition : PartitionPlan) (run : RunIdentity) : Prop where
  visible : validatePublicModel run = .ok ()
  aggregationPlan : run.aggregationPlanDigest = plan.digest
  partitionPlan : run.partitionPlanDigest = partition.digest

theorem admit_origin {proof : VerifiedProof blake3} (h : admitVerifiedLeafIndexed plan partition run proof set index = .ok claim) :
    RunOf plan partition run ∧ Origin plan partition run blake3 claim := by
  obtain ⟨_, hvisible, h⟩ := bind_eq_ok.mp h
  dsimp only at h
  split at h
  case h_2 => cases h
  obtain ⟨_, hidentity, h⟩ := bind_eq_ok.mp h
  obtain ⟨statement, -, h⟩ := bind_eq_ok.mp h
  obtain ⟨_, -, h⟩ := bind_eq_ok.mp h
  obtain ⟨_, -, h⟩ := bind_eq_ok.mp h
  obtain ⟨inputs, -, h⟩ := bind_eq_ok.mp h
  obtain ⟨frontier, -, h⟩ := bind_eq_ok.mp h
  obtain ⟨_, -, h⟩ := bind_eq_ok.mp h
  cases h
  have hidentity := refuse_ok.mp hidentity
  simp only [not_or, not_not, ne_eq] at hidentity
  obtain ⟨-, hpartition, hplan, -⟩ := hidentity
  exact ⟨⟨hvisible, hplan, hpartition⟩, rfl, rfl, rfl, rfl, rfl, rfl⟩

/-- The claim of the leaf of a shard. -/
structure LeafOf (plan : AggregationPlan) (partition : PartitionPlan) (run : RunIdentity) (set : LeafExpectationSet) (index : DagIndex)
    (proofs : List (VerifiedProof blake3)) (s : ℕ) (claim : VerifiedClaim) : Prop where
  id : claim.id = .leaf (UInt64.ofNat s)
  covered : claim.coveredShards = ExtTreeSet.ofList [UInt64.ofNat s]
  accounted : Accounted (statementOf proofs) index (Fits partition run set index) claim
  origin : Origin plan partition run blake3 claim

/-- The claims of the leaves of the first shards. -/
structure FirstLeaves (plan : AggregationPlan) (partition : PartitionPlan) (run : RunIdentity) (set : LeafExpectationSet) (index : DagIndex)
    (proofs : List (VerifiedProof blake3)) (n : ℕ) (claims : ExtTreeMap AggregationChildId VerifiedClaim) : Prop where
  keys : AggregationTree.LeafClaims n claims
  leaves : ∀ s < n, ∀ claim, claims[AggregationChildId.leaf (UInt64.ofNat s)]? = some claim →
    LeafOf plan partition run set index proofs s claim

theorem shard_injective {n s s' : ℕ} (hn : n ≤ maxLeaves) (hs : s < n) (hs' : s' < n) (heq : UInt64.ofNat s = UInt64.ofNat s') : s = s' := by
  have hsmall : ∀ k < n, (UInt64.ofNat k).toNat = k := fun k hk =>
    UInt64.toNat_ofNat_of_lt' (Nat.lt_of_lt_of_le hk (Nat.le_trans hn (by decide)))
  rw [← hsmall s hs, heq, hsmall s' hs']

theorem FirstLeaves.step {n : ℕ} {claims : ExtTreeMap AggregationChildId VerifiedClaim}
    (h : FirstLeaves plan partition run set index proofs n claims) (hn : n + 1 ≤ maxLeaves) (hclaim : LeafOf plan partition run set index proofs n claim) :
    claim.id ∉ claims ∧ FirstLeaves plan partition run set index proofs (n + 1) (claims.insert claim.id claim) := by
  have hother : ∀ s < n, AggregationChildId.leaf (UInt64.ofNat n) ≠ .leaf (UInt64.ofNat s) := by
    intro s hs heq
    injection heq with heq
    have hsame := shard_injective hn (Nat.lt_succ_self n) (Nat.lt_succ_of_lt hs) heq
    omega
  rw [hclaim.id]
  refine ⟨fun hmem => ?_, fun id => ?_, fun s hs c hc => ?_⟩
  · obtain ⟨s, hs, heq⟩ := (h.keys _).mp hmem
    exact hother s hs heq
  · rw [ExtTreeMap.mem_insert, compare_eq_iff_eq, h.keys]
    constructor
    · rintro (rfl | ⟨s, hs, rfl⟩)
      · exact ⟨n, Nat.lt_succ_self n, rfl⟩
      · exact ⟨s, Nat.lt_succ_of_lt hs, rfl⟩
    · rintro ⟨s, hs, rfl⟩
      rcases Nat.lt_succ_iff_lt_or_eq.mp hs with hs | rfl
      · exact .inr ⟨s, hs, rfl⟩
      · exact .inl rfl
  · rw [ExtTreeMap.getElem?_insert] at hc
    rcases Nat.lt_succ_iff_lt_or_eq.mp hs with hs | rfl
    · rw [if_neg fun heq => hother s hs (compare_eq_iff_eq.mp heq)] at hc
      exact h.leaves s hs c hc
    · rw [if_pos Std.compare_self, Option.some.injEq] at hc
      exact hc ▸ hclaim

/-- Proofs in the order of the shards that are admitted one by one give the claims of all leaves. -/
theorem leaves_total (hindex : Indexes partition.dag.edges partition.shards.length index) (hn : partition.shards.length ≤ maxLeaves)
    (hcount : proofs.length = partition.shards.length) (hplaced : ∀ (s : ℕ) proof, proofs[s]? = some proof → proof.proof.shard.id.toNat = s)
    (hadmitted : ∀ proof ∈ proofs, ∃ claim, admitVerifiedLeafIndexed plan partition run proof set index = .ok claim) :
    ∃ claims, proofs.zipIdx.foldlM (admitProof plan partition run set index) ∅ = .ok claims ∧
      FirstLeaves plan partition run set index proofs partition.shards.length claims := by
  have hstep : ∀ done entry rest claims, proofs.zipIdx = done ++ entry :: rest →
      FirstLeaves plan partition run set index proofs done.length claims → ∃ claims', admitProof plan partition run set index claims entry = .ok claims' ∧
        FirstLeaves plan partition run set index proofs (done ++ [entry]).length claims' := by
    rintro done ⟨proof, s⟩ rest claims hsplit hdone
    have hmem : (proof, s) ∈ proofs.zipIdx := hsplit ▸ List.mem_append_right _ (.head _)
    have hproof : proofs[s]? = some proof := List.mem_zipIdx_iff_getElem?.mp hmem
    obtain rfl : s = done.length := by
      have hget : proofs.zipIdx[done.length]? = some (proof, s) := by
        rw [hsplit, List.getElem?_append_right (Nat.le_refl _), Nat.sub_self, List.getElem?_cons_zero]
      rw [List.getElem?_zipIdx, Option.map_eq_some_iff] at hget
      obtain ⟨_, -, heq⟩ := hget
      have hplace := congrArg Prod.snd heq
      dsimp only at hplace
      omega
    have hlast : done.length + 1 ≤ maxLeaves := by
      have hlt := (List.getElem?_eq_some_iff.mp hproof).1
      omega
    have hshard := hplaced _ proof hproof
    obtain ⟨claim, hclaim⟩ := hadmitted proof (List.mem_of_getElem? hproof)
    have hplace : proofs[proof.proof.shard.id.toNat]? = some proof := by
      rw [hshard]
      exact hproof
    obtain ⟨statement, -, -, hleaf, haccounted⟩ := admit_accounted hindex hn hplace hclaim
    have hword : proof.proof.shard.id = UInt64.ofNat done.length := by
      rw [← hshard, UInt64.ofNat_toNat]
    have hof : LeafOf plan partition run set index proofs done.length claim :=
      ⟨hword ▸ hleaf.id, hword ▸ hleaf.covered, haccounted, (admit_origin hclaim).2⟩
    obtain ⟨hfresh, hnext⟩ := hdone.step hlast hof
    refine ⟨claims.insert claim.id claim, ?_, ?_⟩
    · exact bind_eq_ok.mpr ⟨(), refuse_ok.mpr (not_not.mpr hshard), bind_eq_ok.mpr ⟨claim, hclaim,
        bind_eq_ok.mpr ⟨(), refuse_ok.mpr hfresh, rfl⟩⟩⟩
    · rw [List.length_append, List.length_singleton]
      exact hnext
  have hstart : FirstLeaves plan partition run set index proofs ([] : List (VerifiedProof blake3 × ℕ)).length ∅ :=
    ⟨fun id => by simp, fun s hs => absurd hs (Nat.not_lt_zero s)⟩
  obtain ⟨claims, hclaims, hall⟩ := foldlM_total
    (I := fun done claims => FirstLeaves plan partition run set index proofs done.length claims) hstep hstart
  rw [List.length_zipIdx, hcount] at hall
  exact ⟨claims, hclaims, hall⟩

theorem FirstLeaves.divided {claims : ExtTreeMap AggregationChildId VerifiedClaim}
    (h : FirstLeaves plan partition run set index proofs partition.shards.length claims) :
    Divided blake3 (statementOf proofs) index (Fits partition run set index) plan partition run
      ((List.range partition.shards.length).map UInt64.ofNat) claims := by
  have hleaf : ∀ (id : AggregationChildId) claim, claims[id]? = some claim → ∃ s < partition.shards.length, id = .leaf (UInt64.ofNat s) ∧
      LeafOf plan partition run set index proofs s claim := by
    intro id claim hclaim
    obtain ⟨s, hs, rfl⟩ := (h.keys id).mp (ExtTreeMap.mem_iff_isSome_getElem?.mpr (by rw [hclaim]; rfl))
    exact ⟨s, hs, rfl, h.leaves s hs claim hclaim⟩
  refine ⟨fun id claim hclaim => ?_, fun id claim hclaim => ?_, fun id claim hclaim => ?_, fun id claim hclaim s hs => ?_,
    fun id id' claim claim' hclaim hclaim' hne s hs hs' => ?_, fun s hs => ?_⟩
  · obtain ⟨s, -, rfl, hof⟩ := hleaf id claim hclaim
    exact hof.id
  · obtain ⟨s, -, -, hof⟩ := hleaf id claim hclaim
    exact hof.accounted
  · obtain ⟨s, -, -, hof⟩ := hleaf id claim hclaim
    exact hof.origin
  · obtain ⟨k, hk, -, hof⟩ := hleaf id claim hclaim
    rw [hof.covered, mem_single] at hs
    exact List.mem_map.mpr ⟨k, List.mem_range.mpr hk, hs.symm⟩
  · obtain ⟨k, -, rfl, hof⟩ := hleaf id claim hclaim
    obtain ⟨k', -, rfl, hof'⟩ := hleaf id' claim' hclaim'
    rw [hof'.covered, mem_single] at hs
    rw [hof.covered, mem_single] at hs'
    exact hne (by rw [← hs, ← hs'])
  · obtain ⟨k, hk, rfl⟩ := List.mem_map.mp hs
    have hk := List.mem_range.mp hk
    obtain ⟨claim, hclaim⟩ := Option.isSome_iff_exists.mp
      (ExtTreeMap.mem_iff_isSome_getElem?.mp ((h.keys (.leaf (UInt64.ofNat k))).mpr ⟨k, hk, rfl⟩))
    refine ⟨_, claim, hclaim, ?_⟩
    rw [(h.leaves k hk claim hclaim).covered, mem_single]

/-- The statements of the leaves fit together. -/
structure Fitting (partition : PartitionPlan) (statements : List LeafStatement) : Prop where
  connected : ∀ edge ∈ partition.dag.edges, ∃ producer consumer output input, Connected statements edge producer consumer output input
  oneInput : 2 ≤ partition.shards.length → ∀ b ∈ statements.flatMap publicInputsOf, ∀ b' ∈ statements.flatMap publicInputsOf,
    b.descriptor.registerId = b'.descriptor.registerId → b = b'
  oneOutput : 2 ≤ partition.shards.length → (statements.flatMap publicOutputsOf).Pairwise fun b b' =>
    List.Disjoint b.descriptor.graphOutputNames b'.descriptor.graphOutputNames

theorem declared_count {ds : List BoundaryDescriptor} {total total' : ℕ × ℕ} (h : ds.foldlM addDeclared total = some total') :
    total'.1 = total.1 + ds.length := by
  induction ds generalizing total with
  | nil =>
      cases h
      rfl
  | cons d ds ih =>
      rw [List.foldlM_cons, Option.bind_eq_bind, Option.bind_eq_some_iff] at h
      obtain ⟨next, hnext, hrest⟩ := h
      have hadd := (addDeclared_eq_some hnext).1
      simp only [addBoundary, bind, Option.bind_eq_some_iff, checked_eq_some, pure, Option.some.injEq] at hadd
      obtain ⟨_, ⟨-, rfl⟩, _, -, _, -, rfl⟩ := hadd
      rw [ih hrest, List.length_cons]
      dsimp only
      omega

theorem expectations_affordable (h : LeafExpectationSet.new blake3 partition expectations = .ok set) :
    Affordable (expectations.flatMap fun e => e.publicInputs ++ e.publicOutputs) := by
  obtain ⟨_, -, h⟩ := bind_eq_ok.mp h
  obtain ⟨_, hbudget, -⟩ := bind_eq_ok.mp h
  obtain ⟨total, htotal⟩ := Option.ne_none_iff_exists'.mp (refuse_ok.mp hbudget)
  have hcount := declared_count htotal
  refine ⟨budgeted_of_addDeclared htotal, ?_⟩
  rw [Nat.zero_add] at hcount
  exact hcount ▸ (foldlM_addDeclared_within (by decide) htotal).1

theorem leaves_affordable (h : Complete partition run set index proofs statements)
    (hset : LeafExpectationSet.new blake3 partition expectations = .ok set) :
    Affordable (((List.range partition.shards.length).map UInt64.ofNat).flatMap (declaredOf (statementOf proofs))) := by
  have hexpected : ∀ s ∈ List.range partition.shards.length, ∃ e, set.leaves[UInt64.ofNat s]? = some e ∧
      declaredOf (statementOf proofs) (UInt64.ofNat s) = e.publicInputs ++ e.publicOutputs := by
    intro s hs
    have hs := List.mem_range.mp hs
    have hget := List.getElem?_eq_getElem (h.length.symm ▸ hs : s < statements.length)
    obtain ⟨_, e, -, he, -, -, -, -, hinputs, houtputs⟩ := (h.fits s _ hget).identified.expected
    refine ⟨e, he, ?_⟩
    rw [declaredOf, inputsOf, outputsOf, h.statementOf hs, hget, List.map_append, ← hinputs, ← houtputs]
    rfl
  obtain ⟨es, hes⟩ := Satisfaction.exists_forall₂ hexpected
  have hdeclared : ((List.range partition.shards.length).map UInt64.ofNat).flatMap (declaredOf (statementOf proofs)) =
      es.flatMap fun e => e.publicInputs ++ e.publicOutputs := by
    rw [List.flatMap_map, List.flatMap_def, List.flatMap_def]
    congr 1
    rw [← List.forall₂_eq_eq_eq, List.forall₂_map_left_iff, List.forall₂_map_right_iff]
    exact hes.imp fun _ _ he => he.2
  have hkey : ∀ {s : ℕ} {e : LeafExpectation}, set.leaves[UInt64.ofNat s]? = some e → e.shardId = UInt64.ofNat s ∧ e ∈ expectations := by
    intro s e he
    rw [(expectations_digest hset).2.1] at he
    exact byShard_mem he
  have hnodup : es.Nodup := by
    have hshards := List.pairwise_map.mp h.shards_nodup
    refine forall₂_pairwise hes hshards fun s s' e e' hne he he' heq => hne ?_
    rw [← (hkey he.1).1, ← (hkey he'.1).1, heq]
  have hsub : es ⊆ expectations := by
    intro e he
    obtain ⟨s, -, hs, -⟩ := Satisfaction.forall₂_exists_of_mem hes.flip he
    exact (hkey hs).2
  obtain ⟨between, hperm, hsublist⟩ := List.subperm_of_subset hnodup hsub
  rw [hdeclared]
  exact (expectations_affordable hset).subperm ⟨_, hperm.flatMap_right _, hsublist.flatMap _⟩

/-- Statements that fit together do not contradict each other on the way to the root. -/
theorem leaves_consistent (h : Complete partition run set index proofs statements) (hfitting : Fitting partition statements)
    (hset : LeafExpectationSet.new blake3 partition expectations = .ok set) (hseveral : 2 ≤ partition.shards.length) :
    Consistent (statementOf proofs) index ((List.range partition.shards.length).map UInt64.ofNat) := by
  have hflat : ∀ {β : Type} (g : LeafStatement → List β),
      ((List.range partition.shards.length).map UInt64.ofNat).flatMap (fun s => ((statementOf proofs s).map g).getD []) =
        statements.flatMap g := by
    intro β g
    rw [List.flatMap_map, ← h.length]
    exact flatMap_range fun s hs => h.statementOf (h.length ▸ hs)
  refine ⟨h.shards_nodup, fun id edge hedge => ?_, ?_, ?_, leaves_affordable h hset⟩
  · obtain ⟨hmem, rfl⟩ := (h.indexes.mem id edge).mp hedge
    obtain ⟨producer, consumer, output, input, hconnected⟩ := hfitting.connected edge hmem
    obtain ⟨hlt, hconsumer⟩ := h.indexes.ends edge hmem
    have hproducer := Nat.lt_trans hlt hconsumer
    have houtput := commitmentOf_mention (h.fits _ _ hconnected.fromProducer).checked.outputsOnce
      (m := (output, String.ofList edge.id)) (mem_mentions.mpr ⟨hconnected.produced.1, hconnected.produced.2.1⟩)
    have hinput := commitmentOf_mention (h.fits _ _ hconnected.toConsumer).checked.inputsOnce
      (m := (input, String.ofList edge.id)) (mem_mentions.mpr ⟨hconnected.consumed.1, hconnected.consumed.2.1⟩)
    refine ⟨output.commitment, ?_, ?_⟩
    · rw [claimed, h.statementOf hproducer, hconnected.fromProducer]
      exact houtput
    · rw [claimed, h.statementOf hconsumer, hconnected.toConsumer, hconnected.same]
      exact hinput
  · have hinputs : ((List.range partition.shards.length).map UInt64.ofNat).flatMap (inputsOf (statementOf proofs)) =
        statements.flatMap publicInputsOf := hflat publicInputsOf
    rw [hinputs]
    exact hfitting.oneInput hseveral
  · have houtputs : ((List.range partition.shards.length).map UInt64.ofNat).flatMap (outputsOf (statementOf proofs)) =
        statements.flatMap publicOutputsOf := hflat publicOutputsOf
    rw [houtputs]
    exact hfitting.oneOutput hseveral

end Leaves

section Root

variable {serde : SerdeJson} {blake3 : Blake3} {plan : AggregationPlan} {partition : PartitionPlan} {run : RunIdentity}
  {proofs : List (VerifiedProof blake3)} {set : LeafExpectationSet} {index : DagIndex} {expectations : List LeafExpectation}
  {statements : List LeafStatement} {root : VerifiedClaim} {claims : ExtTreeMap AggregationChildId VerifiedClaim}

/-- A root of all shards has closed every edge, so that nothing is open. -/
theorem root_closed (hindex : Indexes partition.dag.edges partition.shards.length index)
    (hsound : Sound (statementOf proofs) index (Fits partition run set index) root)
    (hcovered : ∀ s < partition.shards.length, UInt64.ofNat s ∈ root.coveredShards) :
    (∀ edge ∈ partition.dag.edges, String.ofList edge.id ∈ root.closedEdges) ∧ root.frontier.keys = [] := by
  have hclosed : ∀ edge ∈ partition.dag.edges, String.ofList edge.id ∈ root.closedEdges := by
    intro edge hedge
    obtain ⟨hlt, hconsumer⟩ := hindex.ends edge hedge
    exact hsound.settled _ edge ((hindex.mem _ _).mpr ⟨hedge, rfl⟩) ⟨hcovered _ (Nat.lt_trans hlt hconsumer), hcovered _ hconsumer⟩
  refine ⟨hclosed, List.eq_nil_iff_forall_not_mem.mpr fun id hid => ?_⟩
  obtain ⟨entry, hentry⟩ := Option.isSome_iff_exists.mp (ExtTreeMap.mem_iff_isSome_getElem?.mp (ExtTreeMap.mem_keys.mp hid))
  rw [hsound.flow.frontier, opened] at hentry
  obtain ⟨edge, hedge, hentry⟩ := Option.bind_eq_some_iff.mp hentry
  obtain ⟨hmem, rfl⟩ := (hindex.mem id edge).mp hedge
  rw [if_neg fun hopen => hopen.1 (hclosed edge hmem)] at hentry
  cases hentry

theorem finalize_total (hserde : serde.Compact) (hplanned : Planned blake3 partition set plan) (hrun : RunOf plan partition run)
    (hindex : Indexes partition.dag.edges partition.shards.length index) (hflavor : run.proofFlavor.text.utf8ByteSize ≤ 256)
    (hroot : root.id = plan.root) (horigin : Origin plan partition run blake3 root) (hbudget : Budgeted (descriptors root))
    (hsound : Sound (statementOf proofs) index (Fits partition run set index) root)
    (hcovered : root.coveredShards.toList.Perm ((List.range partition.shards.length).map UInt64.ofNat)) :
    ∃ manifest, finalizeNativeManifest serde blake3 plan partition run root = .ok manifest := by
  have hmem : ∀ s < partition.shards.length, UInt64.ofNat s ∈ root.coveredShards := fun s hs =>
    ExtTreeSet.mem_toList.mp (hcovered.mem_iff.mpr (List.mem_map_of_mem (List.mem_range.mpr hs)))
  obtain ⟨hclosed, hopen⟩ := root_closed hindex hsound hmem
  have hleaves : root.leaves.size = partition.shards.length := by
    rw [← ExtTreeMap.length_keys, OrderedMap.keys_eq_toList.mpr hsound.leaves, hcovered.length_eq, List.length_map, List.length_range]
  obtain ⟨bytes, hencode, -⟩ : ∃ bytes, encode serde (rootManifest blake3 plan partition root) = .ok bytes ∧ bytes.length ≤ maxManifestBytes :=
    rootManifest_encodes hserde hbudget (horigin.proofFlavor ▸ hflavor)
  refine ⟨rootManifest blake3 plan partition root, bind_eq_ok.mpr ⟨set, hplanned.trusted, bind_eq_ok.mpr ⟨(), hrun.visible,
    bind_eq_ok.mpr ⟨(), refuse_ok.mpr ?_, bind_eq_ok.mpr ⟨(), refuseFirst_ok.mpr ?_, bind_eq_ok.mpr ⟨(), refuseFirst_ok.mpr ?_,
      bind_eq_ok.mpr ⟨(), refuseFirst_ok.mpr ?_, bind_eq_ok.mpr ⟨(), refuse_ok.mpr ?_, bind_eq_ok.mpr ⟨bytes, hencode, rfl⟩⟩⟩⟩⟩⟩⟩⟩⟩
  · simp only [not_or, not_not, ne_eq]
    exact ⟨hroot, horigin.aggregationDigest, horigin.partitionDigest, hrun.aggregationPlan, hrun.partitionPlan⟩
  · apply List.find?_eq_none.mpr
    intro shard hshard
    have hid : shard.id < partition.shards.length := by
      have hids : shard.id ∈ List.range partition.shards.length := by
        rw [← hplanned.valid.ids]
        exact List.mem_map_of_mem hshard
      exact List.mem_range.mp hids
    simpa using hmem shard.id hid
  · apply List.find?_eq_none.mpr
    intro edge hedge
    simpa using hclosed edge hedge
  · rw [hopen]
    rfl
  · simp only [not_or, not_not, ne_eq]
    exact ⟨horigin.modelDigest, horigin.weightsDigest, horigin.proofFlavor, horigin.runIdentityDigest, hleaves⟩

/-- The root of several leaves, or of one. -/
theorem root_total (hplanned : Planned blake3 partition set plan) (hset : LeafExpectationSet.new blake3 partition expectations = .ok set)
    (hcomplete : Complete partition run set index proofs statements) (hfitting : Fitting partition statements)
    (hleaves : FirstLeaves plan partition run set index proofs partition.shards.length claims) :
    ∃ claims', mergeLevels (mergeVerifiedClaimsIndexed blake3 index) plan.levels claims = .ok claims' ∧
      Divided blake3 (statementOf proofs) index (Fits partition run set index) plan partition run
        ((List.range partition.shards.length).map UInt64.ofNat) claims' ∧ ∀ id, id ∈ claims' ↔ id = plan.root := by
  have hpos := List.length_pos_iff.mpr hplanned.valid.nonempty
  rcases (show 2 ≤ partition.shards.length ∨ partition.shards.length = 1 by omega) with hseveral | hone
  · obtain ⟨other, -⟩ := Option.isSome_iff_exists.mp
      (ExtTreeMap.mem_iff_isSome_getElem?.mp ((hleaves.keys (.leaf (UInt64.ofNat 0))).mpr ⟨0, hpos, rfl⟩))
    exact merged_total (leaves_consistent hcomplete hfitting hset hseveral) hplanned.ordered hleaves.divided hleaves.keys other
  · obtain ⟨hlevels, hroot⟩ := hplanned.single hone
    refine ⟨claims, by rw [hlevels]; rfl, hleaves.divided, fun id => ?_⟩
    rw [hleaves.keys, hroot, hone]
    constructor
    · rintro ⟨s, hs, rfl⟩
      obtain rfl : s = 0 := by omega
      rfl
    · rintro rfl
      exact ⟨0, Nat.one_pos, rfl⟩

/-- The proofs stand in the order of the shards, each is admitted by itself, and what they state fits together. -/
structure Acceptable (plan : AggregationPlan) (partition : PartitionPlan) (run : RunIdentity) (proofs : List (VerifiedProof blake3)) : Prop where
  count : proofs.length = partition.shards.length
  placed : ∀ (s : ℕ) proof, proofs[s]? = some proof → proof.proof.shard.id.toNat = s
  admitted : ∀ proof ∈ proofs, ∃ claim, admitVerifiedLeaf plan partition run proof = .ok claim
  fitting : ∃ statements, Stated proofs statements ∧ Fitting partition statements

theorem stated_unique {statements' : List LeafStatement} (h : Stated proofs statements) (h' : Stated proofs statements') :
    statements = statements' :=
  List.map_injective_iff.mpr (fun _ _ => Except.ok.inj (ε := Statement.LeafStatementError)) (h.symm.trans h')

theorem admitVerifiedLeaf_ok {proof : VerifiedProof blake3} {claim : VerifiedClaim} :
    admitVerifiedLeaf plan partition run proof = .ok claim ↔ ∃ set index, trustedLeafExpectations blake3 plan partition = .ok set ∧
      DagIndex.new partition.dag partition.shards.length = .ok index ∧
        admitVerifiedLeafIndexed plan partition run proof set index = .ok claim := by
  rw [admitVerifiedLeaf]
  simp only [bind_eq_ok]
  constructor
  · rintro ⟨set, hset, index, hindex, h⟩
    exact ⟨set, index, hset, hindex, h⟩
  · rintro ⟨set, index, hset, hindex, h⟩
    exact ⟨set, hset, index, hindex, h⟩

theorem acceptable_of_build {manifest : VerifiedManifest} (h : buildNativeManifest serde plan partition run proofs = .ok manifest) :
    Acceptable plan partition run proofs := by
  obtain ⟨_, _, statements, root, -, hcomplete, hroot, hfinal, rfl⟩ := build_complete h
  have hbound := hcomplete.bound hroot hfinal
  obtain ⟨set, hset, h⟩ := bind_eq_ok.mp h
  obtain ⟨_, -, h⟩ := bind_eq_ok.mp h
  obtain ⟨index, hnew, h⟩ := bind_eq_ok.mp h
  obtain ⟨_, -, h⟩ := bind_eq_ok.mp h
  obtain ⟨leaves, hleaves, -⟩ := bind_eq_ok.mp h
  have hadmitted : ∀ (s : ℕ) proof, proofs[s]? = some proof → proof.proof.shard.id.toNat = s ∧
      ∃ claim, admitVerifiedLeafIndexed plan partition run proof set index = .ok claim := by
    intro s proof hproof
    obtain ⟨_, _, hstep⟩ := foldlM_ok_step hleaves (x := (proof, s)) (List.mem_zipIdx_iff_getElem?.mpr hproof)
    obtain ⟨_, hplaced, hstep⟩ := bind_eq_ok.mp hstep
    obtain ⟨claim, hclaim, -⟩ := bind_eq_ok.mp hstep
    exact ⟨not_not.mp (refuse_ok.mp hplaced), claim, hclaim⟩
  refine ⟨hcomplete.count, fun s proof hproof => (hadmitted s proof hproof).1, fun proof hmem => ?_, statements, hcomplete.stated,
    hbound.connected, hbound.oneInput, hbound.oneOutput⟩
  obtain ⟨s, hs⟩ := List.mem_iff_getElem?.mp hmem
  obtain ⟨claim, hclaim⟩ := (hadmitted s proof hs).2
  exact ⟨claim, admitVerifiedLeaf_ok.mpr ⟨set, index, hset, hnew, hclaim⟩⟩

theorem Acceptable.build (h : Acceptable plan partition run proofs) (hserde : serde.Compact)
    (hset : LeafExpectationSet.new blake3 partition expectations = .ok set) (hplanned : Planned blake3 partition set plan)
    (hflavor : run.proofFlavor.text.utf8ByteSize ≤ 256) : ∃ manifest, buildNativeManifest serde plan partition run proofs = .ok manifest := by
  have hpos := List.length_pos_iff.mpr hplanned.valid.nonempty
  obtain ⟨index, hnew, hadmitted⟩ : ∃ index, DagIndex.new partition.dag partition.shards.length = .ok index ∧
      ∀ proof ∈ proofs, ∃ claim, admitVerifiedLeafIndexed plan partition run proof set index = .ok claim := by
    obtain ⟨first, hfirst⟩ := List.exists_mem_of_length_pos (h.count ▸ hpos)
    obtain ⟨_, hclaim⟩ := h.admitted first hfirst
    obtain ⟨-, index, -, hnew, -⟩ := admitVerifiedLeaf_ok.mp hclaim
    refine ⟨index, hnew, fun proof hproof => ?_⟩
    obtain ⟨claim, hclaim⟩ := h.admitted proof hproof
    obtain ⟨set', index', hset', hnew', hclaim⟩ := admitVerifiedLeaf_ok.mp hclaim
    obtain rfl := Except.ok.inj (hnew.symm.trans hnew')
    obtain rfl := Except.ok.inj (hplanned.trusted.symm.trans hset')
    exact ⟨claim, hclaim⟩
  obtain ⟨hindex, hn⟩ := new_indexes hnew
  obtain ⟨leaves, hleaves, hfirst⟩ := leaves_total hindex hn h.count h.placed hadmitted
  obtain ⟨statements, hcomplete⟩ := leaves_complete hindex hn h.count hleaves
  obtain ⟨_, hstated, hfitting⟩ := h.fitting
  obtain rfl := stated_unique hcomplete.stated hstated
  obtain ⟨claims, hclaims, hdivided, hkeys⟩ := root_total hplanned hset hcomplete hfitting hfirst
  have hroots : Holds (Admitted blake3 set) claims := by
    have hadmitted : Holds (Admitted blake3 set) leaves :=
      foldlM_keeps (fun _ _ _ hclaims hstep => hclaims.admitProof hstep) Holds.empty hleaves
    exact hadmitted.mergeLevels (fun _ _ _ => Admitted.merge) hclaims
  obtain ⟨root, hroot⟩ := Option.isSome_iff_exists.mp (ExtTreeMap.mem_iff_isSome_getElem?.mp ((hkeys plan.root).mpr rfl))
  have hcovered : root.coveredShards.toList.Perm ((List.range partition.shards.length).map UInt64.ofNat) := by
    apply (List.perm_ext_iff_of_nodup (OrderedMap.nodup_setToList _) hcomplete.shards_nodup).mpr
    intro s
    rw [ExtTreeSet.mem_toList]
    refine ⟨hdivided.known plan.root root hroot s, fun hs => ?_⟩
    obtain ⟨id, claim, hclaim, hin⟩ := hdivided.all s hs
    obtain rfl := (hkeys id).mp (ExtTreeMap.mem_iff_isSome_getElem?.mpr (by rw [hclaim]; rfl))
    obtain rfl := Option.some.inj (hclaim.symm.trans hroot)
    exact hin
  have hrun : RunOf plan partition run := by
    obtain ⟨first, hfirst⟩ := List.exists_mem_of_length_pos (h.count ▸ hpos)
    obtain ⟨_, hclaim⟩ := hadmitted first hfirst
    exact (admit_origin hclaim).1
  obtain ⟨manifest, hmanifest⟩ := finalize_total hserde hplanned hrun hindex hflavor (hdivided.keyed plan.root root hroot)
    (hdivided.origin plan.root root hroot) ((hroots plan.root root hroot).budgeted hset) (hdivided.accounted plan.root root hroot).sound hcovered
  refine ⟨manifest, bind_eq_ok.mpr ⟨set, hplanned.trusted, bind_eq_ok.mpr ⟨(), hrun.visible, bind_eq_ok.mpr ⟨index, hnew,
    bind_eq_ok.mpr ⟨(), refuse_ok.mpr (not_not.mpr h.count), bind_eq_ok.mpr ⟨leaves, hleaves, bind_eq_ok.mpr ⟨claims, hclaims, ?_⟩⟩⟩⟩⟩⟩⟩
  rw [hroot]
  refine bind_eq_ok.mpr ⟨(), refuse_ok.mpr ?_, hmanifest⟩
  rw [Bool.not_eq_false, ExtTreeMap.isEmpty_iff, ExtTreeMap.eq_empty_iff_forall_not_mem]
  intro id hid
  rw [ExtTreeMap.mem_erase, ne_eq, compare_eq_iff_eq] at hid
  exact hid.1 ((hkeys id).mp hid.2).symm

end Root

section Sample

theorem two_chunks (h : 0 < 2) : chunks 2 h [AggregationChildId.leaf 0, .leaf 1] = [⟨[.leaf 0, .leaf 1], List.cons_ne_nil _ _, Nat.le_refl 2⟩] := by
  rw [chunks, List.cons.injEq]
  exact ⟨rfl, by rw [List.drop, List.drop, chunks]⟩

theorem two_levels (h : 2 ≤ 2 ∧ 2 ≤ 16) : planLevels h [] [.leaf 0, .leaf 1] = .ok ([[twoNode]], [.node 0 0]) := by
  have hgroup : groupLevel h 0 [.leaf 0, .leaf 1] = .ok ([twoNode], [.node 0 0]) := by
    rw [groupLevel, two_chunks]
    rfl
  rw [planLevels, if_pos (by decide), if_neg (by decide)]
  refine bind_eq_ok.mpr ⟨0, rfl, bind_eq_ok.mpr ⟨_, hgroup, ?_⟩⟩
  dsimp only
  rw [dif_neg (by decide), planLevels, if_neg (by decide)]
  rfl

theorem twoPlan_built : planAggregation flatHash twoShards ⟨2, two_ne⟩ =
    .ok { twoPlan ⟨2, two_ne⟩ with leafExpectations := none } := by
  have hfan : minFanIn ≤ (2 : UInt8) ∧ (2 : UInt8) ≤ maxFanIn := ⟨by decide, by decide⟩
  have haccepted : ¬(twoShards.shards = [] ∨ maxLeaves < twoShards.shards.length ∨ maxEdges < twoShards.dag.edges.length ∨
      (∃ entry ∈ twoShards.shards.zipIdx, entry.1.id ≠ entry.2) ∨
      ∃ edge ∈ twoShards.dag.edges, edge.consumer ≤ edge.producer ∨ twoShards.shards.length ≤ edge.consumer) := by
    decide +kernel
  rw [planAggregation, dif_pos hfan, if_neg haccepted]
  exact bind_eq_ok.mpr ⟨_, two_levels (fan_bounds hfan), rfl⟩

theorem twoSet_new : LeafExpectationSet.new flatHash twoShards [twoLeaf false, twoLeaf true] = .ok twoSet := by
  have hnames : ¬∃ shard ∈ twoShards.shards, ∀ expected ∈ (byShard [twoLeaf false, twoLeaf true])[UInt64.ofNat shard.id]?,
      expected.shardName ≠ shard.name := by
    decide +kernel
  exact bind_eq_ok.mpr ⟨(), refuse_ok.mpr (by decide), bind_eq_ok.mpr ⟨(), refuse_ok.mpr (by decide +kernel),
    bind_eq_ok.mpr ⟨(), refuse_ok.mpr (not_or.mpr ⟨not_not.mpr twoSet_size, hnames⟩), rfl⟩⟩⟩

theorem twoPlan_bound : bindLeafExpectations flatHash { twoPlan ⟨2, two_ne⟩ with leafExpectations := none } twoSet =
    .ok (twoPlan ⟨2, two_ne⟩) :=
  bind_eq_ok.mpr ⟨(), refuse_ok.mpr (not_or.mpr ⟨not_not.mpr rfl, not_not.mpr twoSet_size⟩), rfl⟩

end Sample

end Zkie.ManifestAccepts
