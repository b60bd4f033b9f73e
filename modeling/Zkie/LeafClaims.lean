import Zkie.NativeManifest

namespace Zkie.LeafClaims

open AggregationDigest AggregationTree Checked ClaimMerging
open BuildDag (Dag Edge)
open PoseidonBoundary (Blake3)
open ScalarField (Fr)
open Statement (BoundaryClaim LeafStatement)
open VerifyProof (VerifiedProof)
open Zkie.Partition (PartitionPlan)

section Index

variable {dag : Dag} {n : ℕ} {index : DagIndex}

/-- The index has the edges of a graph, under their ids and under their ends. -/
structure Indexes (edges : List Edge) (n : ℕ) (index : DagIndex) : Prop where
  mem : ∀ (id : String) edge, index.edgesById[id]? = some edge ↔ edge ∈ edges ∧ String.ofList edge.id = id
  ends : ∀ edge ∈ edges, edge.producer < edge.consumer ∧ edge.consumer < n
  length : index.incidentEdges.length = n
  incident : ∀ s < n, ∀ edge, edge ∈ index.incident s ↔ edge ∈ edges ∧ (edge.producer = s ∨ edge.consumer = s)

theorem indexes_empty (n : ℕ) : Indexes [] n ⟨∅, List.replicate n []⟩ where
  mem id edge := by simp
  ends edge hedge := by cases hedge
  length := List.length_replicate
  incident s hs edge := by simp [DagIndex.incident, hs]

theorem mem_modify {lists : List (List Edge)} {at_ s : ℕ} {added edge : Edge} (hs : s < lists.length) :
    edge ∈ ((lists.modify at_ (· ++ [added]))[s]?.getD []) ↔ edge ∈ lists[s]?.getD [] ∨ at_ = s ∧ edge = added := by
  rw [List.getElem?_modify, List.getElem?_eq_getElem hs]
  by_cases h : at_ = s
  · simp [h]
  · simp [h]

theorem Indexes.addEdge {edges : List Edge} {index' : DagIndex} {edge : Edge} (h : Indexes edges n index)
    (hok : index.addEdge n edge = .ok index') : Indexes (edges ++ [edge]) n index' := by
  obtain ⟨_, hrefuse, hok⟩ := bind_eq_ok.mp hok
  cases hok
  have hrefuse := refuseIf_ok.mp hrefuse
  simp only [not_or, not_le] at hrefuse
  obtain ⟨hproducer, hconsumer, hlt, hfresh⟩ := hrefuse
  refine ⟨fun id e => ?_, ?_, ?_, fun s hs e => ?_⟩
  · rw [Std.ExtTreeMap.getElem?_insert]
    by_cases hid : String.ofList edge.id = id
    · subst hid
      simp only [Std.compare_self, if_true, Option.some.injEq, List.mem_append, List.mem_singleton]
      constructor
      · rintro rfl
        exact ⟨.inr rfl, rfl⟩
      · rintro ⟨hold | rfl, heq⟩
        · have hget := (h.mem _ _).mpr ⟨hold, heq⟩
          exact absurd (Std.ExtTreeMap.mem_iff_isSome_getElem?.mpr (by rw [hget]; rfl)) hfresh
        · rfl
    · rw [if_neg fun heq => hid (compare_eq_iff_eq.mp heq), h.mem, List.mem_append, List.mem_singleton]
      constructor
      · rintro ⟨hold, heq⟩
        exact ⟨.inl hold, heq⟩
      · rintro ⟨hold | rfl, heq⟩
        · exact ⟨hold, heq⟩
        · exact absurd heq hid
  · intro e he
    rcases List.mem_append.mp he with he | he
    · exact h.ends e he
    · obtain rfl := List.mem_singleton.mp he
      exact ⟨hlt, hconsumer⟩
  · rw [List.length_modify, List.length_modify, h.length]
  · have hlength : s < index.incidentEdges.length := h.length ▸ hs
    rw [DagIndex.incident, mem_modify (by rwa [List.length_modify]), mem_modify hlength]
    have hold := h.incident s hs e
    rw [DagIndex.incident] at hold
    rw [hold, List.mem_append, List.mem_singleton]
    constructor
    · rintro ((⟨hold, hend⟩ | ⟨rfl, rfl⟩) | ⟨rfl, rfl⟩)
      · exact ⟨.inl hold, hend⟩
      · exact ⟨.inr rfl, .inl rfl⟩
      · exact ⟨.inr rfl, .inr rfl⟩
    · rintro ⟨hold | rfl, hend⟩
      · exact .inl (.inl ⟨hold, hend⟩)
      · rcases hend with hend | hend
        · exact .inl (.inr ⟨hend, rfl⟩)
        · exact .inr ⟨hend, rfl⟩

theorem new_indexes (h : DagIndex.new dag n = .ok index) : Indexes dag.edges n index ∧ n ≤ maxLeaves := by
  obtain ⟨_, hrefuse, h⟩ := bind_eq_ok.mp h
  have hrefuse := refuseIf_ok.mp hrefuse
  simp only [not_or, not_lt] at hrefuse
  have hall := foldlM_builds (I := fun edges index => Indexes edges n index) (fun _ _ _ _ hdone hstep => hdone.addEdge hstep) []
    (indexes_empty n) h
  exact ⟨hall, hrefuse.2.1⟩

end Index

theorem refuse_ok {c : Prop} [Decidable c] {error : AggregationError} {u : Unit} : refuseIf c error = .ok u ↔ ¬c := refuseIf_ok

section Sides

variable {index : DagIndex} {shardId : UInt64} {out : Bool} {claims : List BoundaryClaim} {frontier frontier' : Frontier}

/-- The commitment that the claims have for an edge. -/
def commitmentOf (claims : List BoundaryClaim) (edgeId : String) : Option Fr :=
  (claims.find? fun claim => edgeId ∈ claim.descriptor.edgeIds).map (·.commitment)

/-- The edges that the claims speak of, each with its claim. -/
def mentions (claims : List BoundaryClaim) : List (BoundaryClaim × String) :=
  claims.flatMap fun claim => claim.descriptor.edgeIds.map (claim, ·)

theorem mem_mentions {mention : BoundaryClaim × String} : mention ∈ mentions claims ↔
    mention.1 ∈ claims ∧ mention.2 ∈ mention.1.descriptor.edgeIds := by
  simp only [mentions, List.mem_flatMap, List.mem_map]
  constructor
  · rintro ⟨claim, hclaim, id, hid, rfl⟩
    exact ⟨hclaim, hid⟩
  · rintro ⟨hclaim, hid⟩
    exact ⟨_, hclaim, _, hid, rfl⟩

/-- The end of an edge on one of its sides. -/
def endOf (out : Bool) (edge : Edge) : ℕ := if out then edge.producer else edge.consumer

def entryOf (frontier : Frontier) (id : String) : EdgeFrontier := frontier.getD id ⟨none, none⟩

/-- The claim is right to speak of the edge. -/
def Speaks (index : DagIndex) (shardId : UInt64) (out : Bool) (mention : BoundaryClaim × String) : Prop :=
  ∃ edge, index.edgesById[mention.2]? = some edge ∧ endOf out edge = shardId.toNat ∧
    mention.1.descriptor.registerId = registerId edge.register

theorem admitEdge_ok {mention : BoundaryClaim × String} :
    admitEdge index shardId out mention.1 frontier mention.2 = .ok frontier' ↔ Speaks index shardId out mention ∧
      slot out (entryOf frontier mention.2) = none ∧
        frontier.insert mention.2 (fill out mention.1.commitment (entryOf frontier mention.2)) = frontier' := by
  unfold admitEdge Speaks
  cases hedge : index.edgesById[mention.2]? with
  | none => simp
  | some edge =>
      simp only [bind_eq_ok, refuse_ok, not_or, not_not, ne_eq, Option.some.injEq, exists_eq_left']
      constructor
      · rintro ⟨_, hends, _, hslot, h⟩
        cases h
        exact ⟨hends, hslot, rfl⟩
      · rintro ⟨hends, hslot, rfl⟩
        exact ⟨(), hends, (), hslot, rfl⟩

theorem entryOf_insert_self (id : String) (entry : EdgeFrontier) : entryOf (frontier.insert id entry) id = entry := by
  simp [entryOf]

theorem entryOf_insert_ne {id id' : String} (entry : EdgeFrontier) (h : id ≠ id') :
    entryOf (frontier.insert id entry) id' = entryOf frontier id' := by
  simp [entryOf, Std.ExtTreeMap.getD_insert, h]

theorem getElem?_insert_ne {id id' : String} (entry : EdgeFrontier) (h : id ≠ id') :
    (frontier.insert id entry)[id']? = frontier[id']? := by
  simp [Std.ExtTreeMap.getElem?_insert, h]

theorem slot_fill (entry : EdgeFrontier) (commitment : Fr) : slot out (fill out commitment entry) = some commitment := by
  cases out <;> rfl

/-- Claims of one side fill that side of the edges they speak of, each once, and nothing else. -/
structure Fills (index : DagIndex) (shardId : UInt64) (out : Bool) (ms : List (BoundaryClaim × String))
    (frontier frontier' : Frontier) : Prop where
  speaks : ∀ m ∈ ms, Speaks index shardId out m
  once : (ms.map Prod.snd).Nodup
  fresh : ∀ m ∈ ms, slot out (entryOf frontier m.2) = none
  filled : ∀ m ∈ ms, frontier'[m.2]? = some (fill out m.1.commitment (entryOf frontier m.2))
  kept : ∀ id ∉ ms.map Prod.snd, frontier'[id]? = frontier[id]?

theorem fills_of_ok {ms : List (BoundaryClaim × String)}
    (h : ms.foldlM (fun frontier m => admitEdge index shardId out m.1 frontier m.2) frontier = .ok frontier') :
    Fills index shardId out ms frontier frontier' := by
  induction ms generalizing frontier with
  | nil =>
      cases h
      exact ⟨by simp, List.nodup_nil, by simp, by simp, fun _ _ => rfl⟩
  | cons m ms ih =>
      rw [List.foldlM_cons] at h
      obtain ⟨_, hstep, hrest⟩ := bind_eq_ok.mp h
      obtain ⟨hspeaks, hslot, rfl⟩ := admitEdge_ok.mp hstep
      have hfills := ih hrest
      have hnew : m.2 ∉ ms.map Prod.snd := by
        intro hmem
        obtain ⟨m', hm', heq⟩ := List.mem_map.mp hmem
        have hfresh := hfills.fresh m' hm'
        rw [heq, entryOf_insert_self, slot_fill] at hfresh
        cases hfresh
      have hne : ∀ m' ∈ ms, m.2 ≠ m'.2 := fun m' hm' heq => hnew (heq ▸ List.mem_map_of_mem hm')
      refine ⟨List.forall_mem_cons.mpr ⟨hspeaks, hfills.speaks⟩, List.nodup_cons.mpr ⟨hnew, hfills.once⟩, ?_, ?_, ?_⟩
      · refine List.forall_mem_cons.mpr ⟨hslot, fun m' hm' => ?_⟩
        rw [← entryOf_insert_ne _ (hne m' hm')]
        exact hfills.fresh m' hm'
      · refine List.forall_mem_cons.mpr ⟨?_, fun m' hm' => ?_⟩
        · rw [hfills.kept m.2 hnew, Std.ExtTreeMap.getElem?_insert_self]
        · rw [hfills.filled m' hm', entryOf_insert_ne _ (hne m' hm')]
      · intro id hid
        rw [List.map_cons, List.mem_cons, not_or] at hid
        rw [hfills.kept id hid.2, getElem?_insert_ne _ (Ne.symm hid.1)]

theorem admitClaims_ok (h : claims.foldlM (admitClaim index shardId out) frontier = .ok frontier') :
    (∀ claim ∈ claims, claim.descriptor.edgeIds = [] → IsPublic out claim.descriptor) ∧
      Fills index shardId out (mentions claims) frontier frontier' := by
  suffices hall : (∀ claim ∈ claims, claim.descriptor.edgeIds = [] → IsPublic out claim.descriptor) ∧
      (mentions claims).foldlM (fun frontier m => admitEdge index shardId out m.1 frontier m.2) frontier = .ok frontier' from
    ⟨hall.1, fills_of_ok hall.2⟩
  induction claims generalizing frontier with
  | nil => exact ⟨by simp, h⟩
  | cons claim claims ih =>
      rw [List.foldlM_cons] at h
      obtain ⟨between, hclaim, hrest⟩ := bind_eq_ok.mp h
      obtain ⟨_, hpublic, hclaim⟩ := bind_eq_ok.mp hclaim
      obtain ⟨hothers, hfold⟩ := ih hrest
      refine ⟨List.forall_mem_cons.mpr ⟨fun hempty => ?_, hothers⟩, ?_⟩
      · by_contra hnot
        exact refuse_ok.mp hpublic ⟨hempty, hnot⟩
      · rw [mentions, List.flatMap_cons, List.foldlM_append, List.foldlM_map]
        exact bind_eq_ok.mpr ⟨between, hclaim, hfold⟩

theorem commitmentOf_mention (honce : ((mentions claims).map Prod.snd).Nodup) {m : BoundaryClaim × String} (hm : m ∈ mentions claims) :
    commitmentOf claims m.2 = some m.1.commitment := by
  obtain ⟨hclaim, hid⟩ := mem_mentions.mp hm
  obtain ⟨found, hfound⟩ := Option.isSome_iff_exists.mp
    ((List.find?_isSome (p := fun claim : BoundaryClaim => decide (m.2 ∈ claim.descriptor.edgeIds))).mpr
      ⟨m.1, hclaim, decide_eq_true hid⟩)
  have hspeaks : m.2 ∈ found.descriptor.edgeIds := by simpa using List.find?_some hfound
  have hmem : (found, m.2) ∈ mentions claims := mem_mentions.mpr ⟨List.mem_of_find?_eq_some hfound, hspeaks⟩
  have heq : (found, m.2) = m := List.inj_on_of_nodup_map honce hmem hm rfl
  rw [commitmentOf, hfound, ← heq]
  rfl

theorem commitmentOf_eq_some {id : String} {commitment : Fr} (h : commitmentOf claims id = some commitment) :
    ∃ claim, (claim, id) ∈ mentions claims ∧ claim.commitment = commitment := by
  obtain ⟨claim, hfind, rfl⟩ := Option.map_eq_some_iff.mp h
  have hid : id ∈ claim.descriptor.edgeIds := by simpa using List.find?_some hfind
  exact ⟨claim, mem_mentions.mpr ⟨List.mem_of_find?_eq_some hfind, hid⟩, rfl⟩

theorem mem_mentions_iff {id : String} : id ∈ (mentions claims).map Prod.snd ↔ (commitmentOf claims id).isSome := by
  constructor
  · intro hid
    obtain ⟨m, hm, rfl⟩ := List.mem_map.mp hid
    obtain ⟨hclaim, hid⟩ := mem_mentions.mp hm
    rw [commitmentOf, Option.isSome_map, List.find?_isSome]
    exact ⟨m.1, hclaim, decide_eq_true hid⟩
  · intro hsome
    obtain ⟨commitment, hcommitment⟩ := Option.isSome_iff_exists.mp hsome
    obtain ⟨claim, hmem, -⟩ := commitmentOf_eq_some hcommitment
    exact List.mem_map.mpr ⟨_, hmem, rfl⟩

end Sides

section Leaf

variable {index : DagIndex} {shardId : UInt64} {edges : List Edge} {n : ℕ} {statement : LeafStatement}
  {inputs frontier : Frontier}

/-- The sides of an edge that the claims of one leaf have. -/
def leafEntry (statement : LeafStatement) (id : String) : EdgeFrontier :=
  ⟨commitmentOf statement.outputClaims id, commitmentOf statement.inputClaims id⟩

theorem leafFrontier_get (hinputs : Fills index shardId false (mentions statement.inputClaims) ∅ inputs)
    (houtputs : Fills index shardId true (mentions statement.outputClaims) inputs frontier) (id : String) :
    frontier[id]? = if (commitmentOf statement.outputClaims id).isSome ∨ (commitmentOf statement.inputClaims id).isSome then
      some (leafEntry statement id) else none := by
  have hfirst : inputs[id]? = (commitmentOf statement.inputClaims id).map fun commitment => ⟨none, some commitment⟩ := by
    by_cases hmem : id ∈ (mentions statement.inputClaims).map Prod.snd
    · obtain ⟨m, hm, rfl⟩ := List.mem_map.mp hmem
      rw [hinputs.filled m hm, commitmentOf_mention hinputs.once hm]
      simp [entryOf, fill]
    · rw [hinputs.kept id hmem, Option.not_isSome_iff_eq_none.mp fun hsome => hmem (mem_mentions_iff.mpr hsome)]
      simp
  have hentry : entryOf inputs id = ⟨none, commitmentOf statement.inputClaims id⟩ := by
    rw [entryOf, Std.ExtTreeMap.getD_eq_getD_getElem?, hfirst]
    cases commitmentOf statement.inputClaims id <;> rfl
  by_cases hmem : id ∈ (mentions statement.outputClaims).map Prod.snd
  · have hsome := mem_mentions_iff.mp hmem
    obtain ⟨m, hm, rfl⟩ := List.mem_map.mp hmem
    rw [if_pos (.inl hsome), houtputs.filled m hm, hentry, leafEntry, commitmentOf_mention houtputs.once hm]
    rfl
  · have hnone := Option.not_isSome_iff_eq_none.mp fun hsome => hmem (mem_mentions_iff.mpr hsome)
    rw [houtputs.kept id hmem, hfirst, leafEntry, hnone]
    cases commitmentOf statement.inputClaims id <;> rfl

/-- What a leaf has been checked for against the graph: its claims are about its own edges, and about all of them. -/
structure Checked (index : DagIndex) (shardId : UInt64) (statement : LeafStatement) : Prop where
  inputs : ∀ m ∈ mentions statement.inputClaims, Speaks index shardId false m
  outputs : ∀ m ∈ mentions statement.outputClaims, Speaks index shardId true m
  inputsOnce : ((mentions statement.inputClaims).map Prod.snd).Nodup
  outputsOnce : ((mentions statement.outputClaims).map Prod.snd).Nodup
  inputPublic : ∀ claim ∈ statement.inputClaims, claim.descriptor.edgeIds = [] → IsPublic false claim.descriptor
  outputPublic : ∀ claim ∈ statement.outputClaims, claim.descriptor.edgeIds = [] → IsPublic true claim.descriptor
  produced : ∀ (id : String) edge, index.edgesById[id]? = some edge →
    ((commitmentOf statement.outputClaims id).isSome ↔ edge.producer = shardId.toNat)
  consumed : ∀ (id : String) edge, index.edgesById[id]? = some edge →
    ((commitmentOf statement.inputClaims id).isSome ↔ edge.consumer = shardId.toNat)

theorem Fills.speaks_end {out : Bool} {claims : List BoundaryClaim} {before after : Frontier} {edge : Edge} {id : String}
    (h : Fills index shardId out (mentions claims) before after) (hedge : index.edgesById[id]? = some edge)
    (hsome : (commitmentOf claims id).isSome) : endOf out edge = shardId.toNat := by
  obtain ⟨m, hm, rfl⟩ := List.mem_map.mp (mem_mentions_iff.mpr hsome)
  obtain ⟨edge', hedge', hend, -⟩ := h.speaks m hm
  rw [hedge] at hedge'
  cases hedge'
  exact hend

theorem checked_of_fills (hindex : Indexes edges n index) (hn : shardId.toNat < n)
    (hinputs : Fills index shardId false (mentions statement.inputClaims) ∅ inputs)
    (houtputs : Fills index shardId true (mentions statement.outputClaims) inputs frontier)
    (hinputPublic : ∀ claim ∈ statement.inputClaims, claim.descriptor.edgeIds = [] → IsPublic false claim.descriptor)
    (houtputPublic : ∀ claim ∈ statement.outputClaims, claim.descriptor.edgeIds = [] → IsPublic true claim.descriptor)
    (hincident : (index.incident shardId.toNat).forM (checkIncident shardId frontier) = .ok ()) :
    Checked index shardId statement := by
  have hsides : ∀ (id : String) edge, index.edgesById[id]? = some edge → (edge.producer = shardId.toNat ∨ edge.consumer = shardId.toNat) →
      (edge.producer = shardId.toNat → (commitmentOf statement.outputClaims id).isSome) ∧
        (edge.consumer = shardId.toNat → (commitmentOf statement.inputClaims id).isSome) := by
    intro id edge hedge hend
    obtain ⟨hmem, rfl⟩ := (hindex.mem id edge).mp hedge
    have hcheck := forM_ok.mp hincident edge ((hindex.incident _ hn edge).mpr ⟨hmem, hend⟩)
    unfold checkIncident at hcheck
    split at hcheck
    · cases hcheck
    · next entry hentry =>
      rw [leafFrontier_get hinputs houtputs] at hentry
      split at hentry
      · cases hentry
        have hcheck := refuse_ok.mp hcheck
        simp only [not_or, not_not, ne_eq, leafEntry] at hcheck
        exact ⟨fun h => by rw [← hcheck.1]; exact decide_eq_true h, fun h => by rw [← hcheck.2]; exact decide_eq_true h⟩
      · cases hentry
  refine ⟨hinputs.speaks, houtputs.speaks, hinputs.once, houtputs.once, hinputPublic, houtputPublic, fun id edge hedge => ?_, fun id edge hedge => ?_⟩
  · exact ⟨houtputs.speaks_end hedge, fun h => (hsides id edge hedge (.inl h)).1 h⟩
  · exact ⟨hinputs.speaks_end hedge, fun h => (hsides id edge hedge (.inr h)).2 h⟩

end Leaf

section Admission

variable {blake3 : Blake3} {plan : AggregationPlan} {partition : PartitionPlan} {run : RunIdentity} {proof : VerifiedProof blake3}
  {set : LeafExpectationSet} {index : DagIndex} {claim : VerifiedClaim}

/-- The statement is about the shard that it is expected for, in this run. -/
structure Identified (partition : PartitionPlan) (run : RunIdentity) (set : LeafExpectationSet) (shardId : UInt64)
    (statement : LeafStatement) : Prop where
  shard : statement.shardId = shardId
  partitionDigest : statement.partitionDigest = partition.digest
  modelDigest : statement.modelDigest = run.modelGraphDigest ∧ run.modelGraphDigest = partition.modelDigest
  weightsDigest : statement.weightsDigest = run.weightsDigest
  proofFlavor : statement.proofFlavor = run.proofFlavor
  expected : ∃ planned expected, partition.shards[shardId.toNat]? = some planned ∧ set.leaves[shardId]? = some expected ∧
    planned.id = shardId.toNat ∧ statement.shardName = planned.name ∧ statement.circuitDigest = expected.circuitDigest ∧
      statement.verificationKeyDigest = expected.verificationKeyDigest ∧
        (publicBindings false statement.inputClaims).map (·.descriptor) = expected.publicInputs ∧
          (publicBindings true statement.outputClaims).map (·.descriptor) = expected.publicOutputs

/-- What a leaf claim has of its statement. -/
structure LeafClaim (statement : LeafStatement) (shardId : UInt64) (claim : VerifiedClaim) : Prop where
  id : claim.id = .leaf shardId
  covered : claim.coveredShards = Std.ExtTreeSet.ofList [shardId]
  closed : claim.closedEdges = ∅
  leaves : ∀ s, s ∈ claim.leaves ↔ s = shardId
  frontier : ∀ id : String, claim.frontier[id]? =
    if (commitmentOf statement.outputClaims id).isSome ∨ (commitmentOf statement.inputClaims id).isSome then
      some (leafEntry statement id) else none
  publicInputs : claim.publicInputs = publicBindings false statement.inputClaims
  publicOutputs : claim.publicOutputs = publicBindings true statement.outputClaims

theorem admit_ok {edges : List Edge} (hindex : Indexes edges partition.shards.length index)
    (h : admitVerifiedLeafIndexed plan partition run proof set index = .ok claim) :
    ∃ statement, LeafStatement.decode proof.proof.publicStatement = .ok statement ∧
      Identified partition run set proof.proof.shard.id statement ∧ Checked index proof.proof.shard.id statement ∧
        LeafClaim statement proof.proof.shard.id claim := by
  obtain ⟨_, -, h⟩ := bind_eq_ok.mp h
  dsimp only at h
  split at h
  case h_2 => cases h
  next planned expected hplanned hexpected =>
  obtain ⟨_, hidentity, h⟩ := bind_eq_ok.mp h
  obtain ⟨statement, hdecode, h⟩ := bind_eq_ok.mp h
  obtain ⟨_, hstatement, h⟩ := bind_eq_ok.mp h
  obtain ⟨_, hmatch, h⟩ := bind_eq_ok.mp h
  obtain ⟨inputs, hinputs, h⟩ := bind_eq_ok.mp h
  obtain ⟨frontier, houtputs, h⟩ := bind_eq_ok.mp h
  obtain ⟨_, hincident, h⟩ := bind_eq_ok.mp h
  cases h
  obtain ⟨hinputPublic, hinputs⟩ := admitClaims_ok hinputs
  obtain ⟨houtputPublic, houtputs⟩ := admitClaims_ok houtputs
  have hn := (List.getElem?_eq_some_iff.mp hplanned).1
  have hidentity := refuse_ok.mp hidentity
  have hstatement := refuse_ok.mp hstatement
  have hmatch := refuse_ok.mp hmatch
  simp only [not_or, not_not, ne_eq] at hidentity hstatement hmatch
  obtain ⟨-, -, -, -, -, hmodel, -, -, hplace, -, -, hcircuit, hkey, -, -⟩ := hidentity
  obtain ⟨hid, hname, hcircuit', hpartition, hmodel', hweights, hflavor, -, hkey'⟩ := hstatement
  refine ⟨statement, FixedPoint.mapError_eq_ok.mp hdecode, ?_,
    checked_of_fills hindex hn hinputs houtputs hinputPublic houtputPublic hincident, ?_⟩
  · exact ⟨hid, hpartition, ⟨hmodel', hmodel⟩, hweights, hflavor, planned, expected, hplanned, hexpected, hplace, hname,
      hcircuit'.trans hcircuit.symm, hkey'.trans hkey.symm, hmatch.1, hmatch.2⟩
  · exact ⟨rfl, rfl, rfl, fun s => by rw [eq_comm (a := s)]; simp [sealClaim], leafFrontier_get hinputs houtputs, rfl, rfl⟩

end Admission

end Zkie.LeafClaims
