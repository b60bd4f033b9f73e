import Zkie.LeafOpening
import Zkie.ManifestFlow

namespace Zkie.EndToEnd

open BuildDag (Dag Edge)
open Checked
open CircuitBinding (toAssemblerProgram toAssemblerProgram_evaluates)
open ClaimMerging (bindingOf registerId IsPublic IsPublicGraphInput)
open FixedPoint (I18)
open GraphCompiler (CompiledProgram Register)
open Isa (Instruction)
open LeafClaims (mentions mem_mentions)
open LeafOpening
open ManifestFlow
open NativeManifest (boundaryWire buildNativeManifest two_ne)
open AggregationDigest (PublicBoundaryWire RunIdentity VerifiedManifest)
open AggregationTree (LeafExpectationSet)
open PlanDigest (BoundaryLayout)
open PoseidonBoundary (Blake3 commitBoundaryNative)
open RangeChain (Chain)
open RunDatabase (Digest32)
open Satisfaction (forall₂_exists_of_mem)
open ScalarField (Fr)
open ShardBinding hiding BoundaryDescriptor
open ShardedRun
open Statement (BoundaryClaim LeafStatement)
open WitnessExecution (HostFloats Values)
open Zkie.Partition (PartitionPlan slice)

section Model

/-- A claim of a leaf with the tensor that it is opened to. -/
def OpenedTo (statements : List LeafStatement) (leaves : List ShardRun) (claim : BoundaryClaim) (tensor : List I18) : Prop :=
  ∃ (s : ℕ) (statement : LeafStatement) (leaf : ShardRun), statements[s]? = some statement ∧ leaves[s]? = some leaf ∧
    Opening statement leaf claim tensor

/-- For one register, one commitment is opened to one tensor. -/
def Binding (statements : List LeafStatement) (leaves : List ShardRun) : Prop :=
  ∀ claim claim' tensor tensor', OpenedTo statements leaves claim tensor → OpenedTo statements leaves claim' tensor' →
    claim.descriptor.registerId = claim'.descriptor.registerId → claim.commitment = claim'.commitment → tensor = tensor'

variable (blake3 : Blake3) (compress : Fr → Fr → Fr) (program : CompiledProgram) (plan : PartitionPlan)

/-- The manifest commits to the graph inputs that the program reads and to its graph outputs, and to nothing else. -/
structure Publishes (graphInputs : Values String) (values : List (List I18)) (manifest : VerifiedManifest) : Prop where
  inputs : ∀ wire, wire ∈ manifest.publicInputs ↔ ∃ name tensor claim,
    .graphInput name ∈ program.instructions.flatMap (·.inputs) ∧ graphInputs[name]? = some tensor ∧
      ClaimOf blake3 compress .input ⟨.graphInput name, tensor.length, [], []⟩ tensor claim ∧ wire = boundaryWire (bindingOf claim)
  outputs : ∀ wire, wire ∈ manifest.publicOutputs ↔ ∃ (shardId global : ℕ) (tensor : List I18) (claim : BoundaryClaim),
    (∃ shard, plan.shards[shardId]? = some shard ∧ shard.range.Contains global) ∧
      .virtual global ∈ program.graphOutputs.map Prod.snd ∧ values[global]? = some tensor ∧
        ClaimOf blake3 compress .output (outputDescriptor program plan shardId (.virtual global) tensor.length) tensor claim ∧
          wire = boundaryWire (bindingOf claim)

variable (floats : HostFloats) (modelDigest : Digest32) (layout : BoundaryLayout)
  (interpret : Instruction → List (List I18) → Option (List I18))

/-- What the leaves of the statements were made of. -/
structure OpenedLeaves (statements : List LeafStatement) (leaves : List ShardRun) : Prop where
  count : leaves.length = plan.shards.length
  opened : ∀ (s : ℕ) statement leaf, statements[s]? = some statement → leaves[s]? = some leaf →
    Opened blake3 compress floats program plan modelDigest layout interpret s statement leaf
  binding : Binding statements leaves

end Model

section Leaves

variable {blake3 : Blake3} {compress : Fr → Fr → Fr} {floats : HostFloats} {program : CompiledProgram} {plan : PartitionPlan}
  {modelDigest : Digest32} {layout : BoundaryLayout} {interpret : Instruction → List (List I18) → Option (List I18)} {s : ℕ}
  {statement : LeafStatement} {graphInputs : Values String} {incoming : Values Register} {parts : Parts} {virtuals : List (List I18)}
  {register : Register} {claim claim' : BoundaryClaim}

theorem edge_unique (h : Flows program plan) {edge edge' : Edge} (hedge : edge ∈ plan.dag.edges) (hedge' : edge' ∈ plan.dag.edges)
    (hid : String.ofList edge.id = String.ofList edge'.id) : edge = edge' :=
  List.inj_on_of_nodup_map (h.flow.ids.imp ne_of_lt) hedge hedge' (String.ofList_injective hid)

theorem claim_unique {out : Bool} {claims : List BoundaryClaim} (h : Settled plan out s claims) {id : String} (hclaim : claim ∈ claims)
    (hid : id ∈ claim.descriptor.edgeIds) (hclaim' : claim' ∈ claims) (hid' : id ∈ claim'.descriptor.edgeIds) : claim = claim' := by
  have hmention : (claim, id) ∈ mentions claims := mem_mentions.mpr ⟨hclaim, hid⟩
  have hmention' : (claim', id) ∈ mentions claims := mem_mentions.mpr ⟨hclaim', hid'⟩
  exact (Prod.mk.inj (List.inj_on_of_nodup_map h.once hmention hmention' rfl)).1

theorem mem_readsOf {i : ℕ} {instr : GraphCompiler.CompiledInstruction} {range : RangeChain.Range}
    (hget : program.instructions[i]? = some instr) (hinside : range.Contains i) (hread : register ∈ instr.inputs) :
    register ∈ readsOf program range := by
  refine List.mem_flatMap.mpr ⟨(instr, i), List.mem_zipIdx_iff_le_and_getElem?_sub.mpr ⟨hinside.1, ?_⟩, hread⟩
  rw [slice, List.getElem?_drop, Nat.add_sub_cancel' hinside.1, List.getElem?_take, if_pos hinside.2]
  exact hget

/-- A register that crosses into a shard is one that the shard takes from outside. -/
theorem crosses_external (hflows : Flows program plan)
    (hbinds : Binds floats blake3 program plan s modelDigest layout graphInputs incoming parts) {producer p : ℕ}
    (h : BuildDag.Crosses program (specsOf plan) producer s p) : .virtual p ∈ parts.external := by
  have hbefore := hflows.crosses_before hbinds.planned h
  obtain ⟨-, -, i, hholds, instr, hget, hread⟩ := h
  obtain ⟨shard, hshard, hinside⟩ := holds_iff.mp hholds
  obtain rfl : parts.planned = shard := Option.some.inj (hbinds.planned.symm.trans hshard)
  exact ((externals_mem hbinds.external).2 _).mpr ⟨mem_readsOf hget hinside hread, hbefore⟩

/-- The claim about a register that the shard takes from outside. -/
theorem inputClaim_of_external
    (h : Opened blake3 compress floats program plan modelDigest layout interpret s statement ⟨parts.bound plan, virtuals⟩)
    (hbinds : Binds floats blake3 program plan s modelDigest layout graphInputs incoming parts) (hregister : register ∈ parts.external) :
    ∃ tensor, ∃ claim ∈ statement.inputClaims, externalValues graphInputs incoming register = .ok tensor ∧
      ClaimOf blake3 compress .input (descriptor plan.dag s register tensor.length false) tensor claim ∧
        Opening statement ⟨parts.bound plan, virtuals⟩ claim tensor := by
  obtain ⟨claim, hclaim, tensor, hvalues, hof, hopening⟩ := forall₂_exists_of_mem (h.inputClaims hbinds) hregister
  exact ⟨tensor, claim, hclaim, hvalues, hof, hopening⟩

/-- An edge carries the value that its consumer was given. -/
theorem incoming_opened (hflows : Flows program plan)
    (h : Opened blake3 compress floats program plan modelDigest layout interpret s statement ⟨parts.bound plan, virtuals⟩)
    (hbinds : Binds floats blake3 program plan s modelDigest layout graphInputs incoming parts) {producer p : ℕ}
    (hcrosses : BuildDag.Crosses program (specsOf plan) producer s p) (hsettled : Settled plan false s statement.inputClaims)
    {edge : Edge} (hedge : edge ∈ plan.dag.edges) (hregister : edge.register = .virtual p) (hconsumer : edge.consumer = s)
    (hclaim : claim ∈ statement.inputClaims) (hcarries : Carries edge claim) {tensor : List I18}
    (hvalue : incoming[Register.virtual p]? = some tensor) : Opening statement ⟨parts.bound plan, virtuals⟩ claim tensor := by
  obtain ⟨tensor', claim', hclaim', hvalues, hof, hopening⟩ :=
    inputClaim_of_external h hbinds (crosses_external hflows hbinds hcrosses)
  have hid : String.ofList edge.id ∈ claim'.descriptor.edgeIds := by
    rw [hof.edgeIds]
    exact List.mem_map_of_mem (mem_edgeIds.mpr ⟨edge, hedge, hregister, hconsumer, rfl⟩)
  rcases externalValues_ok.mp hvalues with ⟨name, heq, -⟩ | ⟨q, heq, hq⟩
  · cases heq
  · cases heq
    cases hvalue.symm.trans hq
    rwa [claim_unique hsettled hclaim hcarries.1 hclaim' hid]

/-- And the value that its producer computed. -/
theorem outgoing_opened (hflows : Flows program plan)
    (h : Opened blake3 compress floats program plan modelDigest layout interpret s statement ⟨parts.bound plan, virtuals⟩)
    (hbinds : Binds floats blake3 program plan s modelDigest layout graphInputs incoming parts) {p : ℕ}
    {edge : Edge} (hedge : edge ∈ plan.dag.edges) (hregister : edge.register = .virtual p)
    (hclaim : claim ∈ statement.outputClaims) (hcarries : Carries edge claim) :
    ∃ tensor, ShardRun.valueOf ⟨parts.bound plan, virtuals⟩ p = some tensor ∧
      Opening statement ⟨parts.bound plan, virtuals⟩ claim tensor := by
  obtain ⟨register, -, global, tensor, count, rfl, hvalue, hof, hopening⟩ :=
    forall₂_exists_of_mem (h.outputClaims hbinds).flip hclaim
  have hid := hcarries.1
  rw [hof.edgeIds] at hid
  obtain ⟨id, hmem, hsame⟩ := List.mem_map.mp hid
  have hmem : id ∈ (descriptor plan.dag s (.virtual global) count true).edgeIds := hmem
  obtain ⟨edge', hedge', hregister', -, rfl⟩ := mem_edgeIds.mp hmem
  obtain rfl := edge_unique hflows hedge' hedge hsame
  cases hregister.symm.trans hregister'
  exact ⟨tensor, hvalue, hopening⟩

theorem noEdge_of_graphInput (hflows : Flows program plan) (name : String) (s count : ℕ) (side : Bool) :
    descriptor plan.dag s (.graphInput name) count side = ⟨.graphInput name, count, [], []⟩ := by
  have hnone : (descriptor plan.dag s (.graphInput name) count side).edgeIds = [] := by
    refine List.eq_nil_iff_forall_not_mem.mpr fun id hid => ?_
    obtain ⟨edge, hedge, hregister, -⟩ := mem_edgeIds.mp hid
    obtain ⟨p, heq, -⟩ := (hflows.flow.edges edge.producer edge.consumer _).mp ⟨edge, hedge, rfl, rfl, rfl⟩
    cases hregister.symm.trans heq
  rw [descriptor] at hnone ⊢
  rw [ShardBinding.BoundaryDescriptor.mk.injEq]
  exact ⟨rfl, rfl, hnone, rfl⟩

/-- A graph input that a leaf reads is public, with a commitment to the value that the leaf was given. -/
theorem graphInput_published (hflows : Flows program plan)
    (h : Opened blake3 compress floats program plan modelDigest layout interpret s statement ⟨parts.bound plan, virtuals⟩)
    (hbinds : Binds floats blake3 program plan s modelDigest layout graphInputs incoming parts) {name : String} {tensor : List I18}
    (hread : .graphInput name ∈ parts.external) (hvalue : graphInputs[name]? = some tensor) :
    ∃ claim ∈ statement.inputClaims, ClaimOf blake3 compress .input ⟨.graphInput name, tensor.length, [], []⟩ tensor claim ∧
      IsPublicGraphInput claim.descriptor ∧ Opening statement ⟨parts.bound plan, virtuals⟩ claim tensor := by
  obtain ⟨tensor', claim, hclaim, hvalues, hof, hopening⟩ := inputClaim_of_external h hbinds hread
  rcases externalValues_ok.mp hvalues with ⟨_, heq, hname⟩ | ⟨p, heq, -⟩
  · cases heq
    cases hname.symm.trans hvalue
    rw [noEdge_of_graphInput hflows] at hof
    refine ⟨claim, hclaim, hof, ?_, hopening⟩
    rw [coreBoundaryDescriptor_ok hof.descriptor]
    exact ⟨rfl, graphInput_public name, rfl, rfl⟩
  · cases heq

end Leaves

section Runs

variable {blake3 : Blake3} {compress : Fr → Fr → Fr} {floats : HostFloats} {program : CompiledProgram} {plan : PartitionPlan}
  {run : RunIdentity} {set : LeafExpectationSet} {modelDigest : Digest32} {layout : BoundaryLayout}
  {interpret : Instruction → List (List I18) → Option (List I18)} {s : ℕ} {statements : List LeafStatement} {statement : LeafStatement}
  {leaves : List ShardRun} {leaf : ShardRun} {manifest : VerifiedManifest} {graphInputs : Values String} {base values : List (List I18)}
  {incoming : Values Register} {parts : Parts}

/-- The leaf of a shard was bound to the graph inputs. -/
structure BoundTo (blake3 : Blake3) (floats : HostFloats) (program : CompiledProgram) (plan : PartitionPlan) (modelDigest : Digest32)
    (layout : BoundaryLayout) (graphInputs : Values String) (s : ℕ) (leaf : ShardRun) (incoming : Values Register) (parts : Parts) :
    Prop where
  binds : Binds floats blake3 program plan s modelDigest layout graphInputs incoming parts
  leaf : leaf = ⟨parts.bound plan, leaf.virtuals⟩

/-- What a shard was given has been computed by the shards before it. -/
theorem incoming_agrees (hflows : Flows program plan) (hbound : Bound plan run set statements manifest)
    (hopened : OpenedLeaves blake3 compress program plan floats modelDigest layout interpret statements leaves)
    (hto : ∀ (s : ℕ) leaf, leaves[s]? = some leaf →
      ∃ incoming parts, BoundTo blake3 floats program plan modelDigest layout graphInputs s leaf incoming parts)
    (hbefore : ∀ s' < s, ∀ shard leaf, plan.shards[s']? = some shard → leaves[s']? = some leaf →
      Simulates floats program graphInputs base shard leaf)
    (hstatement : statements[s]? = some statement) (hleaf : leaves[s]? = some leaf)
    (hthis : BoundTo blake3 floats program plan modelDigest layout graphInputs s leaf incoming parts) :
    Agrees floats program graphInputs incoming base := by
  intro r tensor hget
  have hplanned := plannedShard_ok.mpr ⟨hthis.binds.planned, hthis.binds.shard, hthis.binds.same⟩
  have hinput := (hthis.binds.supplied r).mp (Std.ExtTreeMap.mem_iff_isSome_getElem?.mpr (by rw [hget]; rfl))
  obtain ⟨producer, p, rfl, hcrosses⟩ :=
    (hflows.mem_inputs hplanned).mp hinput
  obtain ⟨edge, hedge, rfl, hconsumer, hregister⟩ := (hflows.flow.edges _ _ _).mpr ⟨p, rfl, hcrosses⟩
  obtain ⟨_, _, output, input, hconnected⟩ := hbound.connected edge hedge
  have hinputClaim := hconnected.toConsumer
  rw [hconsumer, hstatement] at hinputClaim
  cases hinputClaim
  have hopenedThis := hopened.opened s _ _ hstatement hleaf
  rw [hthis.leaf] at hopenedThis
  have hopeningIn := incoming_opened hflows hopenedThis hthis.binds hcrosses (hbound.consumed s _ hstatement) hedge hregister hconsumer
    hconnected.consumed.1 hconnected.consumed.2 hget
  have hlt : edge.producer < leaves.length := by
    have := (List.getElem?_eq_some_iff.mp hconnected.fromProducer).1
    rw [hbound.count.1] at this
    rwa [hopened.count]
  have hproducer := List.getElem?_eq_getElem hlt
  obtain ⟨_, parts', hthat⟩ := hto edge.producer _ hproducer
  have hopenedThat := hopened.opened edge.producer _ _ hconnected.fromProducer hproducer
  rw [hthat.leaf] at hopenedThat
  obtain ⟨tensor', hvalue, hopeningOut⟩ := outgoing_opened hflows hopenedThat hthat.binds hedge hregister hconnected.produced.1
    hconnected.produced.2
  rw [← hthis.leaf] at hopeningIn
  rw [← hthat.leaf] at hopeningOut hvalue
  obtain rfl : tensor' = tensor := hopened.binding _ _ _ _ ⟨_, _, _, hconnected.fromProducer, hproducer, hopeningOut⟩
    ⟨s, _, _, hstatement, hleaf, hopeningIn⟩ (hconnected.produced.2.2.trans hconnected.consumed.2.2.symm) hconnected.same
  have hless : edge.producer < s := hconsumer ▸ hflows.flow.direction edge hedge
  have hsimulates := hbefore _ hless _ _ hthat.binds.planned hproducer
  have hcontains : parts'.planned.range.Contains p := by
    rw [hthat.leaf] at hvalue
    exact contains_of_valueOf hvalue
  rw [readGlobal, ← hsimulates.virtuals p hcontains]
  exact hvalue

/-- The shards that are left compute the rest of the run. -/
theorem leaves_simulate (hflows : Flows program plan) (hmachine : Machine program) (hbound : Bound plan run set statements manifest)
    (hopened : OpenedLeaves blake3 compress program plan floats modelDigest layout interpret statements leaves)
    (hto : ∀ (s : ℕ) leaf, leaves[s]? = some leaf →
      ∃ incoming parts, BoundTo blake3 floats program plan modelDigest layout graphInputs s leaf incoming parts)
    {count : ℕ} (hcount : s + count = plan.shards.length)
    (hchain : Chain base.length ((plan.shards.drop s).map (·.range)) program.instructions.length)
    (hbefore : ∀ s' < s, ∀ shard leaf, plan.shards[s']? = some shard → leaves[s']? = some leaf →
      shard.range.stop ≤ base.length ∧ Simulates floats program graphInputs base shard leaf) :
    ∃ values, StraightLine.run interpret (readGlobal floats program graphInputs) base
        ((program.instructions.drop base.length).map globalLine) = some values ∧
      ∀ (s' : ℕ) shard leaf, plan.shards[s']? = some shard → leaves[s']? = some leaf →
        Simulates floats program graphInputs values shard leaf := by
  induction count generalizing s base with
  | zero =>
      rw [Nat.add_zero] at hcount
      rw [List.drop_of_length_le hcount.ge] at hchain
      refine ⟨base, ?_, fun s' shard leaf hshard hleaf => ?_⟩
      · rw [List.drop_of_length_le (le_of_eq (Eq.symm hchain))]
        rfl
      · exact (hbefore s' (hcount ▸ (List.getElem?_eq_some_iff.mp hshard).1) shard leaf hshard hleaf).2
  | succ count ih =>
      have hlt : s < plan.shards.length := by omega
      have hleaf := List.getElem?_eq_getElem (hopened.count ▸ hlt)
      have hstatement := List.getElem?_eq_getElem (hbound.count.1 ▸ hlt)
      obtain ⟨incoming, parts, hthis⟩ := hto s _ hleaf
      have hagrees := incoming_agrees hflows hbound hopened hto (fun s' hs' shard leaf hshard hleaf =>
        (hbefore s' hs' shard leaf hshard hleaf).2) hstatement hleaf hthis
      have hplanned := List.getElem?_eq_getElem hlt
      rw [hthis.binds.planned, Option.some.injEq] at hplanned
      rw [List.drop_eq_getElem_cons hlt, ← hplanned] at hchain
      obtain ⟨hstart, hrest⟩ := hchain
      have hevaluated := (hopened.opened s _ _ hstatement hleaf).evaluated
      rw [hthis.leaf] at hevaluated
      obtain ⟨hrun, hlength, hsimulates⟩ := binds_simulates hmachine hthis.binds hstart.symm hagrees hevaluated
      rw [← hthis.leaf] at hsimulates
      rw [← hlength] at hrest
      obtain ⟨values, hvalues, hall⟩ := ih (by omega) hrest fun s' hs' shard leaf hshard hleaf' => by
        rcases Nat.lt_succ_iff_lt_or_eq.mp hs' with hless | rfl
        · obtain ⟨hstop, hold⟩ := hbefore s' hless shard leaf hshard hleaf'
          refine ⟨hstop.trans ?_, hold.mono (List.prefix_append _ _) hstop⟩
          rw [List.length_append]
          exact Nat.le_add_right _ _
        · cases hthis.binds.planned.symm.trans hshard
          cases hleaf.symm.trans hleaf'
          exact ⟨hlength.ge, hsimulates⟩
      refine ⟨values, ?_, hall⟩
      rw [← hstart, ← slice_append_drop program.instructions hthis.binds.range.1, List.map_append, StraightLine.run_append,
        hrun, Option.bind_some, ← hlength]
      exact hvalues

/-- Consistent names and tensors are those of some graph inputs. -/
theorem exists_graphInputs (pairs : List (String × List I18))
    (h : ∀ pair ∈ pairs, ∀ pair' ∈ pairs, pair.1 = pair'.1 → pair.2 = pair'.2) :
    ∃ graphInputs : Values String, ∀ pair ∈ pairs, graphInputs[pair.1]? = some pair.2 := by
  induction pairs with
  | nil => exact ⟨∅, by simp⟩
  | cons pair pairs ih =>
      obtain ⟨graphInputs, hrest⟩ := ih fun pair hpair pair' hpair' => h pair (.tail _ hpair) pair' (.tail _ hpair')
      refine ⟨graphInputs.insert pair.1 pair.2, List.forall_mem_cons.mpr ⟨Std.ExtTreeMap.getElem?_insert_self, fun other hother => ?_⟩⟩
      rw [Std.ExtTreeMap.getElem?_insert]
      split
      · next heq => rw [h pair (.head _) other (.tail _ hother) (compare_eq_iff_eq.mp heq)]
      · exact hrest other hother

/-- The graph inputs that a leaf has taken in. -/
def namedInputs (leaf : ShardRun) : List (String × List I18) :=
  (leaf.bound.inputBoundaries.zip leaf.bound.assemblerProgram.inputValues).filterMap fun entry =>
    match entry.1.register with
    | .graphInput name => some (name, entry.2)
    | _ => none

theorem mem_namedInputs {virtuals : List (List I18)} {name : String} {tensor : List I18}
    (hbinds : Binds floats blake3 program plan s modelDigest layout graphInputs incoming parts) :
    (name, tensor) ∈ namedInputs ⟨parts.bound plan, virtuals⟩ ↔ .graphInput name ∈ parts.external ∧ graphInputs[name]? = some tensor := by
  have hinputs := mapM_eq_ok.mp hbinds.inputs
  have hnamed : (name, tensor) ∈ namedInputs ⟨parts.bound plan, virtuals⟩ ↔
      ∃ entry ∈ parts.inputs, entry.2.register = .graphInput name ∧ entry.1 = tensor := by
    rw [namedInputs, List.mem_filterMap]
    have hzip : (parts.bound plan).inputBoundaries.zip (parts.bound plan).assemblerProgram.inputValues = parts.inputs.map Prod.swap := by
      rw [Parts.bound, Parts.assembler, List.zip_map']
      rfl
    rw [hzip]
    constructor
    · rintro ⟨entry, hentry, heq⟩
      obtain ⟨input, hinput, rfl⟩ := List.mem_map.mp hentry
      refine ⟨input, hinput, ?_⟩
      split at heq
      · next name' hregister =>
        cases heq
        exact ⟨hregister, rfl⟩
      · cases heq
    · rintro ⟨input, hinput, hregister, rfl⟩
      refine ⟨_, List.mem_map_of_mem hinput, ?_⟩
      rw [Prod.fst_swap, hregister]
      rfl
  rw [hnamed]
  constructor
  · rintro ⟨entry, hentry, hregister, rfl⟩
    obtain ⟨register, hmem, hbind⟩ := forall₂_exists_of_mem hinputs.flip hentry
    obtain ⟨_, -, hvalues, -, hdescriptor⟩ := bindInput_ok.mp hbind
    rw [hdescriptor] at hregister
    obtain rfl : register = .graphInput name := hregister
    rcases externalValues_ok.mp hvalues with ⟨name', heq, hname⟩ | ⟨p, heq, -⟩
    · cases heq
      exact ⟨hmem, hname⟩
    · cases heq
  · rintro ⟨hmem, hname⟩
    obtain ⟨entry, hentry, hbind⟩ := forall₂_exists_of_mem hinputs hmem
    obtain ⟨_, -, hvalues, -, hdescriptor⟩ := bindInput_ok.mp hbind
    rcases externalValues_ok.mp hvalues with ⟨name', heq, hname'⟩ | ⟨p, heq, -⟩
    · cases heq
      exact ⟨entry, hentry, by rw [hdescriptor]; rfl, Option.some.inj (hname'.symm.trans hname)⟩
    · cases heq

theorem public_mem {out : Bool} {claims : List BoundaryClaim} {b : AggregationDigest.PublicBoundaryBinding} :
    b ∈ ClaimMerging.publicBindings out claims ↔ ∃ claim ∈ claims, IsPublic out claim.descriptor ∧ bindingOf claim = b := by
  rw [ClaimMerging.publicBindings, List.mem_map]
  simp only [List.mem_filter, decide_eq_true_eq, and_assoc]

/-- All leaves have been bound to the same graph inputs. -/
theorem shared_graphInputs (hflows : Flows program plan) (hbound : Bound plan run set statements manifest)
    (hopened : OpenedLeaves blake3 compress program plan floats modelDigest layout interpret statements leaves) :
    ∃ graphInputs, ∀ (s : ℕ) leaf, leaves[s]? = some leaf →
      ∃ incoming parts, BoundTo blake3 floats program plan modelDigest layout graphInputs s leaf incoming parts := by
  have hown : ∀ (s : ℕ) leaf, leaves[s]? = some leaf → ∃ statement graphInputs incoming parts, statements[s]? = some statement ∧
      Opened blake3 compress floats program plan modelDigest layout interpret s statement leaf ∧
        BoundTo blake3 floats program plan modelDigest layout graphInputs s leaf incoming parts := by
    intro s leaf hleaf
    have hlt : s < statements.length := by
      rw [hbound.count.1, ← hopened.count]
      exact (List.getElem?_eq_some_iff.mp hleaf).1
    have hopenedThis := hopened.opened s _ leaf (List.getElem?_eq_getElem hlt) hleaf
    obtain ⟨graphInputs, incoming, parts, hbinds, hparts⟩ := hopenedThis.binds
    exact ⟨_, graphInputs, incoming, parts, List.getElem?_eq_getElem hlt, hopenedThis, hbinds, hparts⟩
  have hconsistent : ∀ pair ∈ leaves.flatMap namedInputs, ∀ pair' ∈ leaves.flatMap namedInputs, pair.1 = pair'.1 → pair.2 = pair'.2 := by
    rintro ⟨name, tensor⟩ hpair ⟨_, tensor'⟩ hpair' rfl
    obtain ⟨leaf, hmem, hnamed⟩ := List.mem_flatMap.mp hpair
    obtain ⟨leaf', hmem', hnamed'⟩ := List.mem_flatMap.mp hpair'
    obtain ⟨s, hleaf⟩ := List.mem_iff_getElem?.mp hmem
    obtain ⟨s', hleaf'⟩ := List.mem_iff_getElem?.mp hmem'
    obtain ⟨statement, _, _, _, hstatement, hopenedThis, hthis⟩ := hown s leaf hleaf
    rw [hthis.leaf, mem_namedInputs hthis.binds] at hnamed
    by_cases hsame : s = s'
    · -- a leaf has one value for each name
      subst hsame
      cases hleaf.symm.trans hleaf'
      rw [hthis.leaf, mem_namedInputs hthis.binds] at hnamed'
      exact Option.some.inj (hnamed.2.symm.trans hnamed'.2)
    · -- two leaves have the same commitment for it
      obtain ⟨statement', _, _, _, hstatement', hopenedThat, hthat⟩ := hown s' leaf' hleaf'
      rw [hthat.leaf, mem_namedInputs hthat.binds] at hnamed'
      rw [hthis.leaf] at hopenedThis
      rw [hthat.leaf] at hopenedThat
      obtain ⟨claim, hclaim, hof, hpublic, hopening⟩ := graphInput_published hflows hopenedThis hthis.binds hnamed.1 hnamed.2
      obtain ⟨claim', hclaim', hof', hpublic', hopening'⟩ := graphInput_published hflows hopenedThat hthat.binds hnamed'.1 hnamed'.2
      have hseveral : 2 ≤ plan.shards.length := by
        have := (List.getElem?_eq_some_iff.mp hleaf).1
        have := (List.getElem?_eq_some_iff.mp hleaf').1
        rw [hopened.count] at *
        omega
      have hregister : claim.descriptor.registerId = claim'.descriptor.registerId := by rw [hof.registerId, hof'.registerId]
      have hbinding := hbound.oneInput hseveral (bindingOf claim)
        (List.mem_flatMap.mpr ⟨statement, List.mem_of_getElem? hstatement, public_mem.mpr ⟨claim, hclaim, hpublic, rfl⟩⟩) (bindingOf claim')
        (List.mem_flatMap.mpr ⟨statement', List.mem_of_getElem? hstatement', public_mem.mpr ⟨claim', hclaim', hpublic', rfl⟩⟩) hregister
      rw [← hthis.leaf] at hopening
      rw [← hthat.leaf] at hopening'
      exact hopened.binding claim claim' tensor tensor' ⟨s, _, _, hstatement, hleaf, hopening⟩
        ⟨s', _, _, hstatement', hleaf', hopening'⟩ hregister (congrArg (·.commitment) hbinding)
  obtain ⟨graphInputs, hall⟩ := exists_graphInputs (leaves.flatMap namedInputs) hconsistent
  refine ⟨graphInputs, fun s leaf hleaf => ?_⟩
  obtain ⟨_, _, incoming, parts, -, -, hthis⟩ := hown s leaf hleaf
  refine ⟨incoming, parts, binds_graphInputs hthis.binds fun name tensor hmem hvalue => ?_, hthis.leaf⟩
  refine hall (name, tensor) (List.mem_flatMap.mpr ⟨leaf, List.mem_of_getElem? hleaf, ?_⟩)
  rw [hthis.leaf]
  exact (mem_namedInputs hthis.binds).mpr ⟨hmem, hvalue⟩

section Publishes

variable (hflows : Flows program plan) (hbound : Bound plan run set statements manifest)
  (hopened : OpenedLeaves blake3 compress program plan floats modelDigest layout interpret statements leaves)
  (hto : ∀ (s : ℕ) leaf, leaves[s]? = some leaf →
    ∃ incoming parts, BoundTo blake3 floats program plan modelDigest layout graphInputs s leaf incoming parts)

include hbound hopened hto in
/-- The leaf of a statement or of a shard. -/
theorem leaf_at (hlt : s < plan.shards.length) : ∃ statement incoming parts virtuals, statements[s]? = some statement ∧
    leaves[s]? = some ⟨parts.bound plan, virtuals⟩ ∧ plan.shards[s]? = some parts.planned ∧
      Opened blake3 compress floats program plan modelDigest layout interpret s statement ⟨parts.bound plan, virtuals⟩ ∧
        Binds floats blake3 program plan s modelDigest layout graphInputs incoming parts := by
  have hleaf := List.getElem?_eq_getElem (hopened.count ▸ hlt)
  have hstatement := List.getElem?_eq_getElem (hbound.count.1 ▸ hlt)
  obtain ⟨incoming, parts, hthis⟩ := hto s _ hleaf
  have hopenedThis := hopened.opened s _ _ hstatement hleaf
  rw [hthis.leaf] at hopenedThis hleaf
  exact ⟨_, incoming, parts, _, hstatement, hleaf, hthis.binds.planned, hopenedThis, hthis.binds⟩

include hbound hopened hto in
theorem leaf_of_statement (hmem : statement ∈ statements) : ∃ s incoming parts virtuals, statements[s]? = some statement ∧
    leaves[s]? = some ⟨parts.bound plan, virtuals⟩ ∧ plan.shards[s]? = some parts.planned ∧
      Opened blake3 compress floats program plan modelDigest layout interpret s statement ⟨parts.bound plan, virtuals⟩ ∧
        Binds floats blake3 program plan s modelDigest layout graphInputs incoming parts := by
  obtain ⟨s, hs⟩ := List.mem_iff_getElem?.mp hmem
  have hlt : s < plan.shards.length := by
    rw [← hbound.count.1]
    exact (List.getElem?_eq_some_iff.mp hs).1
  obtain ⟨_, incoming, parts, virtuals, hstatement, hall⟩ := leaf_at hbound hopened hto hlt
  cases hs.symm.trans hstatement
  exact ⟨s, incoming, parts, virtuals, hstatement, hall⟩

include hflows hbound hopened hto in
theorem published_inputs (wire : PublicBoundaryWire) : wire ∈ manifest.publicInputs ↔ ∃ name tensor claim,
    .graphInput name ∈ program.instructions.flatMap (·.inputs) ∧ graphInputs[name]? = some tensor ∧
      ClaimOf blake3 compress .input ⟨.graphInput name, tensor.length, [], []⟩ tensor claim ∧ wire = boundaryWire (bindingOf claim) := by
  rw [hbound.inputs, List.mem_map]
  constructor
  · rintro ⟨b, hb, rfl⟩
    obtain ⟨statement, hmem, hb⟩ := List.mem_flatMap.mp hb
    obtain ⟨claim, hclaim, hpublic, rfl⟩ := public_mem.mp hb
    obtain ⟨s, incoming, parts, virtuals, -, -, -, hopenedThis, hbinds⟩ := leaf_of_statement hbound hopened hto hmem
    obtain ⟨register, hregister, tensor, hvalues, hof, -⟩ := forall₂_exists_of_mem (hopenedThis.inputClaims hbinds).flip hclaim
    rcases externalValues_ok.mp hvalues with ⟨name, rfl, hname⟩ | ⟨p, rfl, -⟩
    · rw [noEdge_of_graphInput hflows] at hof
      have hread := (((externals_mem hbinds.external).2 _).mp hregister).1
      exact ⟨name, tensor, claim, (readsOf_sublist _).subset hread, hname, hof, rfl⟩
    · have hid := hpublic.2.1
      rw [hof.registerId] at hid
      exact absurd hid (virtual_not_public p)
  · rintro ⟨name, tensor, claim, hread, hvalue, hof, rfl⟩
    obtain ⟨instr, hinstr, hread⟩ := List.mem_flatMap.mp hread
    obtain ⟨i, hi⟩ := List.mem_iff_getElem?.mp hinstr
    obtain ⟨s, hholds, -⟩ := hflows.flow.covered i (List.getElem?_eq_some_iff.mp hi).1
    obtain ⟨shard, hshard, hinside⟩ := holds_iff.mp hholds
    obtain ⟨statement, incoming, parts, virtuals, hstatement, -, hplanned, hopenedThis, hbinds⟩ :=
      leaf_at hbound hopened hto (List.getElem?_eq_some_iff.mp hshard).1
    cases hplanned.symm.trans hshard
    have hexternal : .graphInput name ∈ parts.external :=
      ((externals_mem hbinds.external).2 _).mpr ⟨mem_readsOf hi hinside hread, trivial⟩
    obtain ⟨claim', hclaim', hof', hpublic, -⟩ := graphInput_published hflows hopenedThis hbinds hexternal hvalue
    obtain rfl := hof.unique hof'
    exact ⟨_, List.mem_flatMap.mpr ⟨statement, List.mem_of_getElem? hstatement, public_mem.mpr ⟨claim, hclaim', hpublic, rfl⟩⟩, rfl⟩

include hbound hopened hto in
theorem published_outputs (hsimulates : ∀ (s : ℕ) shard leaf, plan.shards[s]? = some shard → leaves[s]? = some leaf →
      Simulates floats program graphInputs values shard leaf) (wire : PublicBoundaryWire) :
    wire ∈ manifest.publicOutputs ↔ ∃ (shardId global : ℕ) (tensor : List I18) (claim : BoundaryClaim),
      (∃ shard, plan.shards[shardId]? = some shard ∧ shard.range.Contains global) ∧
        .virtual global ∈ program.graphOutputs.map Prod.snd ∧ values[global]? = some tensor ∧
          ClaimOf blake3 compress .output (outputDescriptor program plan shardId (.virtual global) tensor.length) tensor claim ∧
            wire = boundaryWire (bindingOf claim) := by
  rw [hbound.outputs.mem_iff, List.mem_map]
  constructor
  · rintro ⟨b, hb, rfl⟩
    obtain ⟨statement, hmem, hb⟩ := List.mem_flatMap.mp hb
    obtain ⟨claim, hclaim, hpublic, rfl⟩ := public_mem.mp hb
    obtain ⟨s, incoming, parts, virtuals, -, hleaf, hplanned, hopenedThis, hbinds⟩ := leaf_of_statement hbound hopened hto hmem
    obtain ⟨_, -, global, tensor, count, rfl, hvalue, hof, -⟩ := forall₂_exists_of_mem (hopenedThis.outputClaims hbinds).flip hclaim
    have hcontains := contains_of_valueOf hvalue
    refine ⟨s, global, tensor, claim, ⟨_, hplanned, hcontains⟩, ?_, ?_, hof.length, rfl⟩
    · have hnames : claim.descriptor.graphOutputNames ≠ [] := hpublic
      rw [hof.graphOutputNames] at hnames
      obtain ⟨name, hname⟩ := List.exists_mem_of_ne_nil _ hnames
      obtain ⟨output, houtput, -⟩ := List.mem_map.mp ((List.perm_insertionSort _ _).mem_iff.mp hname)
      obtain ⟨houtput, hregister⟩ := List.mem_filter.mp houtput
      exact List.mem_map.mpr ⟨output, houtput, of_decide_eq_true hregister⟩
    · rw [← (hsimulates s _ _ hplanned hleaf).virtuals global hcontains]
      exact hvalue
  · rintro ⟨s, global, tensor, claim, ⟨shard, hshard, hinside⟩, houtput, hvalue, hof, rfl⟩
    obtain ⟨statement, incoming, parts, virtuals, hstatement, hleaf, hplanned, hopenedThis, hbinds⟩ :=
      leaf_at hbound hopened hto (List.getElem?_eq_some_iff.mp hshard).1
    cases hplanned.symm.trans hshard
    obtain ⟨output, hmem, hregister⟩ := List.mem_map.mp houtput
    have hregisters : .virtual global ∈ outputRegisters program parts.planned.range parts.dagShard :=
      mem_outputRegisters.mpr (.inr ⟨⟨output, hmem, hregister⟩, isInside_iff.mpr ⟨global, rfl, hinside⟩⟩)
    obtain ⟨claim', hclaim', _, tensor', count, heq, hvalue', hof', -⟩ :=
      forall₂_exists_of_mem (hopenedThis.outputClaims hbinds) hregisters
    cases heq
    rw [(hsimulates s _ _ hplanned hleaf).virtuals global hinside, hvalue] at hvalue'
    cases hvalue'
    obtain rfl := hof.unique hof'.length
    have hpublic : IsPublic true claim.descriptor := by
      change claim.descriptor.graphOutputNames ≠ []
      rw [hof.graphOutputNames]
      refine List.ne_nil_of_mem ((List.perm_insertionSort _ _).mem_iff.mpr (List.mem_map_of_mem (a := output) ?_))
      exact List.mem_filter.mpr ⟨hmem, decide_eq_true hregister⟩
    exact ⟨_, List.mem_flatMap.mpr ⟨statement, List.mem_of_getElem? hstatement, public_mem.mpr ⟨claim, hclaim', hpublic, rfl⟩⟩, rfl⟩

end Publishes

end Runs

section Sample

open VerifyProof (flatDigest flatHash)

theorem twoSums_plan : Partition.plan flatHash twoSums twoSumsRequest = .ok twoShards := by
  have hok : (Partition.plan flatHash twoSums twoSumsRequest).toOption.map
      (fun plan => (plan.shards, plan.dag, plan.modelDigest, plan.boundaryLayoutDigest, plan.digest)) =
        some (twoShards.shards, twoShards.dag, flatDigest, some flatDigest, flatDigest) := by decide +kernel
  obtain ⟨plan, hplan, hparts⟩ := Option.map_eq_some_iff.mp hok
  have hplan := FixedPoint.toOption_eq_some.mp hplan
  obtain ⟨-, hsnapshot, -⟩ := plan_parts hplan
  obtain ⟨hshards, hdag, hmodel, hlayout, hdigest⟩ := Prod.mk.inj hparts |>.imp id fun h => Prod.mk.inj h |>.imp id fun h =>
    Prod.mk.inj h |>.imp id Prod.mk.inj
  rw [hplan, Except.ok.injEq, PartitionPlan.mk.injEq]
  exact ⟨hshards, hdag, hmodel, hlayout, hdigest, hsnapshot⟩

deriving instance DecidableEq for BoundShardProgram

def one : List I18 := [WitnessArtifact.raw 1]

def two : List I18 := [WitnessArtifact.raw 2]

/-- The shards of the two sums, bound to the value of `x` and to each other. -/
def twoBound : Bool → BoundShardProgram
  | false => ⟨⟨[⟨.eltwise .add, [.input 0, .input 0]⟩], [one], []⟩, [⟨.graphInput "x", 1, [], []⟩], [⟨.virtual 0, 1, [passed.id], []⟩],
      [(0, 0)], [], flatDigest, 0, "shard-0", ⟨0, 1⟩⟩
  | true => ⟨⟨[⟨.eltwise .add, [.input 1, .input 0]⟩], [one, two], []⟩,
      [⟨.graphInput "x", 1, [], []⟩, ⟨.virtual 0, 1, [passed.id], []⟩], [⟨.virtual 1, 1, [], ["y"]⟩], [(1, 0)], [], flatDigest, 1,
      "shard-1", ⟨1, 2⟩⟩

theorem twoBound_ok (second : Bool) : bindShardProgram WitnessArtifact.noFloats flatHash twoSums twoShards (if second then 1 else 0)
    flatDigest twoSumsLayout oneInput (if second then (∅ : Values Register).insert (.virtual 0) two else ∅) = .ok (twoBound second) := by
  apply FixedPoint.toOption_eq_some.mp
  cases second <;> decide +kernel

example : evaluateAssembler executed (twoBound true).assemblerProgram = some [[WitnessArtifact.raw 3]] := by decide +kernel

/-- The leaves with the results of the two sums. -/
def twoRunOf (second : Bool) : ShardRun := ⟨twoBound second, [if second then [WitnessArtifact.raw 3] else two]⟩

/-- Binding for tensors of one value. -/
def lastAbsorbed (_ value : Fr) : Fr := value

theorem twoRunOf_opened (second : Bool) : Opened flatHash lastAbsorbed WitnessArtifact.noFloats twoSums twoShards flatDigest twoSumsLayout
    executed (if second then 1 else 0) (twoStatement second) (twoRunOf second) where
  bound := ⟨_, _, twoBound_ok second⟩
  evaluated := by cases second <;> decide +kernel
  inputs := by
    cases second with
    | false => exact .cons ⟨rfl, FixedPoint.toOption_eq_some.mp (by decide +kernel)⟩ .nil
    | true =>
        refine .cons ⟨rfl, FixedPoint.toOption_eq_some.mp (by decide +kernel)⟩ (.cons ⟨rfl, ?_⟩ .nil)
        exact FixedPoint.toOption_eq_some.mp (by decide +kernel)
  outputs := by
    cases second with
    | false => exact .cons ⟨0, two, rfl, rfl, rfl, FixedPoint.toOption_eq_some.mp (by decide +kernel)⟩ .nil
    | true => exact .cons ⟨1, [WitnessArtifact.raw 3], rfl, rfl, rfl, FixedPoint.toOption_eq_some.mp (by decide +kernel)⟩ .nil

def twoOpenings : List (BoundaryClaim × List I18) :=
  [(readClaim, one), (producedClaim, two), (consumedClaim, two), (outputClaim, [WitnessArtifact.raw 3])]

theorem mem_twoOpenings {second : Bool} {claim : BoundaryClaim} {tensor : List I18}
    (h : Opening (twoStatement second) (twoRunOf second) claim tensor) : (claim, tensor) ∈ twoOpenings := by
  cases h with
  | input hmem =>
      have hinputs : ∀ second, ∀ pair ∈ (twoStatement second).inputClaims.zip (twoRunOf second).bound.assemblerProgram.inputValues,
          pair ∈ twoOpenings := by decide +kernel
      exact hinputs second _ hmem
  | output hmem hregister hvalue =>
      have houtputs : ∀ second, ∀ pair ∈ (twoRunOf second).bound.outputBoundaries.zip (twoStatement second).outputClaims,
          ∃ global tensor, pair.1.register = .virtual global ∧ (twoRunOf second).valueOf global = some tensor ∧
            (pair.2, tensor) ∈ twoOpenings := by
        intro second pair hpair
        cases second with
        | false =>
            obtain rfl := List.mem_singleton.mp hpair
            exact ⟨0, two, rfl, rfl, .tail _ (.head _)⟩
        | true =>
            obtain rfl := List.mem_singleton.mp hpair
            exact ⟨1, _, rfl, rfl, .tail _ (.tail _ (.tail _ (.head _)))⟩
      obtain ⟨global', tensor', hregister', hvalue', hopening⟩ := houtputs second _ hmem
      cases hregister.symm.trans hregister'
      cases hvalue.symm.trans hvalue'
      exact hopening

theorem two_opened : OpenedLeaves flatHash lastAbsorbed twoSums twoShards WitnessArtifact.noFloats flatDigest twoSumsLayout executed
    [twoStatement false, twoStatement true] [twoRunOf false, twoRunOf true] := by
  have hat : ∀ (s : ℕ) statement leaf, [twoStatement false, twoStatement true][s]? = some statement →
      [twoRunOf false, twoRunOf true][s]? = some leaf →
        ∃ second, (if second then 1 else 0) = s ∧ statement = twoStatement second ∧ leaf = twoRunOf second := by
    intro s statement leaf hstatement hleaf
    match s with
    | 0 =>
        cases hstatement
        cases hleaf
        exact ⟨false, rfl, rfl, rfl⟩
    | 1 =>
        cases hstatement
        cases hleaf
        exact ⟨true, rfl, rfl, rfl⟩
  have hmem : ∀ {claim tensor}, OpenedTo [twoStatement false, twoStatement true] [twoRunOf false, twoRunOf true] claim tensor →
      (claim, tensor) ∈ twoOpenings := by
    rintro claim tensor ⟨s, statement, leaf, hstatement, hleaf, hopening⟩
    obtain ⟨second, -, rfl, rfl⟩ := hat s statement leaf hstatement hleaf
    exact mem_twoOpenings hopening
  refine ⟨rfl, fun s statement leaf hstatement hleaf => ?_, fun claim claim' tensor tensor' h h' hregister _ => ?_⟩
  · obtain ⟨second, rfl, rfl, rfl⟩ := hat s statement leaf hstatement hleaf
    exact twoRunOf_opened second
  · have hone : ∀ pair ∈ twoOpenings, ∀ pair' ∈ twoOpenings,
        pair.1.descriptor.registerId = pair'.1.descriptor.registerId → pair.2 = pair'.2 := by decide +kernel
    exact hone _ (hmem h) _ (hmem h') hregister

end Sample

/-- The leaves of an accepted manifest compute the program: when each leaf is opened to what its circuit holds, and no commitment is opened
to two tensors, there are graph inputs for which every leaf has its part of the values of the whole program, and the public boundaries of
the manifest are commitments to these graph inputs and to the graph outputs. -/
theorem manifest_evaluates_program (serde : NativeManifest.SerdeJson) (blake3 : Blake3) (compress : Fr → Fr → Fr) (floats : HostFloats)
    (program : CompiledProgram) (request : Partition.PartitionRequest) (partition : PartitionPlan) (plan : AggregationTree.AggregationPlan)
    (run : RunIdentity) (proofs : List (VerifyProof.VerifiedProof blake3)) (manifest : VerifiedManifest) (modelDigest : Digest32)
    (layout : BoundaryLayout) (interpret : Instruction → List (List I18) → Option (List I18)) (statements : List LeafStatement)
    (leaves : List ShardRun) (hpartition : Partition.plan blake3 program request = .ok partition) (hmachine : Machine program)
    (hmanifest : buildNativeManifest serde plan partition run proofs = .ok manifest) (hstated : Stated proofs statements)
    (hopened : OpenedLeaves blake3 compress program partition floats modelDigest layout interpret statements leaves) :
    ∃ graphInputs values,
      StraightLine.run interpret (readGlobal floats program graphInputs) [] (program.instructions.map globalLine) = some values ∧
      (∀ whole, toAssemblerProgram floats program graphInputs = .ok whole → evaluateAssembler interpret whole = some values) ∧
      List.Forall₂ (Simulates floats program graphInputs values) partition.shards leaves ∧
      Publishes blake3 compress program partition graphInputs values manifest := by
  obtain ⟨set, index, statements', root, -, hcomplete, hroot, hfinal, rfl⟩ := build_complete hmanifest
  obtain rfl : statements' = statements :=
    List.map_injective_iff.mpr (fun _ _ => Except.ok.inj (ε := Statement.LeafStatementError)) (hcomplete.stated.symm.trans hstated)
  have hbound := hcomplete.bound hroot hfinal
  have hflows := (plan_parts hpartition).1
  obtain ⟨graphInputs, hto⟩ := shared_graphInputs hflows hbound hopened
  have hchain : Chain ([] : List (List I18)).length ((partition.shards.drop 0).map (·.range)) program.instructions.length := hflows.chain
  obtain ⟨values, hrun, hsimulates⟩ := leaves_simulate hflows hmachine hbound hopened hto (Nat.zero_add _) hchain
    fun s' hs' => absurd hs' (Nat.not_lt_zero s')
  refine ⟨graphInputs, values, hrun, fun whole hwhole => ?_, ?_,
    published_inputs hflows hbound hopened hto, published_outputs hbound hopened hto hsimulates⟩
  · rw [toAssemblerProgram_evaluates hmachine hflows.flow.backward hwhole]
    exact hrun
  · refine List.forall₂_iff_get.mpr ⟨hopened.count.symm, fun s hs hs' => ?_⟩
    exact hsimulates s _ _ (List.getElem?_eq_getElem hs) (List.getElem?_eq_getElem hs')

theorem manifest_evaluates_program_two : ∃ (proofs : List (VerifyProof.VerifiedProof VerifyProof.flatHash)) (manifest : VerifiedManifest),
    buildNativeManifest NativeManifest.printing (twoPlan ⟨2, two_ne⟩) twoShards (twoRun ⟨2, two_ne⟩) proofs = .ok manifest ∧
      ∃ graphInputs values,
        StraightLine.run executed (readGlobal WitnessArtifact.noFloats twoSums graphInputs) [] (twoSums.instructions.map globalLine) =
          some values ∧
        List.Forall₂ (Simulates WitnessArtifact.noFloats twoSums graphInputs values) twoShards.shards [twoRunOf false, twoRunOf true] ∧
        Publishes VerifyProof.flatHash lastAbsorbed twoSums twoShards graphInputs values manifest := by
  obtain ⟨first, hfirst, hdecode⟩ := twoStatement_bytes false
  obtain ⟨second, hsecond, hdecode'⟩ := twoStatement_bytes true
  obtain ⟨manifest, hmanifest⟩ := twoManifest_ok false
  have hbuild := twoManifest_built hmanifest hfirst hdecode hsecond hdecode'
  have hstated : Stated [twoProof false first hfirst, twoProof true second hsecond] [twoStatement false, twoStatement true] := by
    rw [Stated, List.map_cons, List.map_cons, List.map_nil]
    exact congrArg₂ List.cons hdecode (congrArg₂ List.cons hdecode' rfl)
  obtain ⟨graphInputs, values, hrun, -, hsimulates, hpublishes⟩ := manifest_evaluates_program _ _ _ _ _ _ _ _ _ _ _ _ _ _ _ _
    twoSums_plan twoSums_machine hbuild hstated two_opened
  exact ⟨_, manifest, hbuild, graphInputs, values, hrun, hsimulates, hpublishes⟩

end Zkie.EndToEnd
