import Zkie.AssemblerTemplate
import Zkie.EndToEnd

namespace Zkie.BoundTemplate

open AggregationDigest (RunIdentity)
open Assembler (RmsNormDomains)
open AssemblerTemplate
open BuildDag (Shard)
open Checked
open EndToEnd (twoBound twoBound_ok)
open FixedPoint (I18 mapError_eq_ok)
open GraphCompiler (CompiledInstruction CompiledProgram Register)
open Interning
open Isa (AssemblerInstruction AssemblerProgram RegisterRef)
open ManifestFlow (twoShards)
open Zkie.Partition (PartitionPlan slice)
open PlanDigest (BoundaryLayout registerKey registerKey_injective)
open PoseidonBoundary (Blake3)
open RangeChain (Range)
open RunDatabase (Digest32)
open ShardBinding (Binds BoundShardProgram Parts bindShardProgram bindShardProgram_ok externals_mem externals_ok inputRef_ok
  lowerInstruction lowerRegister makeWeight numbered readsOf sortRegisters)
open ShardedRun (oneInput twoSums twoSumsLayout)
open Std (ExtTreeMap)
open VerifyProof (flatDigest flatHash)
open WitnessArtifact (defaultLimits doublingRun noFloats)
open WitnessExecution (BackendParts CpuWitnessLimits HostFloats Values indices reads)
open WitnessSetup (BoundaryShapeManifest ZkieIsaCpuWitnessBackend backendParts boundaryRegisterOrder)

section Lowering

variable {floats : HostFloats} {program : CompiledProgram} {range : Range} {external seen : List Register} {global : ℕ}
  {weights weights' : Table String (List I18)} {register : Register} {ref : RegisterRef} {instructions : List AssemblerInstruction}

/-- The weights of the binder are those of the registers that it has seen, in the order in which they came first. -/
def Stored (floats : HostFloats) (program : CompiledProgram) (seen : List Register) (weights : Table String (List I18)) : Prop :=
  Filled (fun _ => makeWeight floats program) (seen.filterMap weightName) weights

theorem Stored.skip (h : Stored floats program seen weights) (hnone : weightName register = none) :
    Stored floats program (seen ++ [register]) weights := by
  rw [Stored, List.filterMap_append, List.filterMap_cons, hnone, List.filterMap_nil, List.append_nil]
  exact h

theorem lowerRegister_refers (h : Stored floats program seen weights)
    (hstep : lowerRegister floats program range external global weights register = .ok (weights', ref)) :
    Stored floats program (seen ++ [register]) weights' ∧
      referIn range.start external (weightOrder (seen ++ [register])) register = some ref := by
  cases register with
  | graphInput name =>
      obtain ⟨_, hinput, hstep⟩ := bind_eq_ok.mp hstep
      cases hstep
      obtain ⟨i, hi, rfl⟩ := inputRef_ok.mp hinput
      exact ⟨h.skip rfl, by rw [referIn, hi]; rfl⟩
  | weight name =>
      obtain ⟨⟨table, i⟩, hintern, hstep⟩ := bind_eq_ok.mp hstep
      cases hstep
      obtain ⟨hfilled, hposition⟩ := Filled.intern h hintern
      have hnames : (seen ++ [Register.weight name]).filterMap weightName = seen.filterMap weightName ++ [name] := by
        rw [List.filterMap_append]
        rfl
      refine ⟨?_, ?_⟩
      · rw [Stored, hnames]
        exact hfilled
      · rw [referIn, weightOrder, hnames, hposition]
        rfl
  | «virtual» source =>
      rw [lowerRegister] at hstep
      split at hstep
      · next hinside =>
        cases hstep
        exact ⟨h.skip rfl, by rw [referIn, if_pos hinside.1.1]⟩
      split at hstep
      · next hbefore =>
        obtain ⟨_, hinput, hstep⟩ := bind_eq_ok.mp hstep
        cases hstep
        obtain ⟨i, hi, rfl⟩ := inputRef_ok.mp hinput
        exact ⟨h.skip rfl, by rw [referIn, if_neg (Nat.not_le.mpr hbefore), hi]; rfl⟩
      · cases hstep

/-- The instruction with operands that refer to the registers that it reads. -/
def Refers (start : ℕ) (external seen : List Register) (entry : CompiledInstruction × ℕ) (instr : AssemblerInstruction) : Prop :=
  instr.instruction = entry.1.instruction ∧
    List.Forall₂ (fun register ref => referIn start external (weightOrder seen) register = some ref) entry.1.inputs instr.inputs

theorem weightOrder_grows (seen more : List Register) : weightOrder seen <+: weightOrder (seen ++ more) := by
  rw [weightOrder, weightOrder, List.filterMap_append]
  exact firstUses_grows _ _

theorem lowerInstruction_refers {entry : CompiledInstruction × ℕ} {instr : AssemblerInstruction} (h : Stored floats program seen weights)
    (hstep : lowerInstruction floats program range external weights entry = .ok (weights', instr)) :
    Stored floats program (seen ++ entry.1.inputs) weights' ∧ Refers range.start external (seen ++ entry.1.inputs) entry instr := by
  obtain ⟨⟨table, refs⟩, hthread, hstep⟩ := bind_eq_ok.mp hstep
  cases hstep
  have hbuilt := thread_builds (I := fun more => Stored floats program (seen ++ more))
    (R := fun more register ref => referIn range.start external (weightOrder (seen ++ more)) register = some ref) ?_ ?_ []
    (by rwa [List.append_nil]) hthread
  · exact ⟨hbuilt.1, rfl, hbuilt.2⟩
  · intro done more register ref href
    rw [← List.append_assoc]
    exact referIn_mono List.prefix_rfl (weightOrder_grows _ _) href
  · intro done weights register weights' ref hstored hstep
    rw [← List.append_assoc]
    exact lowerRegister_refers hstored hstep

def entryReads (entries : List (CompiledInstruction × ℕ)) : List Register := entries.flatMap fun entry => entry.1.inputs

theorem lowered_refers {entries : List (CompiledInstruction × ℕ)}
    (h : thread (lowerInstruction floats program range external) [] entries = .ok (weights, instructions)) :
    Stored floats program (entryReads entries) weights ∧
      List.Forall₂ (Refers range.start external (entryReads entries)) entries instructions := by
  apply thread_builds (I := fun done => Stored floats program (entryReads done))
    (R := fun done => Refers range.start external (entryReads done)) ?_ ?_ [] (Filled.empty _) h
  · rintro done more entry instr ⟨hop, hrefs⟩
    rw [entryReads, List.flatMap_append]
    exact ⟨hop, hrefs.imp fun _ _ href => referIn_mono List.prefix_rfl (weightOrder_grows _ _) href⟩
  · intro done weights entry weights' instr hstored hstep
    rw [entryReads, List.flatMap_append, List.flatMap_singleton]
    exact lowerInstruction_refers hstored hstep

end Lowering

section Slices

variable {program : CompiledProgram} {shard : Shard}

theorem numbered_get {range : Range} {entry : CompiledInstruction × ℕ} (h : entry ∈ numbered program range) :
    program.instructions[entry.2]? = some entry.1 := by
  obtain ⟨hle, hget⟩ := List.mem_zipIdx_iff_le_and_getElem?_sub.mp h
  rw [slice, List.getElem?_drop, List.getElem?_take] at hget
  split at hget
  · rwa [Nat.add_sub_cancel' hle] at hget
  · cases hget

theorem numbered_indices (hrange : shard.range.stop ≤ program.instructions.length) :
    (numbered program shard.range).map Prod.snd = indices shard := by
  rw [numbered, List.zipIdx_map_snd, indices, slice, List.length_drop, List.length_take, Nat.min_eq_left hrange]

theorem entryReads_eq (hrange : shard.range.stop ≤ program.instructions.length) :
    entryReads (numbered program shard.range) = reads program (indices shard) := by
  rw [← numbered_indices hrange, reads, List.flatMap_map, entryReads]
  apply List.flatMap_congr
  intro entry hentry
  rw [numbered_get hentry]
  rfl

theorem refers_lowered {start : ℕ} {external seen : List Register} {instructions : List AssemblerInstruction}
    (hrange : shard.range.stop ≤ program.instructions.length)
    (h : List.Forall₂ (Refers start external seen) (numbered program shard.range) instructions) :
    List.Forall₂ (LoweredTo program (referIn start external (weightOrder seen))) (indices shard) instructions := by
  rw [← numbered_indices hrange, List.forall₂_map_left_iff]
  have hget : ∀ entry ∈ numbered program shard.range, program.instructions[entry.2]? = some entry.1 := fun _ => numbered_get
  apply ((List.forall₂_and_left _ _).mpr ⟨hget, h⟩).imp
  rintro entry instr ⟨hget, hop, hrefs⟩
  exact ⟨entry.1, hget, hop, hrefs⟩

theorem referIn_input {start : ℕ} {inputs : List Register} {weights : List String} {register : Register}
    (h : isInput start register = true) :
    referIn start inputs weights register = (inputs.idxOf? register).map fun i => .input (UInt64.ofNat i) := by
  cases register with
  | graphInput name => rfl
  | weight name => cases h
  | «virtual» source => rw [referIn, if_neg (Nat.not_le.mpr (of_decide_eq_true h))]

end Slices

section Agreement

variable {program : CompiledProgram} {f g : Register → Option RegisterRef} {done : List ℕ} {instructions : List AssemblerInstruction}
  {register : Register} {xs ys : List Register} {ref : RegisterRef}

/-- An element has one partner under two relations of the same lists. -/
theorem forall₂_partner {α β : Type} {R S : α → β → Prop} {as : List α} {bs : List β} (hR : List.Forall₂ R as bs)
    (hS : List.Forall₂ S as bs) {a : α} (ha : a ∈ as) : ∃ b, R a b ∧ S a b := by
  induction hR with
  | nil => cases ha
  | cons hr _ ih =>
      obtain - | ⟨hs, hS⟩ := hS
      rcases List.mem_cons.mp ha with rfl | ha
      · exact ⟨_, hr, hs⟩
      · exact ih hS ha

/-- Two numberings that give the same instructions agree on all registers that are read. -/
theorem refers_agree (hf : List.Forall₂ (LoweredTo program f) done instructions)
    (hg : List.Forall₂ (LoweredTo program g) done instructions) (hread : register ∈ reads program done) : f register = g register := by
  obtain ⟨index, hindex, hregister⟩ := List.mem_flatMap.mp hread
  obtain ⟨instr, ⟨compiled, hcompiled, -, hf⟩, ⟨compiled', hcompiled', -, hg⟩⟩ := forall₂_partner hf hg hindex
  rw [hcompiled] at hcompiled' hregister
  cases hcompiled'
  obtain ⟨ref, hf, hg⟩ := forall₂_partner hf hg hregister
  rw [hf, hg]

/-- Lists without repetitions are the same where each element has one place in both. -/
theorem eq_of_idxOf? (hlength : xs.length = ys.length) (hxs : xs.Nodup) (h : ∀ x ∈ xs, ys.idxOf? x = xs.idxOf? x) : xs = ys := by
  apply List.ext_getElem hlength
  intro i hi hi'
  have hplace : xs.idxOf? xs[i] = some i := by
    refine List.idxOf?_eq_some_iff.mpr ⟨hi, rfl, fun j hj heq => ?_⟩
    exact absurd (hxs.getElem_inj_iff.mp heq) (Nat.ne_of_lt hj)
  obtain ⟨_, hget, -⟩ := List.idxOf?_eq_some_iff.mp ((h xs[i] (List.getElem_mem hi)).trans hplace)
  exact hget.symm

end Agreement

section Accepts

variable {floats : HostFloats} {blake3 : Blake3} {b : BackendParts} {plan : PartitionPlan} {shardId : ℕ} {modelDigest : Digest32}
  {layout : BoundaryLayout} {graphInputs : Values String} {incoming : Values Register} {parts : Parts}

/-- The tensors that cross the boundary have one length in the layout and in the backend. -/
def SameShapes (layout : BoundaryLayout) (b : BackendParts) : Prop :=
  ∀ spec ∈ layout.specs, ∀ count ∈ b.boundaryShapes[spec.register]?, spec.elementCount = count

theorem weightAsI18_unique {program : CompiledProgram} {index : ℕ} {name : String} {v w : List I18}
    (hv : makeWeight floats program name = .ok v) (hw : WitnessSetup.weightAsI18 floats program index name = .ok w) : v = w := by
  have hv := mapError_eq_ok.mp hv
  rw [ShardBinding.weightAsI18] at hv
  rw [WitnessSetup.weightAsI18] at hw
  split at hv
  · cases hv
  next tensor htensor =>
  rw [htensor] at hw
  have hv := mapM_eq_ok.mp hv
  have hw := mapM_eq_ok.mp hw
  rw [← List.zipIdx_map_fst 0 tensor.data, List.forall₂_map_left_iff] at hw
  refine List.right_unique_forall₂' ?_ (hv.imp fun _ _ h => mapError_eq_ok.mp h) (hw.imp fun _ _ h => mapError_eq_ok.mp h)
  intro entry x y hx hy
  exact Except.ok.inj (hx.symm.trans hy)

variable (h : Binds floats blake3 b.program plan shardId modelDigest layout graphInputs incoming parts) (hshard : parts.dagShard = b.shard)
include h hshard

theorem binds_range : parts.planned.range = b.shard.range := by rw [h.same.2.2.1, hshard]

/-- The bound instructions refer to the sorted inputs, and to the weights in the order of their first use. -/
theorem bound_lowered (hb : Built floats blake3 b) :
    List.Forall₂ (LoweredTo b.program (referIn b.shard.range.start parts.external (weightOrder (shardReads b)))) (indices b.shard)
      parts.instructions := by
  have hlowered := (lowered_refers h.lowered).2
  rw [binds_range h hshard] at hlowered
  rw [shardReads, ← entryReads_eq hb.configured.range.2]
  exact refers_lowered hb.configured.range.2 hlowered

theorem bound_external (hb : Built floats blake3 b) : parts.external.Nodup ∧
    ∀ r, r ∈ parts.external ↔ r ∈ inputOrder b.shard.range.start (shardReads b) := by
  obtain ⟨hnodup, hmem⟩ := externals_mem h.external
  refine ⟨hnodup, fun r => ?_⟩
  rw [hmem, binds_range h hshard, readsOf, ← entryReads, entryReads_eq hb.configured.range.2, inputOrder, mem_firstUses,
    List.mem_filter, shardReads]
  apply and_congr_right
  intro _
  cases r <;> simp [ShardBinding.Outside, isInput]

theorem bound_weights (hb : Built floats blake3 b) :
    List.Forall₂ (fun name values => b.weights[name]? = some values) (weightOrder (shardReads b)) (parts.weights.map Prod.snd) := by
  have hstored := (lowered_refers h.lowered).1
  rw [binds_range h hshard, Stored, entryReads_eq hb.configured.range.2] at hstored
  have hmade := hstored.forall₂ fun _ _ _ hmake => hmake
  apply ((List.forall₂_and_left _ _).mpr ⟨fun _ => weight_read, hmade⟩).imp
  rintro name values ⟨hread, hmake⟩
  obtain ⟨values', hvalues'⟩ := WitnessExecution.getElem?_of_mem ((hb.configured.scanned.weights name).mpr hread)
  obtain ⟨index, hindex⟩ := hb.weights name values' hvalues'
  rw [hvalues', weightAsI18_unique hmake hindex]

theorem bound_inputs (hb : Built floats blake3 b) (hshapes : SameShapes layout b) :
    List.Forall₂ (fun register values => b.boundaryShapes[register]? = some values.length) parts.external
      (parts.inputs.map Prod.fst) := by
  rw [List.forall₂_map_right_iff]
  apply ((List.forall₂_and_left _ _).mpr ⟨fun r hr => ((bound_external h hshard hb).2 r).mp hr, mapM_eq_ok.mp h.inputs⟩).imp
  rintro register entry ⟨hread, hbind⟩
  obtain ⟨spec, hspec, -, hlength, -⟩ := ShardBinding.bindInput_ok.mp hbind
  have hfound := Onnx.orElse_eq_ok.mp hspec
  have hregister : spec.register = register := by simpa using List.find?_some hfound
  obtain ⟨count, hcount⟩ := shaped_of_input hb hread
  rw [hcount, hlength, hshapes spec (List.mem_of_find?_eq_some hfound) count (hregister ▸ hcount)]

/-- The bound program is a program of the shard if its inputs are numbered in the order in which they are read first. -/
theorem bound_template_iff (hb : Built floats blake3 b) (hshapes : SameShapes layout b) :
    TemplateOf b parts.assembler ↔ parts.external = inputOrder b.shard.range.start (shardReads b) := by
  obtain ⟨hnodup, hmem⟩ := bound_external h hshard hb
  have hlowered := bound_lowered h hshard hb
  constructor
  · intro htemplate
    have hnodup' := nodup_firstUses ((shardReads b).filter (isInput b.shard.range.start))
    have hlength : parts.external.length = (inputOrder b.shard.range.start (shardReads b)).length :=
      ((List.perm_ext_iff_of_nodup hnodup hnodup').mpr hmem).length_eq
    apply eq_of_idxOf? hlength hnodup
    intro r hr
    have hinput := (hmem r).mp hr
    rw [inputOrder, mem_firstUses, List.mem_filter] at hinput
    have hagree := refers_agree hlowered htemplate.instructions hinput.1
    rw [shardRefer, refer, referIn_input hinput.2, referIn_input hinput.2] at hagree
    have hlt : parts.external.length < 2 ^ 64 := by
      have hread : parts.external ⊆ shardReads b := fun r hr => (List.mem_filter.mp (mem_firstUses.mp ((hmem r).mp hr))).1
      exact (hnodup.subperm hread).length_le.trans_lt hb.operands
    obtain ⟨i, hi⟩ := Option.isSome_iff_exists.mp (List.isSome_idxOf?.mpr hr)
    obtain ⟨j, hj⟩ := Option.isSome_iff_exists.mp (List.isSome_idxOf?.mpr ((hmem r).mp hr))
    have hi' := (List.idxOf?_eq_some_iff.mp hi).1
    have hj' := (List.idxOf?_eq_some_iff.mp hj).1
    rw [hi, hj] at hagree ⊢
    simp only [Option.map_some, Option.some.injEq, RegisterRef.input.injEq] at hagree ⊢
    have hnat := congrArg UInt64.toNat hagree
    rw [ShardBinding.toNat_ofNat (by omega), ShardBinding.toNat_ofNat (by omega)] at hnat
    exact hnat.symm
  · intro horder
    exact ⟨by rw [horder] at hlowered; exact hlowered, by rw [← horder]; exact bound_inputs h hshard hb hshapes,
      bound_weights h hshard hb⟩

omit hshard in
theorem external_sorted : parts.external.Pairwise (registerKey · ≤ registerKey ·) := by
  obtain ⟨-, hsorted⟩ := externals_ok.mp h.external
  have htotal : Std.Total fun a b : Register => registerKey a ≤ registerKey b := ⟨fun a b => le_total _ _⟩
  have htrans : IsTrans Register fun a b => registerKey a ≤ registerKey b := ⟨fun a b c => le_trans⟩
  rw [← hsorted]
  exact List.pairwise_insertionSort _ _

/-- The inputs are sorted by their registers, which is the order of the first uses only if that one is sorted. -/
theorem external_order_iff (hb : Built floats blake3 b) : parts.external = inputOrder b.shard.range.start (shardReads b) ↔
    (boundaryRegisterOrder b.program b.shard).Pairwise (registerKey · ≤ registerKey ·) := by
  rw [hb.boundaryOrder]
  constructor
  · intro horder
    rw [← horder]
    exact external_sorted h
  · intro hsorted
    obtain ⟨hnodup, hmem⟩ := bound_external h hshard hb
    apply PlanDigest.eq_of_sorted registerKey (external_sorted h) hsorted fun r _ r' _ heq => registerKey_injective heq
    exact (List.perm_ext_iff_of_nodup hnodup (nodup_firstUses _)).mpr hmem

end Accepts

/-- What `bind_shard_program` returns for a shard passes the template check of a backend for the same shard, with the domains
of that backend, if and only if the shard reads its external registers for the first time in the order of their keys. -/
theorem bound_accepted_iff (floats : HostFloats) (blake3 : Blake3) (program : CompiledProgram) (plan : PartitionPlan) (shardId : ℕ)
    (shard : Shard) (modelDigest : Digest32) (layout : BoundaryLayout) (graphInputs : Values String) (incoming : Values Register)
    (bound : BoundShardProgram) (domains : RmsNormDomains) (run : RunIdentity) (limits : CpuWitnessLimits)
    (manifest : BoundaryShapeManifest) (b : ZkieIsaCpuWitnessBackend) (hshard : plan.dag.shards[shardId]? = some shard)
    (hbackend : ZkieIsaCpuWitnessBackend.withLimits floats blake3 program shard domains run limits manifest = .ok b)
    (hbound : bindShardProgram floats blake3 program plan shardId modelDigest layout graphInputs incoming = .ok bound)
    (hshapes : SameShapes layout b.toBackendParts) :
    (∃ circuit, validateAssemblerTemplate b.toBackendParts blake3 bound.assemblerProgram domains = .ok circuit) ↔
      (boundaryRegisterOrder program shard).Pairwise (registerKey · ≤ registerKey ·) := by
  have hparts := withLimits_parts hbackend
  have hb := backendParts_built hparts
  obtain ⟨hprogram, hconfigured, hdomains⟩ := backendParts_fields hparts
  subst hprogram hconfigured hdomains
  obtain ⟨parts, hbinds, rfl⟩ := bindShardProgram_ok.mp hbound
  have hdag : parts.dagShard = b.shard := Option.some.inj (hbinds.shard.symm.trans hshard)
  rw [← external_order_iff hbinds hdag hb, ← bound_template_iff hbinds hdag hb hshapes]
  simp only [validate_ok_iff hb, exists_and_left, exists_eq', and_true, true_and]
  rfl

section Sample

def secondShard : Shard := ⟨1, "shard-1", ⟨1, 2⟩, [.virtual 0], []⟩

/-- One value for `x` and one for the first sum. -/
def twoShapes : BoundaryShapeManifest :=
  ⟨(∅ : ExtTreeMap String ℕ).insert "x" 1, (∅ : ExtTreeMap ℕ ℕ).insert 0 1, by decide +kernel⟩

def secondParts : Except WitnessExecution.BackendError BackendParts :=
  backendParts noFloats flatHash twoSums secondShard [] doublingRun defaultLimits twoShapes

theorem secondParts_shapes : secondParts.toOption.map (fun b => b.boundaryShapes.toList) =
    some [(.graphInput "x", 1), (.virtual 0, 1)] := by
  decide +kernel

theorem second_unsorted : ¬(boundaryRegisterOrder twoSums secondShard).Pairwise (registerKey · ≤ registerKey ·) := by
  decide +kernel

end Sample

/-- The second of two sums reads the first sum before the graph input, and the binder numbers them the other way around. -/
theorem bound_accepted_iff_refused : ∃ b,
    ZkieIsaCpuWitnessBackend.withLimits noFloats flatHash twoSums secondShard [] doublingRun defaultLimits twoShapes = .ok b ∧
      ¬∃ circuit, validateAssemblerTemplate b.toBackendParts flatHash (twoBound true).assemblerProgram [] = .ok circuit := by
  obtain ⟨parts, hparts, hlist⟩ := Option.map_eq_some_iff.mp secondParts_shapes
  obtain ⟨b, hb, rfl⟩ := withLimits_of_parts (FixedPoint.toOption_eq_some.mp hparts)
  refine ⟨b, hb, fun haccepted => second_unsorted ?_⟩
  have hshapes : SameShapes twoSumsLayout b.toBackendParts := by
    intro spec hspec count hcount
    have hentry := ExtTreeMap.mem_toList_iff_getElem?_eq_some.mpr hcount
    rw [hlist] at hentry
    have hspecs : ∀ spec ∈ twoSumsLayout.specs, spec.elementCount = 1 := by decide
    have hcounts : ∀ entry ∈ [(Register.graphInput "x", 1), (.virtual 0, 1)], entry.2 = 1 := by decide
    rw [hspecs spec hspec]
    exact (hcounts _ hentry).symm
  exact (bound_accepted_iff noFloats flatHash twoSums twoShards 1 secondShard flatDigest twoSumsLayout oneInput _ (twoBound true) []
    doublingRun defaultLimits twoShapes b rfl hb (twoBound_ok true) hshapes).mp haccepted

end Zkie.BoundTemplate
