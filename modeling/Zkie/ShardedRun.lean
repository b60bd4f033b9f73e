import Zkie.CircuitBinding
import Zkie.WitnessArtifact

namespace Zkie.ShardedRun

open BuildDag (ExactFlow ReadsOutput Shard buildDag)
open Checked
open CircuitBinding (toAssemblerProgram toAssemblerProgram_evaluates)
open FixedPoint (I18)
open GraphCompiler (CompiledInstruction CompiledProgram Register)
open Isa (Instruction)
open Zkie.Partition (PartitionPlan PlannedShard slice)
open PlanDigest (BoundaryLayout)
open PoseidonBoundary (Blake3)
open RangeChain (Chain Range)
open RunDatabase (Digest32)
open Satisfaction (exists_forall₂ forall₂_exists_of_mem)
open ShardBinding
open WitnessExecution (HostFloats Values virtualIndex)

section Model

/-- A shard that has been bound and evaluated. -/
structure ShardRun where
  bound : BoundShardProgram
  virtuals : List (List I18)

/-- The value of an instruction of the program among those of its shard. -/
def ShardRun.valueOf (shardRun : ShardRun) (global : ℕ) : Option (List I18) :=
  (shardRun.bound.globalToLocal.lookup global).bind fun i => shardRun.virtuals[i]?

def ShardRun.put (shardRun : ShardRun) (known : Values Register) (descriptor : BoundaryDescriptor) : Option (Values Register) := do
  let global ← virtualIndex descriptor.register
  let values ← shardRun.valueOf global
  return known.insert descriptor.register values

/-- What the shard puts out, beside what is known already. -/
def ShardRun.publish (shardRun : ShardRun) (known : Values Register) : Option (Values Register) :=
  shardRun.bound.outputBoundaries.foldlM shardRun.put known

variable (floats : HostFloats) (blake3 : Blake3) (program : CompiledProgram) (plan : PartitionPlan) (modelDigest : Digest32)
  (layout : BoundaryLayout) (graphInputs : Values String) (interpret : Instruction → List (List I18) → Option (List I18))

/-- The registers that a shard takes in, with the values that the shards before it have put out. -/
def incomingOf (known : Values Register) (shardId : ℕ) : Values Register :=
  known.filter fun register _ => register ∈ (plan.dag.shards[shardId]?.map (·.inputs)).getD []

def runShard (known : Values Register) (shardId : ℕ) : Option (Values Register × ShardRun) := do
  let bound ← (bindShardProgram floats blake3 program plan shardId modelDigest layout graphInputs
    (incomingOf plan known shardId)).toOption
  let virtuals ← evaluateAssembler interpret bound.assemblerProgram
  let known ← ShardRun.publish ⟨bound, virtuals⟩ known
  return (known, ⟨bound, virtuals⟩)

/-- The shards one after the other. -/
def runShards (known : Values Register) : List ℕ → Option (List ShardRun)
  | [] => some []
  | shardId :: rest => do
      let (known, shardRun) ← runShard floats blake3 program plan modelDigest layout graphInputs interpret known shardId
      let runs ← runShards known rest
      return shardRun :: runs

end Model

section Values

variable {floats : HostFloats} {program : CompiledProgram} {graphInputs : Values String} {plan : PartitionPlan}
  {base values : List (List I18)} {known known' : Values Register} {shardRun : ShardRun} {range : Range} {register : Register}

theorem lookup_range' (g start n k : ℕ) : ((List.range' start n).zipIdx k).lookup g =
    if start ≤ g ∧ g < start + n then some (g - start + k) else none := by
  induction n generalizing start k with
  | zero =>
      rw [if_neg (by omega)]
      rfl
  | succ n ih =>
      rw [List.range'_succ, List.zipIdx_cons, List.lookup_cons, ih]
      by_cases heq : g = start
      · simp [heq]
      · rw [beq_false_of_ne heq]
        by_cases hin : start + 1 ≤ g ∧ g < start + 1 + n
        · rw [if_pos hin, if_pos (by omega)]
          simp only [Option.some.injEq]
          omega
        · rw [if_neg hin, if_neg (by omega)]

/-- The binder's map from instructions of the program to those of the shard. -/
theorem valueOf_eq {parts : Parts} (virtuals : List (List I18)) (hrange : parts.planned.range.start ≤ parts.planned.range.stop)
    {g : ℕ} (hg : parts.planned.range.Contains g) :
    ShardRun.valueOf ⟨parts.bound plan, virtuals⟩ g = virtuals[g - parts.planned.range.start]? := by
  have hin : parts.planned.range.start ≤ g ∧ g < parts.planned.range.start + (parts.planned.range.stop - parts.planned.range.start) :=
    ⟨hg.1, by have := hg.2; omega⟩
  rw [ShardRun.valueOf, Parts.bound, lookup_range', if_pos hin]
  rfl

theorem contains_of_valueOf {parts : Parts} {virtuals : List (List I18)} {g : ℕ} {tensor : List I18}
    (h : ShardRun.valueOf ⟨parts.bound plan, virtuals⟩ g = some tensor) : parts.planned.range.Contains g := by
  rw [ShardRun.valueOf, Parts.bound, lookup_range'] at h
  split at h
  · next hin => exact ⟨hin.1, by omega⟩
  · cases h

theorem put_eq_some {descriptor : BoundaryDescriptor} : shardRun.put known descriptor = some known' ↔
    ∃ g tensor, descriptor.register = .virtual g ∧ shardRun.valueOf g = some tensor ∧
      known.insert descriptor.register tensor = known' := by
  simp only [ShardRun.put, Option.bind_eq_bind, Option.bind_eq_some_iff, WitnessExecution.virtualIndex_eq_some, exists_and_left,
    pure, Option.some.injEq]

/-- What is known after a shard was known before it or is a value of its own. -/
theorem publish_some (h : shardRun.publish known = some known') (r : Register) (tensor : List I18) (hget : known'[r]? = some tensor) :
    known[r]? = some tensor ∨ ∃ g, r = .virtual g ∧ shardRun.valueOf g = some tensor := by
  unfold ShardRun.publish at h
  generalize shardRun.bound.outputBoundaries = descriptors at h
  induction descriptors generalizing known with
  | nil =>
      cases h
      exact .inl hget
  | cons descriptor descriptors ih =>
      rw [List.foldlM_cons, Option.bind_eq_bind, Option.bind_eq_some_iff] at h
      obtain ⟨_, hstep, hrest⟩ := h
      obtain ⟨g, own, hg, hown, rfl⟩ := put_eq_some.mp hstep
      rcases ih hrest with hold | hnew
      · rw [Std.ExtTreeMap.getElem?_insert] at hold
        split at hold
        · next heq =>
          cases hold
          exact .inr ⟨g, compare_eq_iff_eq.mp heq ▸ hg, hown⟩
        · exact .inl hold
      · exact .inr hnew

/-- A shard whose outputs all have values can put them out. -/
theorem publish_total (h : ∀ descriptor ∈ shardRun.bound.outputBoundaries, ∃ g tensor, descriptor.register = .virtual g ∧
    shardRun.valueOf g = some tensor) : ∃ known', shardRun.publish known = some known' ∧
      (∀ r ∈ known, r ∈ known') ∧ ∀ descriptor ∈ shardRun.bound.outputBoundaries, descriptor.register ∈ known' := by
  unfold ShardRun.publish
  generalize shardRun.bound.outputBoundaries = descriptors at h ⊢
  induction descriptors generalizing known with
  | nil => exact ⟨known, rfl, fun _ hr => hr, by simp⟩
  | cons descriptor descriptors ih =>
      obtain ⟨g, tensor, hg, htensor⟩ := h descriptor (.head _)
      obtain ⟨known', hfold, hkeeps, hputs⟩ := @ih (known.insert descriptor.register tensor) fun d hd => h d (.tail _ hd)
      refine ⟨known', ?_, fun r hr => hkeeps r (Std.ExtTreeMap.mem_insert.mpr (.inr hr)), ?_⟩
      · rw [List.foldlM_cons, put_eq_some.mpr ⟨g, tensor, hg, htensor, rfl⟩]
        exact hfold
      · rw [List.forall_mem_cons]
        exact ⟨hkeeps _ Std.ExtTreeMap.mem_insert_self, hputs⟩

theorem agrees_of_subset {known₁ known₂ : Values Register} (h : Agrees floats program graphInputs known₂ base)
    (hsub : ∀ (r : Register) (tensor : List I18), known₁[r]? = some tensor → known₂[r]? = some tensor) : Agrees floats program graphInputs known₁ base :=
  fun r tensor hget => h r tensor (hsub r tensor hget)

theorem incomingOf_get {shardId : ℕ} {r : Register} {tensor : List I18} (h : (incomingOf plan known shardId)[r]? = some tensor) :
    known[r]? = some tensor := by
  rw [incomingOf, Std.ExtTreeMap.getElem?_filter'] at h
  exact (Option.filter_eq_some_iff.mp h).1

theorem mem_incomingOf {shardId : ℕ} {dagShard : Shard} (hshard : plan.dag.shards[shardId]? = some dagShard) {r : Register} :
    r ∈ incomingOf plan known shardId ↔ r ∈ known ∧ r ∈ dagShard.inputs := by
  rw [incomingOf, hshard, Std.ExtTreeMap.mem_filter]
  simp

end Values

section Sound

variable {floats : HostFloats} {blake3 : Blake3} {program : CompiledProgram} {plan : PartitionPlan} {modelDigest : Digest32}
  {layout : BoundaryLayout} {graphInputs : Values String} {interpret : Instruction → List (List I18) → Option (List I18)}
  {base values : List (List I18)} {known known' : Values Register} {shardId : ℕ} {shardRun : ShardRun} {runs : List ShardRun}

variable (floats program graphInputs) in
/-- A shard has the values of the whole run: in its inputs and for its instructions. -/
structure Simulates (values : List (List I18)) (shard : PlannedShard) (shardRun : ShardRun) : Prop where
  range : shardRun.bound.shardRange = shard.range
  inputs : List.Forall₂ (fun descriptor tensor => readGlobal floats program graphInputs values descriptor.register = some tensor)
    shardRun.bound.inputBoundaries shardRun.bound.assemblerProgram.inputValues
  virtuals : ∀ g, shard.range.Contains g → shardRun.valueOf g = values[g]?

theorem Simulates.mono {shard : PlannedShard} (h : Simulates floats program graphInputs base shard shardRun)
    (hgrown : base <+: values) (hstop : shard.range.stop ≤ base.length) :
    Simulates floats program graphInputs values shard shardRun := by
  obtain ⟨rest, rfl⟩ := hgrown
  refine ⟨h.range, h.inputs.imp fun _ _ => readGlobal_append rest, fun g hg => ?_⟩
  rw [h.virtuals g hg, List.getElem?_append_left (hg.2.trans_le hstop)]

theorem inputs_read {parts : Parts} {incoming : Values Register}
    (h : Binds floats blake3 program plan shardId modelDigest layout graphInputs incoming parts)
    (hagrees : Agrees floats program graphInputs incoming base) :
    List.Forall₂ (fun descriptor tensor => readGlobal floats program graphInputs base descriptor.register = some tensor)
      (parts.inputs.map Prod.snd) (parts.inputs.map Prod.fst) := by
  rw [List.forall₂_map_left_iff, List.forall₂_map_right_iff, List.forall₂_same]
  intro entry hentry
  obtain ⟨register, -, hbind⟩ := forall₂_exists_of_mem (mapM_eq_ok.mp h.inputs).flip hentry
  obtain ⟨_, -, hvalues, -, hdescriptor⟩ := bindInput_ok.mp hbind
  rw [hdescriptor]
  rcases externalValues_ok.mp hvalues with ⟨name, rfl, hname⟩ | ⟨p, rfl, hp⟩
  · exact hname
  · exact hagrees _ _ hp

/-- A bound shard computes the next part of the run from what it was given. -/
theorem binds_simulates (hmachine : Machine program) {parts : Parts} {incoming : Values Register} {virtuals : List (List I18)}
    (h : Binds floats blake3 program plan shardId modelDigest layout graphInputs incoming parts)
    (hbase : base.length = parts.planned.range.start) (hagrees : Agrees floats program graphInputs incoming base)
    (hvirtuals : evaluateAssembler interpret parts.assembler = some virtuals) :
    StraightLine.run interpret (readGlobal floats program graphInputs) base
        ((slice program.instructions parts.planned.range.start parts.planned.range.stop).map globalLine) = some (base ++ virtuals) ∧
      (base ++ virtuals).length = parts.planned.range.stop ∧
      Simulates floats program graphInputs (base ++ virtuals) parts.planned ⟨parts.bound plan, virtuals⟩ := by
  have hrun : StraightLine.run interpret (readGlobal floats program graphInputs) base
      ((slice program.instructions parts.planned.range.start parts.planned.range.stop).map globalLine) = some (base ++ virtuals) := by
    rw [h.evaluates hmachine hbase hagrees, hvirtuals]
    rfl
  refine ⟨hrun, ?_, rfl, (inputs_read h hagrees).imp fun _ _ => readGlobal_append virtuals, fun g hg => ?_⟩
  · obtain ⟨hle, hstop⟩ := h.range
    rw [StraightLine.run_length hrun, List.length_map, slice, List.length_drop, List.length_take]
    omega
  · rw [valueOf_eq virtuals h.range.1 hg, List.getElem?_append_right (hbase ▸ hg.1), hbase]

/-- What one shard computes is the next part of the run. -/
theorem runShard_sound (hmachine : Machine program)
    (h : runShard floats blake3 program plan modelDigest layout graphInputs interpret known shardId = some (known', shardRun))
    {shard : PlannedShard} (hshard : plan.shards[shardId]? = some shard) (hbase : base.length = shard.range.start)
    (hagrees : Agrees floats program graphInputs known base) :
    StraightLine.run interpret (readGlobal floats program graphInputs) base
        ((slice program.instructions shard.range.start shard.range.stop).map globalLine) = some (base ++ shardRun.virtuals) ∧
      shard.range.start ≤ shard.range.stop ∧ (base ++ shardRun.virtuals).length = shard.range.stop ∧
      Agrees floats program graphInputs known' (base ++ shardRun.virtuals) ∧
      Simulates floats program graphInputs (base ++ shardRun.virtuals) shard shardRun := by
  obtain ⟨bound, hbound, h⟩ := Option.bind_eq_some_iff.mp h
  obtain ⟨virtuals, hvirtuals, h⟩ := Option.bind_eq_some_iff.mp h
  obtain ⟨known₁, hpublish, h⟩ := Option.bind_eq_some_iff.mp h
  cases h
  obtain ⟨parts, hbinds, rfl⟩ := bindShardProgram_ok.mp (FixedPoint.toOption_eq_some.mp hbound)
  obtain rfl : parts.planned = shard := Option.some.inj (hbinds.planned.symm.trans hshard)
  have hincoming : Agrees floats program graphInputs (incomingOf plan known shardId) base :=
    agrees_of_subset hagrees fun r tensor => incomingOf_get
  obtain ⟨hrun, hlength, hsimulates⟩ := binds_simulates hmachine hbinds hbase hincoming hvirtuals
  refine ⟨hrun, hbinds.range.1, hlength, fun r tensor hget => ?_, hsimulates⟩
  rcases publish_some hpublish r tensor hget with hold | ⟨g, rfl, hown⟩
  · exact readGlobal_append virtuals (hagrees r tensor hold)
  · rw [readGlobal, ← hsimulates.virtuals g (contains_of_valueOf hown)]
    exact hown

theorem slice_append_drop {α : Type} (xs : List α) {start stop : ℕ} (h : start ≤ stop) :
    slice xs start stop ++ xs.drop stop = xs.drop start := by
  conv_rhs => rw [← List.take_append_drop stop xs, List.drop_append]
  by_cases hstop : stop ≤ xs.length
  · rw [List.length_take, min_eq_left hstop, Nat.sub_eq_zero_of_le h, List.drop_zero]
    rfl
  · rw [List.drop_of_length_le (not_le.mp hstop).le, List.drop_nil]
    rfl

theorem runShards_sound (hmachine : Machine program) {count : ℕ} (hcount : shardId + count = plan.shards.length)
    (hchain : Chain base.length ((plan.shards.drop shardId).map (·.range)) program.instructions.length)
    (hagrees : Agrees floats program graphInputs known base)
    (h : runShards floats blake3 program plan modelDigest layout graphInputs interpret known (List.range' shardId count) = some runs) :
    ∃ values, StraightLine.run interpret (readGlobal floats program graphInputs) base
        ((program.instructions.drop base.length).map globalLine) = some values ∧
      List.Forall₂ (Simulates floats program graphInputs values) (plan.shards.drop shardId) runs := by
  induction count generalizing shardId base known runs with
  | zero =>
      cases h
      rw [Nat.add_zero] at hcount
      rw [List.drop_of_length_le hcount.ge] at hchain ⊢
      refine ⟨base, ?_, .nil⟩
      rw [List.drop_of_length_le (le_of_eq (Eq.symm hchain))]
      rfl
  | succ count ih =>
      have hlt : shardId < plan.shards.length := by omega
      rw [List.drop_eq_getElem_cons hlt] at hchain ⊢
      obtain ⟨hstart, hrest⟩ := hchain
      obtain ⟨⟨known', shardRun⟩, hone, h⟩ := Option.bind_eq_some_iff.mp h
      obtain ⟨others, hothers, h⟩ := Option.bind_eq_some_iff.mp h
      cases h
      obtain ⟨hrun, hle, hlength, hagrees', hsimulates⟩ :=
        runShard_sound hmachine hone (List.getElem?_eq_getElem hlt) hstart.symm hagrees
      rw [← hlength] at hrest
      obtain ⟨values, hvalues, hall⟩ := ih (by omega) hrest hagrees' hothers
      refine ⟨values, ?_, .cons (hsimulates.mono (StraightLine.run_extends hvalues) hlength.ge) hall⟩
      rw [← hstart, ← slice_append_drop program.instructions hle, List.map_append, StraightLine.run_append, hrun,
        Option.bind_some, ← hlength]
      exact hvalues

end Sound

section Complete

variable {floats : HostFloats} {blake3 : Blake3} {program : CompiledProgram} {plan : PartitionPlan} {modelDigest : Digest32}
  {layout : BoundaryLayout} {graphInputs : Values String} {interpret : Instruction → List (List I18) → Option (List I18)}
  {base values : List (List I18)} {known known' : Values Register} {shardId : ℕ} {range : Range} {inputs external : List Register}

theorem mem_numbered {entry : CompiledInstruction × ℕ} (h : entry ∈ numbered program range) :
    range.Contains entry.2 ∧ program.instructions[entry.2]? = some entry.1 := by
  obtain ⟨hle, hget⟩ := List.mem_zipIdx_iff_le_and_getElem?_sub.mp h
  rw [slice, List.getElem?_drop, Nat.add_sub_cancel' hle, List.getElem?_take] at hget
  split at hget
  · next hlt => exact ⟨⟨hle, hlt⟩, hget⟩
  · cases hget

theorem lowerRegister_total {global : ℕ} {register : Register} (hrouted : Routed inputs range global register)
    (hexternal : Outside range register → register ∈ external)
    (hweight : ∀ name, register = .weight name → ∃ tensor, weightAsI18 floats program name = .ok tensor)
    (weights : Interning.Table String (List I18)) :
    ∃ weights' ref, lowerRegister floats program range external global weights register = .ok (weights', ref) := by
  have hinput : Outside range register → ∃ ref, inputRef external register = .ok ref := by
    intro hout
    obtain ⟨i, hi⟩ := Option.isSome_iff_exists.mp (List.isSome_idxOf?.mpr (hexternal hout))
    exact ⟨_, inputRef_ok.mpr ⟨i, hi, rfl⟩⟩
  cases register with
  | graphInput name =>
      obtain ⟨ref, href⟩ := hinput trivial
      exact ⟨weights, ref, bind_eq_ok.mpr ⟨ref, href, rfl⟩⟩
  | weight name =>
      obtain ⟨tensor, htensor⟩ := hweight name rfl
      have hmake : ∃ tensor, makeWeight floats program name = .ok tensor := ⟨tensor, FixedPoint.mapError_eq_ok.mpr htensor⟩
      obtain ⟨weights', i, hintern⟩ : ∃ weights' i, Interning.intern (makeWeight floats program) weights name = .ok (weights', i) :=
        Interning.intern_total hmake
      exact ⟨weights', .weight (UInt64.ofNat i), bind_eq_ok.mpr ⟨(weights', i), hintern, rfl⟩⟩
  | virtual source =>
      rw [lowerRegister]
      rw [Routed] at hrouted
      split at hrouted
      · next hlt =>
        obtain ⟨ref, href⟩ := hinput hlt
        rw [if_neg fun hinside => absurd hinside.1.1 (not_le.mpr hlt), if_pos hlt]
        exact ⟨weights, ref, bind_eq_ok.mpr ⟨ref, href, rfl⟩⟩
      · rw [if_pos ⟨hrouted.2, hrouted.1⟩]
        exact ⟨weights, _, rfl⟩

theorem lowered_total (hrouted : ∀ entry ∈ numbered program range, ∀ r ∈ entry.1.inputs, Routed inputs range entry.2 r)
    (hexternal : ∀ r ∈ readsOf program range, Outside range r → r ∈ external)
    (hweight : ∀ name, .weight name ∈ readsOf program range → ∃ tensor, weightAsI18 floats program name = .ok tensor) :
    ∃ weights instructions, Interning.thread (lowerInstruction floats program range external) [] (numbered program range) =
      .ok (weights, instructions) := by
  have hinstruction : ∀ weights, ∀ entry ∈ numbered program range, True →
      ∃ weights' instr, lowerInstruction floats program range external weights entry = .ok (weights', instr) ∧ True := by
    rintro weights entry hentry -
    have hoperand : ∀ weights, ∀ r ∈ entry.1.inputs, True →
        ∃ weights' ref, lowerRegister floats program range external entry.2 weights r = .ok (weights', ref) ∧ True := by
      rintro weights r hr -
      have hread : r ∈ readsOf program range := List.mem_flatMap.mpr ⟨entry, hentry, hr⟩
      obtain ⟨weights', ref, hok⟩ := lowerRegister_total (hrouted entry hentry r hr) (hexternal r hread)
        (fun name hname => hweight name (hname ▸ hread)) weights
      exact ⟨weights', ref, hok, trivial⟩
    obtain ⟨weights', refs, hrefs, -⟩ := Interning.thread_total (I := fun _ => True) hoperand (s := weights) trivial
    exact ⟨weights', ⟨entry.1.instruction, refs⟩, bind_eq_ok.mpr ⟨(weights', refs), hrefs, rfl⟩, trivial⟩
  obtain ⟨weights, instructions, hok, -⟩ := Interning.thread_total (I := fun _ => True) hinstruction (s := []) trivial
  exact ⟨weights, instructions, hok⟩

section Flow

variable {shard : PlannedShard}

theorem chain_le {a b : ℕ} {rs : List Range} (h : Chain a rs b) (hforward : ∀ r ∈ rs, r.start ≤ r.stop) : a ≤ b := by
  induction rs generalizing a with
  | nil => exact le_of_eq h
  | cons r rs ih =>
      obtain ⟨rfl, hrest⟩ := h
      exact (hforward r (.head _)).trans (ih hrest fun r hr => hforward r (.tail _ hr))

theorem chain_stop_le {a b : ℕ} {rs : List Range} (h : Chain a rs b) (hforward : ∀ r ∈ rs, r.start ≤ r.stop) {r : Range}
    (hr : r ∈ rs) : r.stop ≤ b := by
  induction rs generalizing a with
  | nil => cases hr
  | cons first rs ih =>
      have hrest : ∀ r ∈ rs, r.start ≤ r.stop := fun r hr => hforward r (.tail _ hr)
      rcases List.mem_cons.mp hr with rfl | hr
      · exact chain_le h.2 hrest
      · exact ih h.2 hrest hr

/-- The graph of the plan is the data flow between its shards. -/
structure Flows (program : CompiledProgram) (plan : PartitionPlan) : Prop where
  chain : Chain 0 (plan.shards.map (·.range)) program.instructions.length
  forward : ∀ shard ∈ plan.shards, shard.range.start ≤ shard.range.stop
  built : buildDag program (specsOf plan) = .ok plan.dag
  flow : ExactFlow program (specsOf plan) plan.dag
  ids : plan.shards.map (·.id) = List.range plan.shards.length

theorem Flows.stop_le (h : Flows program plan) (hshard : shard ∈ plan.shards) :
    shard.range.stop ≤ program.instructions.length := by
  have hforward : ∀ r ∈ plan.shards.map (·.range), r.start ≤ r.stop := by
    intro r hr
    obtain ⟨other, hother, rfl⟩ := List.mem_map.mp hr
    exact h.forward other hother
  exact chain_stop_le h.chain hforward (List.mem_map_of_mem hshard)

theorem holds_iff {i : ℕ} : BuildDag.Holds (specsOf plan) shardId i ↔
    ∃ shard, plan.shards[shardId]? = some shard ∧ shard.range.Contains i := by
  rw [BuildDag.Holds, BuildDag.ranges, specsOf, List.map_map, List.getElem?_map]
  constructor
  · rintro ⟨r, hr, hcontains⟩
    obtain ⟨shard, hshard, rfl⟩ := Option.map_eq_some_iff.mp hr
    exact ⟨shard, hshard, hcontains⟩
  · rintro ⟨shard, hshard, hcontains⟩
    exact ⟨shard.range, by rw [hshard]; rfl, hcontains⟩

theorem Flows.dagShard (h : Flows program plan) (hshard : plan.shards[shardId]? = some shard) :
    ∃ dagShard, plan.dag.shards[shardId]? = some dagShard ∧ plannedShard plan shardId = .ok (shard, dagShard) := by
  have hget := congrArg (fun entries => entries[shardId]?) h.flow.shards
  simp only [specsOf, List.getElem?_map, List.getElem?_zipIdx, hshard, Option.map_some] at hget
  obtain ⟨dagShard, hdag, hsame⟩ := Option.map_eq_some_iff.mp hget
  obtain ⟨hid, hname, hrange⟩ := Prod.mk.inj hsame |>.imp id Prod.mk.inj
  have hids := congrArg (fun ids => ids[shardId]?) h.ids
  simp only [List.getElem?_map, hshard, Option.map_some,
    List.getElem?_range (List.getElem?_eq_some_iff.mp hshard).1, Option.some.injEq] at hids
  exact ⟨dagShard, hdag, plannedShard_ok.mpr ⟨hshard, hdag, hids, by simpa using hid, hrange.symm, hname.symm⟩⟩

variable {dagShard : Shard}

theorem Flows.unique (h : Flows program plan) {s t i : ℕ} (hs : BuildDag.Holds (specsOf plan) s i)
    (ht : BuildDag.Holds (specsOf plan) t i) (hi : i < program.instructions.length) : s = t :=
  (h.flow.covered i hi).unique hs ht

theorem Flows.mem_inputs (h : Flows program plan) (hshard : plannedShard plan shardId = .ok (shard, dagShard)) {r : Register} :
    r ∈ dagShard.inputs ↔ ∃ producer p, r = .virtual p ∧ BuildDag.Crosses program (specsOf plan) producer shardId p := by
  obtain ⟨-, hdag, -, hid, -⟩ := plannedShard_ok.mp hshard
  rw [(h.flow.inputs dagShard (List.mem_of_getElem? hdag)).2, hid]
  simp only [h.flow.edges]

theorem Flows.mem_outputs (h : Flows program plan) (hshard : plannedShard plan shardId = .ok (shard, dagShard)) {r : Register} :
    r ∈ dagShard.outputs ↔ ∃ consumer p, r = .virtual p ∧ BuildDag.Crosses program (specsOf plan) shardId consumer p := by
  obtain ⟨-, hdag, -, hid, -⟩ := plannedShard_ok.mp hshard
  rw [(h.flow.outputs dagShard (List.mem_of_getElem? hdag)).2, hid]
  simp only [h.flow.edges]

theorem crosses_lt {producer consumer p : ℕ} (h : Flows program plan)
    (hcrosses : BuildDag.Crosses program (specsOf plan) producer consumer p) : p < program.instructions.length := by
  obtain ⟨-, -, i, -, hread⟩ := hcrosses
  exact (h.flow.backward i p hread).trans hread.lt

/-- A register that crosses into a shard comes from before it. -/
theorem Flows.crosses_before (h : Flows program plan) (hshard : plan.shards[shardId]? = some shard) {producer p : ℕ}
    (hcrosses : BuildDag.Crosses program (specsOf plan) producer shardId p) : p < shard.range.start := by
  have hp := crosses_lt h hcrosses
  obtain ⟨hne, hproducer, i, hconsumer, hread⟩ := hcrosses
  obtain ⟨shard', hshard', hi⟩ := holds_iff.mp hconsumer
  obtain rfl : shard = shard' := Option.some.inj (hshard.symm.trans hshard')
  by_contra hge
  have hinside : shard.range.Contains p := ⟨not_lt.mp hge, (h.flow.backward i p hread).trans hi.2⟩
  exact hne (h.unique hproducer (holds_iff.mpr ⟨shard, hshard, hinside⟩) hp)

/-- Every read of a shard is routed: the graph has an edge for each one that leaves the shard. -/
theorem Flows.routed (h : Flows program plan) (hshard : plannedShard plan shardId = .ok (shard, dagShard))
    (entry : CompiledInstruction × ℕ) (hentry : entry ∈ numbered program shard.range) (r : Register) (hr : r ∈ entry.1.inputs) :
    Routed dagShard.inputs shard.range entry.2 r := by
  have hplanned := (plannedShard_ok.mp hshard).1
  obtain ⟨hcontains, hget⟩ := mem_numbered hentry
  cases r with
  | graphInput name | weight name => trivial
  | virtual source =>
      have hread : ReadsOutput program entry.2 source := ⟨entry.1, hget, hr⟩
      have hlt := h.flow.backward _ _ hread
      rw [Routed]
      split
      · next hbefore =>
        obtain ⟨producer, hproducer, -⟩ := h.flow.covered source (hlt.trans hread.lt)
        have hholds : BuildDag.Holds (specsOf plan) shardId entry.2 := holds_iff.mpr ⟨shard, hplanned, hcontains⟩
        apply (h.mem_inputs hshard).mpr
        refine ⟨producer, source, rfl, ?_, hproducer, entry.2, hholds, hread⟩
        rintro rfl
        obtain ⟨shard', hshard', hinside⟩ := holds_iff.mp hproducer
        obtain rfl : shard = shard' := Option.some.inj (hplanned.symm.trans hshard')
        exact absurd hinside.1 (not_le.mpr hbefore)
      · next hafter => exact ⟨hlt, not_lt.mp hafter, hlt.trans hcontains.2⟩

end Flow

section Total

variable {shard : PlannedShard} {dagShard : Shard}

/-- The registers at the ends of the shards. -/
inductive IsBoundary (program : CompiledProgram) (plan : PartitionPlan) : Register → Prop
  | graphInput {instr name} : instr ∈ program.instructions → .graphInput name ∈ instr.inputs →
      IsBoundary program plan (.graphInput name)
  | edge {e} : e ∈ plan.dag.edges → IsBoundary program plan e.register
  | graphOutput {output} : output ∈ program.graphOutputs → IsBoundary program plan output.2

variable (floats program plan graphInputs) in
/-- The layout has the length of every register at the end of a shard. -/
def Measures (layout : BoundaryLayout) (values : List (List I18)) : Prop :=
  ∀ r, IsBoundary program plan r → ∃ spec ∈ layout.specs, spec.register = r ∧
    ∀ tensor, readGlobal floats program graphInputs values r = some tensor → tensor.length = spec.elementCount

variable (blake3 program plan modelDigest layout) in
/-- The plan was made for this program and this layout. -/
structure PlanFor : Prop where
  model : modelDigest = plan.modelDigest
  snapshot : MatchesProgram plan program
  layoutDigest : plan.boundaryLayoutDigest = some (layout.digest blake3)
  graphOutputs : ∀ output ∈ program.graphOutputs, ∃ i < program.instructions.length, output.2 = .virtual i

theorem layout_get {spec : PlanDigest.BoundaryTensorSpec} (h : spec ∈ layout.specs) :
    BoundaryLayout.get layout spec.register = .ok spec := by
  rw [BoundaryLayout.get, Onnx.orElse_eq_ok]
  obtain ⟨found, hfound⟩ := Option.isSome_iff_exists.mp
    (List.find?_isSome (p := fun s => decide (s.register = spec.register)) |>.mpr ⟨spec, h, decide_eq_true rfl⟩)
  have hkeys : (layout.specs.map (·.key)).Nodup := List.pairwise_map.mpr (layout.sorted.imp ne_of_lt)
  have hregister : found.register = spec.register := by simpa using List.find?_some hfound
  have heq : found = spec := List.inj_on_of_nodup_map hkeys (List.mem_of_find?_eq_some hfound) h
    (congrArg PlanDigest.registerKey hregister)
  rw [← heq] at hfound ⊢
  exact hfound

variable (plan) in
/-- The registers that cross shards are known as far as they have been computed. -/
def Knows (known : Values Register) (stop : ℕ) : Prop :=
  ∀ p < stop, (∃ e ∈ plan.dag.edges, e.register = .virtual p) → Register.virtual p ∈ known

theorem Flows.hasEdge (h : Flows program plan) {producer consumer p : ℕ}
    (hcrosses : BuildDag.Crosses program (specsOf plan) producer consumer p) : ∃ e ∈ plan.dag.edges, e.register = .virtual p := by
  obtain ⟨e, he, -, -, hregister⟩ := (h.flow.edges _ _ _).mpr ⟨p, rfl, hcrosses⟩
  exact ⟨e, he, hregister⟩

theorem supplied_total (hflows : Flows program plan) (hshard : plannedShard plan shardId = .ok (shard, dagShard))
    (hknows : Knows plan known shard.range.start) (r : Register) : r ∈ incomingOf plan known shardId ↔ r ∈ dagShard.inputs := by
  obtain ⟨hplanned, hdag, -⟩ := plannedShard_ok.mp hshard
  rw [mem_incomingOf hdag, and_iff_right_iff_imp]
  intro hr
  obtain ⟨producer, p, rfl, hcrosses⟩ := (hflows.mem_inputs hshard).mp hr
  exact hknows p (hflows.crosses_before hplanned hcrosses) (hflows.hasEdge hcrosses)

/-- Every register that the shard takes from outside has a value of the right length. -/
theorem inputs_total (hflows : Flows program plan) (hshard : plannedShard plan shardId = .ok (shard, dagShard))
    (hmeasures : Measures floats program plan graphInputs layout values)
    (hrun : StraightLine.run interpret (readGlobal floats program graphInputs) [] (program.instructions.map globalLine) = some values)
    (hagrees : Agrees floats program graphInputs known values) (hknows : Knows plan known shard.range.start)
    (hexternal : ∀ r ∈ external, r ∈ readsOf program shard.range ∧ Outside shard.range r) :
    ∃ inputs, external.mapM (bindInput plan.dag shardId layout graphInputs (incomingOf plan known shardId)) = .ok inputs := by
  suffices hall : ∀ r ∈ external, ∃ entry, bindInput plan.dag shardId layout graphInputs (incomingOf plan known shardId) r = .ok entry by
    obtain ⟨inputs, hinputs⟩ := exists_forall₂ hall
    exact ⟨inputs, mapM_eq_ok.mpr hinputs⟩
  intro r hr
  obtain ⟨hread, hout⟩ := hexternal r hr
  obtain ⟨entry, hentry, hr⟩ := List.mem_flatMap.mp hread
  obtain ⟨hcontains, hget⟩ := mem_numbered hentry
  have hboundary : IsBoundary program plan r ∧ ∃ tensor, externalValues graphInputs (incomingOf plan known shardId) r = .ok tensor ∧
      readGlobal floats program graphInputs values r = some tensor := by
    cases r with
    | graphInput name =>
        have hmem := List.mem_of_getElem? hget
        obtain ⟨_, tensor, -, htensor⟩ := StraightLine.run_reads hrun (List.mem_map_of_mem hmem) hr
        exact ⟨.graphInput hmem hr, tensor, externalValues_ok.mpr (.inl ⟨name, rfl, htensor⟩), htensor⟩
    | weight name => cases hout
    | virtual source =>
        have hinput : .virtual source ∈ dagShard.inputs := by
          have hrouted := hflows.routed hshard entry hentry _ hr
          have hbefore : source < shard.range.start := hout
          rwa [Routed, if_pos hbefore] at hrouted
        obtain ⟨producer, p, heq, hcrosses⟩ := (hflows.mem_inputs hshard).mp hinput
        cases heq
        obtain ⟨e, he, hregister⟩ := hflows.hasEdge hcrosses
        obtain ⟨tensor, htensor⟩ := WitnessExecution.getElem?_of_mem ((supplied_total hflows hshard hknows _).mpr hinput)
        exact ⟨hregister ▸ .edge he, tensor, externalValues_ok.mpr (.inr ⟨source, rfl, htensor⟩),
          hagrees _ _ (incomingOf_get htensor)⟩
  obtain ⟨hboundary, tensor, hvalue, hholds⟩ := hboundary
  obtain ⟨spec, hspec, rfl, hlength⟩ := hmeasures r hboundary
  exact ⟨(tensor, _), bindInput_ok.mpr ⟨spec, layout_get hspec, hvalue, hlength tensor hholds, rfl⟩⟩

theorem mem_outputRegisters {r : Register} : r ∈ outputRegisters program range dagShard ↔
    r ∈ dagShard.outputs ∨ (∃ output ∈ program.graphOutputs, output.2 = r) ∧ isInside range r = true := by
  rw [outputRegisters, (sortRegisters_perm _).mem_iff, List.mem_dedup, List.mem_append, List.mem_filter, List.mem_map]

theorem isInside_iff {r : Register} : isInside range r = true ↔ ∃ p, r = .virtual p ∧ range.Contains p := by
  cases r with
  | graphInput name | weight name => simp [isInside]
  | virtual p => simp [isInside]

/-- What a shard puts out is computed in it. -/
theorem Flows.outputs_inside (h : Flows program plan) (hshard : plannedShard plan shardId = .ok (shard, dagShard)) {r : Register}
    (hr : r ∈ outputRegisters program shard.range dagShard) :
    IsBoundary program plan r ∧ ∃ p, r = .virtual p ∧ shard.range.Contains p := by
  rcases mem_outputRegisters.mp hr with hout | ⟨⟨output, houtput, rfl⟩, hinside⟩
  · obtain ⟨consumer, p, rfl, hcrosses⟩ := (h.mem_outputs hshard).mp hout
    obtain ⟨e, he, hregister⟩ := h.hasEdge hcrosses
    obtain ⟨shard', hshard', hcontains⟩ := holds_iff.mp hcrosses.2.1
    obtain rfl : shard = shard' := Option.some.inj ((plannedShard_ok.mp hshard).1.symm.trans hshard')
    exact ⟨hregister ▸ .edge he, p, rfl, hcontains⟩
  · exact ⟨.graphOutput houtput, isInside_iff.mp hinside⟩

theorem outputs_total (hflows : Flows program plan) (hshard : plannedShard plan shardId = .ok (shard, dagShard))
    (hmeasures : Measures floats program plan graphInputs layout values) :
    ∃ outputs, (outputRegisters program shard.range dagShard).mapM (bindOutput program plan.dag shardId layout) = .ok outputs := by
  suffices hall : ∀ r ∈ outputRegisters program shard.range dagShard, ∃ d, bindOutput program plan.dag shardId layout r = .ok d by
    obtain ⟨outputs, houtputs⟩ := exists_forall₂ hall
    exact ⟨outputs, mapM_eq_ok.mpr houtputs⟩
  intro r hr
  obtain ⟨spec, hspec, rfl, -⟩ := hmeasures r (hflows.outputs_inside hshard hr).1
  exact ⟨_, bind_eq_ok.mpr ⟨spec, layout_get hspec, rfl⟩⟩

/-- A shard whose predecessors have computed their part of a run can be bound. -/
theorem binds_total (hflows : Flows program plan) (hplan : PlanFor blake3 program plan modelDigest layout)
    (hmeasures : Measures floats program plan graphInputs layout values)
    (hrun : StraightLine.run interpret (readGlobal floats program graphInputs) [] (program.instructions.map globalLine) = some values)
    (hshard : plan.shards[shardId]? = some shard) (hagrees : Agrees floats program graphInputs known values)
    (hknows : Knows plan known shard.range.start) :
    ∃ parts, Binds floats blake3 program plan shardId modelDigest layout graphInputs (incomingOf plan known shardId) parts ∧
      parts.planned = shard := by
  obtain ⟨dagShard, hdag, hplanned⟩ := hflows.dagShard hshard
  have hrouted := hflows.routed hplanned
  have hexternal := externals_ok.mpr ⟨hrouted, rfl⟩
  have hmem := (externals_mem hexternal).2
  obtain ⟨inputs, hinputs⟩ := inputs_total hflows hplanned hmeasures hrun hagrees hknows fun r hr => (hmem r).mp hr
  obtain ⟨outputs, houtputs⟩ := outputs_total hflows hplanned hmeasures
  have hweights : ∀ name, .weight name ∈ readsOf program shard.range → ∃ tensor, weightAsI18 floats program name = .ok tensor := by
    intro name hname
    obtain ⟨entry, hentry, hr⟩ := List.mem_flatMap.mp hname
    obtain ⟨_, tensor, -, htensor⟩ := StraightLine.run_reads hrun
      (List.mem_map_of_mem (List.mem_of_getElem? (mem_numbered hentry).2)) hr
    exact ⟨tensor, FixedPoint.toOption_eq_some.mp htensor⟩
  obtain ⟨weights, instructions, hlowered⟩ := lowered_total hrouted (fun r hr hout => (hmem r).mpr ⟨hr, hout⟩) hweights
  have hstop := hflows.stop_le (List.mem_of_getElem? hshard)
  have hgraph : ∀ output ∈ program.graphOutputs, checkGraphOutput program output = .ok () := by
    intro output houtput
    obtain ⟨i, hi, hregister⟩ := hplan.graphOutputs output houtput
    rw [checkGraphOutput, hregister]
    exact refuseIf_ok.mpr (not_le.mpr hi)
  exact ⟨⟨shard, dagShard, _, inputs, weights, instructions, outputs⟩, ⟨hflows.flow.backward, hplan.model, hplan.snapshot,
    hplan.layoutDigest, hshard, hdag, (plannedShard_ok.mp hplanned).2.2, hflows.built, supplied_total hflows hplanned hknows,
    ⟨hflows.forward shard (List.mem_of_getElem? hshard), hstop⟩, hexternal, hinputs, hlowered, hgraph, houtputs⟩, rfl⟩

/-- The results of a part of a run. -/
theorem run_part {start stop : ℕ}
    (hrun : StraightLine.run interpret (readGlobal floats program graphInputs) [] (program.instructions.map globalLine) = some values)
    (hle : start ≤ stop) (hstop : stop ≤ program.instructions.length) :
    StraightLine.run interpret (readGlobal floats program graphInputs) (values.take start)
      ((slice program.instructions start stop).map globalLine) = some (values.take stop) := by
  have htake : ∀ k ≤ program.instructions.length, StraightLine.run interpret (readGlobal floats program graphInputs) []
      ((program.instructions.take k).map globalLine) = some (values.take k) := by
    intro k hk
    rw [List.map_take, StraightLine.run_take hrun k, List.length_take, List.length_map, min_eq_left hk, List.length_nil, Nat.zero_add]
  have hsplit : program.instructions.take stop = program.instructions.take start ++ slice program.instructions start stop := by
    conv_lhs => rw [← List.take_append_drop start (program.instructions.take stop), List.take_take, min_eq_left hle]
    rfl
  have hwhole := htake stop hstop
  rw [hsplit, List.map_append, StraightLine.run_append, htake start (hle.trans hstop)] at hwhole
  exact hwhole

theorem bindOutput_register {dag : BuildDag.Dag} {r : Register} {d : BoundaryDescriptor}
    (h : bindOutput program dag shardId layout r = .ok d) : d.register = r := by
  obtain ⟨_, -, h⟩ := bind_eq_ok.mp h
  cases h
  rfl

theorem Flows.output_of_edge (h : Flows program plan) (hshard : plannedShard plan shardId = .ok (shard, dagShard)) {p : ℕ}
    (hinside : shard.range.Contains p) (hedge : ∃ e ∈ plan.dag.edges, e.register = .virtual p) : .virtual p ∈ dagShard.outputs := by
  obtain ⟨e, he, hregister⟩ := hedge
  obtain ⟨p', heq, hcrosses⟩ := (h.flow.edges e.producer e.consumer _).mp ⟨e, he, rfl, rfl, rfl⟩
  obtain rfl : p = p' := Register.virtual.inj (hregister.symm.trans heq)
  have hholds : BuildDag.Holds (specsOf plan) shardId p := holds_iff.mpr ⟨shard, (plannedShard_ok.mp hshard).1, hinside⟩
  have hproducer : e.producer = shardId := h.unique hcrosses.2.1 hholds (crosses_lt h hcrosses)
  rw [hproducer] at hcrosses
  exact (h.mem_outputs hshard).mpr ⟨e.consumer, p, rfl, hcrosses⟩

/-- It evaluates, and its successors find what they need. -/
theorem runShard_total (hmachine : Machine program) (hflows : Flows program plan)
    (hplan : PlanFor blake3 program plan modelDigest layout) (hmeasures : Measures floats program plan graphInputs layout values)
    (hrun : StraightLine.run interpret (readGlobal floats program graphInputs) [] (program.instructions.map globalLine) = some values)
    (hshard : plan.shards[shardId]? = some shard)
    (hagrees : Agrees floats program graphInputs known (values.take shard.range.start))
    (hknows : Knows plan known shard.range.start) :
    ∃ known' shardRun,
      runShard floats blake3 program plan modelDigest layout graphInputs interpret known shardId = some (known', shardRun) ∧
      Knows plan known' shard.range.stop := by
  have hagrees' : Agrees floats program graphInputs known values := fun r tensor hget => by
    have hread := readGlobal_append (values.drop shard.range.start) (hagrees r tensor hget)
    rwa [List.take_append_drop] at hread
  obtain ⟨parts, hbinds, rfl⟩ := binds_total hflows hplan hmeasures hrun hshard hagrees' hknows
  obtain ⟨hle, hstop⟩ := hbinds.range
  have hlength : values.length = program.instructions.length := by
    rw [StraightLine.run_length hrun, List.length_map, List.length_nil, Nat.zero_add]
  have hpart := run_part hrun hle hstop
  have hbase : (values.take parts.planned.range.start).length = parts.planned.range.start := by
    rw [List.length_take, hlength]
    omega
  rw [hbinds.evaluates hmachine hbase (agrees_of_subset hagrees fun r tensor => incomingOf_get)] at hpart
  obtain ⟨virtuals, hvirtuals, happend⟩ := Option.map_eq_some_iff.mp hpart
  have hvalue : ∀ p, parts.planned.range.Contains p → ∃ tensor, ShardRun.valueOf ⟨parts.bound plan, virtuals⟩ p = some tensor := by
    intro p hp
    have hlt : p < (values.take parts.planned.range.stop).length := by
      rw [List.length_take, hlength]
      exact lt_min hp.2 (hp.2.trans_le hstop)
    rw [valueOf_eq virtuals hle hp]
    have hget : (values.take parts.planned.range.start ++ virtuals)[p]? = virtuals[p - parts.planned.range.start]? := by
      rw [List.getElem?_append_right (hbase.le.trans hp.1), hbase]
    rw [happend, List.getElem?_eq_getElem hlt] at hget
    exact ⟨_, hget.symm⟩
  obtain ⟨dagShard, hdag, hplanned⟩ := hflows.dagShard hshard
  obtain rfl : dagShard = parts.dagShard := Option.some.inj (hdag.symm.trans hbinds.shard)
  have hout : ∀ d ∈ parts.outputs, d.register ∈ outputRegisters program parts.planned.range parts.dagShard := by
    intro d hd
    obtain ⟨r, hr, hbind⟩ := forall₂_exists_of_mem (mapM_eq_ok.mp hbinds.outputs).flip hd
    rwa [bindOutput_register hbind]
  have hvalues : ∀ d ∈ parts.outputs, ∃ g tensor, d.register = .virtual g ∧
      ShardRun.valueOf ⟨parts.bound plan, virtuals⟩ g = some tensor := by
    intro d hd
    obtain ⟨-, p, hregister, hcontains⟩ := hflows.outputs_inside hplanned (hout d hd)
    obtain ⟨tensor, htensor⟩ := hvalue p hcontains
    exact ⟨p, tensor, hregister, htensor⟩
  obtain ⟨known', hpublish, hkeeps, hputs⟩ : ∃ known', ShardRun.publish ⟨parts.bound plan, virtuals⟩ known = some known' ∧
      (∀ r ∈ known, r ∈ known') ∧ ∀ d ∈ parts.outputs, d.register ∈ known' := publish_total hvalues
  refine ⟨known', ⟨parts.bound plan, virtuals⟩, ?_, fun p hp hedge => ?_⟩
  · have hbound := FixedPoint.toOption_eq_some.mpr (bindShardProgram_ok.mpr ⟨parts, hbinds, rfl⟩)
    exact Option.bind_eq_some_iff.mpr ⟨_, hbound, Option.bind_eq_some_iff.mpr ⟨virtuals, hvirtuals,
      Option.bind_eq_some_iff.mpr ⟨known', hpublish, rfl⟩⟩⟩
  · by_cases hbefore : p < parts.planned.range.start
    · exact hkeeps _ (hknows p hbefore hedge)
    · have hinside : parts.planned.range.Contains p := ⟨not_lt.mp hbefore, hp⟩
      have hmem : .virtual p ∈ outputRegisters program parts.planned.range parts.dagShard :=
        mem_outputRegisters.mpr (.inl (hflows.output_of_edge hplanned hinside hedge))
      obtain ⟨d, hd, hbind⟩ := forall₂_exists_of_mem (mapM_eq_ok.mp hbinds.outputs) hmem
      rw [← bindOutput_register hbind]
      exact hputs d hd

theorem runShards_total (hmachine : Machine program) (hflows : Flows program plan)
    (hplan : PlanFor blake3 program plan modelDigest layout) (hmeasures : Measures floats program plan graphInputs layout values)
    (hrun : StraightLine.run interpret (readGlobal floats program graphInputs) [] (program.instructions.map globalLine) = some values)
    {count start : ℕ} (hcount : shardId + count = plan.shards.length)
    (hchain : Chain start ((plan.shards.drop shardId).map (·.range)) program.instructions.length)
    (hagrees : Agrees floats program graphInputs known (values.take start)) (hknows : Knows plan known start) :
    ∃ runs, runShards floats blake3 program plan modelDigest layout graphInputs interpret known (List.range' shardId count) =
      some runs := by
  induction count generalizing shardId start known with
  | zero => exact ⟨[], rfl⟩
  | succ count ih =>
      have hlt : shardId < plan.shards.length := by omega
      rw [List.drop_eq_getElem_cons hlt] at hchain
      obtain ⟨rfl, hrest⟩ := hchain
      have hshard := List.getElem?_eq_getElem hlt
      obtain ⟨known', shardRun, hone, hknows'⟩ := runShard_total hmachine hflows hplan hmeasures hrun hshard hagrees hknows
      have hmem := List.getElem_mem hlt
      have hle := hflows.forward _ hmem
      have hstop := hflows.stop_le hmem
      have hlength : values.length = program.instructions.length := by
        rw [StraightLine.run_length hrun, List.length_map, List.length_nil, Nat.zero_add]
      have hbase : (values.take plan.shards[shardId].range.start).length = plan.shards[shardId].range.start := by
        rw [List.length_take, hlength]
        omega
      obtain ⟨hpart, -, -, hagrees', -⟩ := runShard_sound hmachine hone hshard hbase hagrees
      rw [run_part hrun hle hstop, Option.some_inj] at hpart
      rw [← hpart] at hagrees'
      obtain ⟨runs, hruns⟩ := ih (by omega) hrest hagrees' hknows'
      refine ⟨shardRun :: runs, ?_⟩
      rw [List.range'_succ]
      exact Option.bind_eq_some_iff.mpr ⟨_, hone, Option.bind_eq_some_iff.mpr ⟨runs, hruns, rfl⟩⟩

end Total

end Complete

section Whole

variable {blake3 : Blake3} {program : CompiledProgram} {request : Partition.PartitionRequest} {plan : PartitionPlan}

/-- What the planner leaves in its plan. -/
theorem plan_parts (h : Partition.plan blake3 program request = .ok plan) : Flows program plan ∧
    plan.programSnapshot = program ∧ plan.modelDigest = request.modelDigest ∧
      plan.boundaryLayoutDigest = request.boundaryLayoutDigest := by
  have hvalid := Partition.plan_ok h
  unfold Partition.plan at h
  split at h
  · cases h
  obtain ⟨_, -, h⟩ := bind_eq_ok.mp h
  split at h
  · cases h
  split at h
  · cases h
  obtain ⟨estimates, -, h⟩ := bind_eq_ok.mp h
  obtain ⟨ranges, -, h⟩ := bind_eq_ok.mp h
  obtain ⟨dag, hdag, h⟩ := bind_eq_ok.mp h
  obtain ⟨_, -, h⟩ := bind_eq_ok.mp h
  dsimp only at h
  split at h
  · cases h
  cases h
  have hbuilt := FixedPoint.mapError_eq_ok.mp hdag
  rw [← Partition.specs_shardsOf] at hbuilt
  exact ⟨⟨hvalid.chain, fun shard hshard => (hvalid.nonempty shard hshard).le, hbuilt, hvalid.flow, hvalid.ids⟩, rfl, rfl, rfl⟩

/-- The weights are named once and hold no NaN. -/
structure Numbers (program : CompiledProgram) : Prop where
  names : (program.weights.map Prod.fst).Nodup
  floats : ∀ entry ∈ program.weights, ∀ bits ∈ entry.2.data, isNan bits = false

theorem sameTensor_self {tensor : Onnx.WeightTensor} (h : ∀ bits ∈ tensor.data, isNan bits = false) : SameTensor tensor tensor := by
  refine ⟨rfl, rfl, fun entry hentry => ?_⟩
  obtain ⟨bits, hbits, rfl⟩ : ∃ bits ∈ tensor.data, (bits, bits) = entry := by
    rw [List.zip, List.zipWith_self] at hentry
    exact List.mem_map.mp hentry
  exact ⟨h bits hbits, h bits hbits, .inl rfl⟩

theorem findKey_of_mem {κ α : Type} [DecidableEq κ] {entries : List (κ × α)} (hkeys : (entries.map Prod.fst).Nodup) {entry : κ × α}
    (h : entry ∈ entries) : Assembler.findKey entry.1 entries = some entry.2 := by
  rw [Assembler.findKey]
  obtain ⟨found, hfound⟩ := Option.isSome_iff_exists.mp
    (List.find?_isSome (p := fun e => decide (e.1 = entry.1)) |>.mpr ⟨entry, h, decide_eq_true rfl⟩)
  have hkey : found.1 = entry.1 := by simpa using List.find?_some hfound
  rw [hfound, ← List.inj_on_of_nodup_map hkeys (List.mem_of_find?_eq_some hfound) h hkey]
  rfl

theorem matches_self (hsnapshot : plan.programSnapshot = program) (h : Numbers program) : MatchesProgram plan program := by
  rw [MatchesProgram, hsnapshot]
  refine ⟨rfl, rfl, rfl, fun entry hentry => ?_, fun entry hentry => List.mem_map_of_mem hentry⟩
  exact ⟨entry.2, findKey_of_mem h.names hentry, sameTensor_self (h.floats entry hentry)⟩

/-- A sum, and a second sum in another shard that takes in the first. -/
def twoSums : CompiledProgram where
  instructions := [⟨.eltwise .add, [.graphInput "x", .graphInput "x"], "a"⟩, ⟨.eltwise .add, [.virtual 0, .graphInput "x"], "b"⟩]
  weights := []
  graphInputs := ["x"]
  graphOutputs := [("y", .virtual 1)]

theorem x_ne_weight (name : String) : Register.graphInput "x" ≠ .weight name := PlanDigest.ne_weight rfl name

theorem first_ne_weight (name : String) : Register.virtual 0 ≠ .weight name := PlanDigest.ne_weight rfl name

theorem second_ne_weight (name : String) : Register.virtual 1 ≠ .weight name := PlanDigest.ne_weight rfl name

theorem one_element : 1 ≠ 0 := one_ne_zero

def twoSumsTensors : List PlanDigest.BoundaryTensorSpec :=
  [⟨.graphInput "x", 1, x_ne_weight, one_element⟩, ⟨.virtual 0, 1, first_ne_weight, one_element⟩,
    ⟨.virtual 1, 1, second_ne_weight, one_element⟩]

theorem twoSums_sorted : twoSumsTensors.Pairwise fun a b => a.key < b.key := by
  decide +kernel

def twoSumsLayout : BoundaryLayout := ⟨twoSumsTensors, twoSums_sorted⟩

def zeroHash : Blake3 := fun _ => Vector.replicate 32 0

def twoSumsRequest : Partition.PartitionRequest :=
  { Partition.oneByte with boundaryLayoutDigest := some (twoSumsLayout.digest zeroHash) }

def oneInput : Values String := (∅ : Values String).insert "x" [WitnessArtifact.raw 1]

def executed (instruction : Instruction) (operands : List (List I18)) : Option (List I18) :=
  (WitnessExecution.executeInstruction 0 WitnessArtifact.noFloats [] instruction operands).toOption

theorem twoSums_machine : Machine twoSums where
  instructions := by decide
  operands := by decide
  graphInputs := by decide

def twoSumsValues : List (List I18) := [[WitnessArtifact.raw 2], [WitnessArtifact.raw 3]]

theorem twoSums_boundary {plan : PartitionPlan} (hflows : Flows twoSums plan) {r : Register} (hr : IsBoundary twoSums plan r) :
    r = .graphInput "x" ∨ r = .virtual 0 ∨ r = .virtual 1 := by
  cases hr with
  | @graphInput instr name hinstr hread =>
      have hreads : ∀ instr ∈ twoSums.instructions, ∀ r ∈ instr.inputs, r = .graphInput "x" ∨ r = .virtual 0 ∨ r = .virtual 1 := by
        decide
      exact hreads instr hinstr _ hread
  | @edge e he =>
      obtain ⟨p, hregister, hcrosses⟩ := (hflows.flow.edges _ _ _).mp ⟨e, he, rfl, rfl, rfl⟩
      have hlt : p < 2 := crosses_lt hflows hcrosses
      rw [hregister]
      interval_cases p
      · exact .inr (.inl rfl)
      · exact .inr (.inr rfl)
  | @graphOutput output houtput =>
      obtain rfl := List.mem_singleton.mp houtput
      exact .inr (.inr rfl)

theorem twoSums_measures {plan : PartitionPlan} (hflows : Flows twoSums plan) :
    Measures WitnessArtifact.noFloats twoSums plan oneInput twoSumsLayout twoSumsValues := by
  intro r hr
  rcases twoSums_boundary hflows hr with rfl | rfl | rfl
  · refine ⟨_, .head _, rfl, fun tensor htensor => ?_⟩
    have hone : oneInput["x"]? = some [WitnessArtifact.raw 1] := by simp [oneInput]
    obtain rfl := Option.some.inj (hone.symm.trans htensor)
    rfl
  · refine ⟨_, .tail _ (.head _), rfl, fun tensor htensor => ?_⟩
    cases htensor
    rfl
  · refine ⟨_, .tail _ (.tail _ (.head _)), rfl, fun tensor htensor => ?_⟩
    cases htensor
    rfl

end Whole

end Zkie.ShardedRun
