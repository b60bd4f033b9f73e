import Zkie.ShardBinding

namespace Zkie.ShardBinding

open BuildDag (Dag ReadsOutput Shard buildDag)
open Checked
open FixedPoint (I18)
open GraphCompiler (CompiledInstruction CompiledProgram Register)
open Interning
open Isa (AssemblerInstruction AssemblerProgram Instruction RegisterRef)
open Onnx (orElse orElse_eq_ok)
open Zkie.Partition (PartitionPlan PlannedShard slice)
open PlanDigest (BoundaryLayout registerKey)
open PoseidonBoundary (Blake3)
open RangeChain (Range)
open RunDatabase (Digest32)
open StraightLine (Line Renames)
open WitnessExecution (HostFloats Values)

section Checks

variable {program : CompiledProgram} {plan : PartitionPlan} {shardId : ℕ} {planned : PlannedShard} {dagShard : Shard}
  {incoming : Values Register} {inputs : List Register} {register : Register}

theorem refuseIf_ok {c : Prop} [Decidable c] {error : ShardBindingError} {u : Unit} : refuseIf c error = .ok u ↔ ¬c := by
  by_cases hc : c <;> simp [refuseIf, hc]

theorem refuseFirst_ok {p : Register → Bool} {error : Register → ShardBindingError} {registers : List Register} {u : Unit} :
    refuseFirst p error registers = .ok u ↔ ∀ r ∈ registers, p r = false := by
  unfold refuseFirst
  split
  · next r h =>
    simp only [reduceCtorEq, false_iff, not_forall, Bool.not_eq_false]
    exact ⟨r, List.mem_of_find?_eq_some h, List.find?_some h⟩
  · next h => simpa using h

theorem checkBackward_ok : checkBackward program = .ok () ↔ ∀ i p, ReadsOutput program i p → p < i := by
  unfold checkBackward
  simp only [forM_ok, refuseFirst_ok]
  constructor
  · rintro h i p ⟨instr, hget, hp⟩
    simpa [isForward] using h (instr, i) (List.mem_zipIdx_iff_getElem?.mpr hget) _ hp
  · rintro h ⟨instr, i⟩ hmem r hr
    cases r with
    | graphInput name | weight name => rfl
    | virtual p => simpa [isForward] using h i p ⟨instr, List.mem_zipIdx_iff_getElem?.mp hmem, hr⟩

theorem plannedShard_ok : plannedShard plan shardId = .ok (planned, dagShard) ↔ plan.shards[shardId]? = some planned ∧
    plan.dag.shards[shardId]? = some dagShard ∧ planned.id = shardId ∧ dagShard.id = shardId ∧
      planned.range = dagShard.range ∧ planned.name = dagShard.name := by
  unfold plannedShard
  simp only [bind_eq_ok, orElse_eq_ok, refuseIf_ok]
  constructor
  · rintro ⟨_, hplanned, _, hshard, _, hsame, h⟩
    cases h
    refine ⟨hplanned, hshard, ?_⟩
    simpa [not_or] using hsame
  · rintro ⟨hplanned, hshard, hsame⟩
    exact ⟨planned, hplanned, dagShard, hshard, (), by simpa [not_or] using hsame, rfl⟩

theorem checkDag_ok : checkDag program plan = .ok () ↔ buildDag program (specsOf plan) = .ok plan.dag := by
  unfold checkDag
  simp only [bind_eq_ok, FixedPoint.mapError_eq_ok, refuseIf_ok, not_not]
  constructor
  · rintro ⟨_, hbuild, rfl⟩
    exact hbuild
  · intro hbuild
    exact ⟨plan.dag, hbuild, rfl⟩

theorem checkIncoming_ok : checkIncoming inputs incoming = .ok () ↔ ∀ r, r ∈ incoming ↔ r ∈ inputs := by
  unfold checkIncoming
  simp only [bind_eq_ok, refuseFirst_ok, exists_const, decide_eq_false_iff_not, not_not, Std.ExtTreeMap.mem_keys]
  constructor
  · rintro ⟨hmissing, hextra⟩ r
    exact ⟨hextra r, hmissing r⟩
  · intro h
    exact ⟨fun r => (h r).mpr, fun r => (h r).mp⟩

end Checks

section External

variable {program : CompiledProgram} {range : Range} {inputs external external' : List Register} {global : ℕ} {register : Register}

/-- The value comes from outside of the shard. -/
def Outside (range : Range) : Register → Prop
  | .graphInput _ => True
  | .weight _ => False
  | .virtual source => source < range.start

instance (range : Range) (register : Register) : Decidable (Outside range register) :=
  match register with
  | .graphInput _ => inferInstanceAs (Decidable True)
  | .weight _ => inferInstanceAs (Decidable False)
  | .virtual source => inferInstanceAs (Decidable (source < range.start))

/-- The shard can find the value: among its inputs or before the instruction that reads it. -/
def Routed (inputs : List Register) (range : Range) (global : ℕ) : Register → Prop
  | .graphInput _ => True
  | .weight _ => True
  | .virtual source => if source < range.start then .virtual source ∈ inputs else source < global ∧ range.Contains source

def gather (range : Range) (external : List Register) (register : Register) : List Register :=
  if Outside range register then external.insert register else external

theorem scanRegister_ok : scanRegister inputs range global external register = .ok external' ↔
    Routed inputs range global register ∧ gather range external register = external' := by
  cases register with
  | graphInput name => simp [scanRegister, Routed, gather, Outside]
  | weight name => simp [scanRegister, Routed, gather, Outside]
  | virtual source =>
      by_cases hlt : source < range.start
      · simp [scanRegister, Routed, gather, Outside, hlt, bind_eq_ok, refuseIf_ok, pure, Except.pure]
      · by_cases hinside : source < global ∧ range.Contains source <;>
          simp [scanRegister, Routed, gather, Outside, hlt, hinside]

/-- A fold of checks and of a pure step. -/
theorem foldlM_eq_ok {ε α β : Type} {f : β → α → Except ε β} {P : α → Prop} {g : β → α → β}
    (hf : ∀ b x b', f b x = .ok b' ↔ P x ∧ g b x = b') {xs : List α} {b b' : β} :
    xs.foldlM f b = .ok b' ↔ (∀ x ∈ xs, P x) ∧ xs.foldl g b = b' := by
  induction xs generalizing b with
  | nil => simp [pure, Except.pure]
  | cons x xs ih =>
      rw [List.foldlM_cons, bind_eq_ok, List.forall_mem_cons, List.foldl_cons]
      simp only [hf, ih]
      constructor
      · rintro ⟨_, ⟨hx, rfl⟩, hxs, h⟩
        exact ⟨⟨hx, hxs⟩, h⟩
      · rintro ⟨⟨hx, hxs⟩, h⟩
        exact ⟨_, ⟨hx, rfl⟩, hxs, h⟩

/-- The registers that the instructions of a range read. -/
def readsOf (program : CompiledProgram) (range : Range) : List Register :=
  (numbered program range).flatMap fun entry => entry.1.inputs

theorem externals_ok : externals inputs range program = .ok external ↔
    (∀ entry ∈ numbered program range, ∀ r ∈ entry.1.inputs, Routed inputs range entry.2 r) ∧
      sortRegisters ((readsOf program range).foldl (gather range) []) = external := by
  unfold externals
  have hstep : ∀ (external : List Register) (entry : CompiledInstruction × ℕ) external',
      entry.1.inputs.foldlM (scanRegister inputs range entry.2) external = .ok external' ↔
        (∀ r ∈ entry.1.inputs, Routed inputs range entry.2 r) ∧ entry.1.inputs.foldl (gather range) external = external' :=
    fun external entry external' => foldlM_eq_ok (P := Routed inputs range entry.2) (g := gather range) fun _ _ _ => scanRegister_ok
  simp only [bind_eq_ok, foldlM_eq_ok hstep, readsOf, List.foldl_flatMap]
  constructor
  · rintro ⟨_, ⟨hrouted, rfl⟩, h⟩
    cases h
    exact ⟨hrouted, rfl⟩
  · rintro ⟨hrouted, rfl⟩
    exact ⟨_, ⟨hrouted, rfl⟩, rfl⟩

theorem mem_gather {r : Register} : r ∈ gather range external register ↔ r ∈ external ∨ r = register ∧ Outside range register := by
  unfold gather
  split
  · next h => simp [h, or_comm]
  · next h => simp [h]

theorem nodup_gather (range : Range) (register : Register) (h : external.Nodup) : (gather range external register).Nodup := by
  unfold gather
  split
  · exact h.insert
  · exact h

theorem gathered (range : Range) (reads : List Register) (h : external.Nodup) : (reads.foldl (gather range) external).Nodup ∧
    ∀ r, r ∈ reads.foldl (gather range) external ↔ r ∈ external ∨ r ∈ reads ∧ Outside range r := by
  induction reads generalizing external with
  | nil => simp [h]
  | cons register reads ih =>
      obtain ⟨hnodup, hmem⟩ := ih (nodup_gather range register h)
      refine ⟨hnodup, fun r => ?_⟩
      rw [List.foldl_cons, hmem, mem_gather, List.mem_cons]
      constructor
      · rintro ((hr | ⟨rfl, hr⟩) | ⟨hr, hout⟩)
        · exact .inl hr
        · exact .inr ⟨.inl rfl, hr⟩
        · exact .inr ⟨.inr hr, hout⟩
      · rintro (hr | ⟨rfl | hr, hout⟩)
        · exact .inl (.inl hr)
        · exact .inl (.inr ⟨rfl, hout⟩)
        · exact .inr ⟨hr, hout⟩

theorem sortRegisters_perm (registers : List Register) : (sortRegisters registers).Perm registers := List.perm_insertionSort _ _

/-- The inputs of a bound shard are what it reads from outside, each once. -/
theorem externals_mem (h : externals inputs range program = .ok external) :
    external.Nodup ∧ ∀ r, r ∈ external ↔ r ∈ readsOf program range ∧ Outside range r := by
  obtain ⟨-, rfl⟩ := externals_ok.mp h
  obtain ⟨hnodup, hmem⟩ := gathered range (readsOf program range) List.nodup_nil
  refine ⟨(sortRegisters_perm _).nodup_iff.mpr hnodup, fun r => ?_⟩
  rw [(sortRegisters_perm _).mem_iff, hmem]
  simp

end External

section Lowering

variable {floats : HostFloats} {program : CompiledProgram} {range : Range} {external : List Register} {global : ℕ}
  {weights weights' : Table String (List I18)} {register : Register} {ref : RegisterRef}

/-- The operand that the binder makes of a register. -/
inductive Resolves (range : Range) (external : List Register) (global : ℕ) (weights : Table String (List I18)) :
    Register → RegisterRef → Prop
  | external {register i} : Outside range register → external[i]? = some register →
      Resolves range external global weights register (.input (UInt64.ofNat i))
  | weight {name values i} : weights[i]? = some (name, values) →
      Resolves range external global weights (.weight name) (.weight (UInt64.ofNat i))
  | virtual {source} : range.start ≤ source → source < global →
      Resolves range external global weights (.virtual source) (.virtual (UInt64.ofNat (source - range.start)))

theorem Resolves.mono (h : Resolves range external global weights register ref) (hgrown : weights <+: weights') :
    Resolves range external global weights' register ref := by
  obtain ⟨rest, rfl⟩ := hgrown
  cases h with
  | external hout hi => exact .external hout hi
  | weight hi =>
      apply Resolves.weight
      rw [List.getElem?_append_left (List.getElem?_eq_some_iff.mp hi).1]
      exact hi
  | virtual hstart hlt => exact .virtual hstart hlt

def makeWeight (floats : HostFloats) (program : CompiledProgram) (name : String) : Except ShardBindingError (List I18) :=
  (weightAsI18 floats program name).mapError .weight

theorem inputRef_ok : inputRef external register = .ok ref ↔
    ∃ i, external.idxOf? register = some i ∧ .input (UInt64.ofNat i) = ref := by
  simp only [inputRef, orElse_eq_ok, Option.map_eq_some_iff]

theorem inputRef_resolves (hout : Outside range register) (h : inputRef external register = .ok ref) :
    Resolves range external global weights register ref := by
  obtain ⟨i, hi, rfl⟩ := inputRef_ok.mp h
  obtain ⟨hlt, hget, -⟩ := List.idxOf?_eq_some_iff.mp hi
  exact .external hout (List.getElem?_eq_some_iff.mpr ⟨hlt, hget⟩)

/-- The table has weights only that the instructions read. -/
structure Stocked {ε : Type} (make : String → Except ε (List I18)) (reads : List Register) (weights : Table String (List I18)) :
    Prop extends Interned make weights where
  read : ∀ name ∈ weights.map Prod.fst, Register.weight name ∈ reads

variable {reads : List Register}

theorem Stocked.intern {ε : Type} {make : String → Except ε (List I18)} {name : String} {i : ℕ} (h : Stocked make reads weights)
    (hread : .weight name ∈ reads) (hintern : intern make weights name = .ok (weights', i)) :
    Stocked make reads weights' ∧ weights <+: weights' ∧ ∃ values, weights'[i]? = some (name, values) := by
  obtain ⟨hinterned, hgrown, hi, hkeys⟩ := intern_ok h.toInterned hintern
  refine ⟨⟨hinterned, fun name' hname => ?_⟩, hgrown, hi⟩
  rcases (hkeys name').mp hname with hold | rfl
  · exact h.read name' hold
  · exact hread

theorem lowerRegister_ok (hstocked : Stocked (makeWeight floats program) reads weights) (hread : register ∈ reads)
    (h : lowerRegister floats program range external global weights register = .ok (weights', ref)) :
    Stocked (makeWeight floats program) reads weights' ∧ weights <+: weights' ∧ Resolves range external global weights' register ref := by
  cases register with
  | graphInput name =>
      obtain ⟨_, hinput, h⟩ := bind_eq_ok.mp h
      cases h
      exact ⟨hstocked, List.prefix_rfl, inputRef_resolves trivial hinput⟩
  | weight name =>
      obtain ⟨⟨table, i⟩, hintern, h⟩ := bind_eq_ok.mp h
      cases h
      obtain ⟨hstocked, hgrown, values, hi⟩ := hstocked.intern hread hintern
      exact ⟨hstocked, hgrown, .weight hi⟩
  | virtual source =>
      rw [lowerRegister] at h
      split at h
      · next hinside =>
        cases h
        exact ⟨hstocked, List.prefix_rfl, .virtual hinside.1.1 hinside.2⟩
      split at h
      · next hout =>
        obtain ⟨_, hinput, h⟩ := bind_eq_ok.mp h
        cases h
        exact ⟨hstocked, List.prefix_rfl, inputRef_resolves hout hinput⟩
      · cases h

/-- The instruction, with operands for the registers that it reads. -/
def Lowers (range : Range) (external : List Register) (weights : Table String (List I18)) (entry : CompiledInstruction × ℕ)
    (instr : AssemblerInstruction) : Prop :=
  instr.instruction = entry.1.instruction ∧ List.Forall₂ (Resolves range external entry.2 weights) entry.1.inputs instr.inputs

theorem lowerInstruction_ok {entry : CompiledInstruction × ℕ} {instr : AssemblerInstruction}
    (hstocked : Stocked (makeWeight floats program) reads weights) (hreads : ∀ r ∈ entry.1.inputs, r ∈ reads)
    (h : lowerInstruction floats program range external weights entry = .ok (weights', instr)) :
    Stocked (makeWeight floats program) reads weights' ∧ weights <+: weights' ∧ Lowers range external weights' entry instr := by
  obtain ⟨⟨table, refs⟩, hthread, h⟩ := bind_eq_ok.mp h
  cases h
  obtain ⟨hstocked, hgrown, hrefs⟩ := thread_ok (L := (· <+: ·)) (R := Resolves range external entry.2)
    (fun _ => List.prefix_rfl) (fun _ _ _ => List.IsPrefix.trans) (fun _ _ _ _ hle hres => hres.mono hle)
    (fun _ r _ _ hr hinv hstep => lowerRegister_ok hinv (hreads r hr) hstep) hstocked hthread
  exact ⟨hstocked, hgrown, rfl, hrefs⟩

theorem lowered_ok {entries : List (CompiledInstruction × ℕ)} {instructions : List AssemblerInstruction}
    (h : thread (lowerInstruction floats program range external) [] entries = .ok (weights, instructions)) :
    Stocked (makeWeight floats program) (entries.flatMap fun entry => entry.1.inputs) weights ∧
      List.Forall₂ (Lowers range external weights) entries instructions := by
  obtain ⟨hstocked, -, hall⟩ := thread_ok (I := Stocked (makeWeight floats program) (entries.flatMap fun entry => entry.1.inputs))
    (L := (· <+: ·)) (R := Lowers range external) (fun _ => List.prefix_rfl) (fun _ _ _ => List.IsPrefix.trans)
    (fun _ _ _ _ hle hlow => ⟨hlow.1, hlow.2.imp fun _ _ hres => hres.mono hle⟩)
    (fun _ entry _ _ hentry hinv hstep => lowerInstruction_ok hinv (fun r hr => List.mem_flatMap.mpr ⟨entry, hentry, hr⟩) hstep)
    ⟨Interned.empty, by simp⟩ h
  exact ⟨hstocked, hall⟩

/-- There are no more weights than reads. -/
theorem Stocked.length_le {ε : Type} {make : String → Except ε (List I18)} (h : Stocked make reads weights) : weights.length ≤ reads.length := by
  have hnodup : ((weights.map Prod.fst).map Register.weight).Nodup := h.keys.map fun _ _ heq => Register.weight.inj heq
  have hsub : (weights.map Prod.fst).map Register.weight ⊆ reads := by
    intro r hr
    obtain ⟨name, hname, rfl⟩ := List.mem_map.mp hr
    exact h.read name hname
  simpa using (hnodup.subperm hsub).length_le

end Lowering

section Reading

/-- What a register holds once the first instructions of the program have the results `done`. -/
def readGlobal (floats : HostFloats) (program : CompiledProgram) (graphInputs : Values String) (done : List (List I18)) :
    Register → Option (List I18)
  | .graphInput name => graphInputs[name]?
  | .weight name => (weightAsI18 floats program name).toOption
  | .virtual index => done[index]?

/-- What an operand of a bound program holds. -/
def readLocal (program : AssemblerProgram) (done : List (List I18)) : RegisterRef → Option (List I18)
  | .input i => program.inputValues[i.toNat]?
  | .weight i => program.weightValues[i.toNat]?
  | .virtual i => done[i.toNat]?

def globalLine (compiled : CompiledInstruction) : Line Instruction Register := ⟨compiled.instruction, compiled.inputs⟩

def localLine (instr : AssemblerInstruction) : Line Instruction RegisterRef := ⟨instr.instruction, instr.inputs⟩

variable {floats : HostFloats} {program : CompiledProgram} {graphInputs : Values String} {range : Range}
  {external : List Register} {weights : Table String (List I18)} {register : Register} {ref : RegisterRef}
  {base : List (List I18)} {local_ : AssemblerProgram}

theorem toNat_ofNat {n : ℕ} (h : n < 2 ^ 64) : (UInt64.ofNat n).toNat = n := Nat.mod_eq_of_lt h

theorem readGlobal_append {values : List I18} (done : List (List I18))
    (h : readGlobal floats program graphInputs base register = some values) :
    readGlobal floats program graphInputs (base ++ done) register = some values := by
  cases register with
  | graphInput name | weight name => exact h
  | virtual index => rw [readGlobal, List.getElem?_append_left (List.getElem?_eq_some_iff.mp h).1]; exact h

/-- The values that a bound program holds: those of the registers outside, and of the weights. -/
structure Holds (floats : HostFloats) (program : CompiledProgram) (graphInputs : Values String) (external : List Register)
    (weights : Table String (List I18)) (base : List (List I18)) (bound : AssemblerProgram) : Prop where
  inputValues : List.Forall₂ (fun register values => readGlobal floats program graphInputs base register = some values) external
    bound.inputValues
  weightValues : bound.weightValues = weights.map Prod.snd
  made : ∀ entry ∈ weights, weightAsI18 floats program entry.1 = .ok entry.2
  inputs_lt : external.length < 2 ^ 64
  weights_lt : weights.length < 2 ^ 64

theorem Resolves.reads {global : ℕ} (h : Resolves range external global weights register ref)
    (hholds : Holds floats program graphInputs external weights base local_) (hbase : base.length = range.start)
    (hglobal : global < 2 ^ 64) (done : List (List I18)) :
    readGlobal floats program graphInputs (base ++ done) register = readLocal local_ done ref := by
  cases h with
  | @external register i hout hi =>
      obtain ⟨hlt, hget⟩ := List.getElem?_eq_some_iff.mp hi
      have hlt' : i < local_.inputValues.length := hholds.inputValues.length_eq ▸ hlt
      have hread := List.forall₂_iff_get.mp hholds.inputValues |>.2 i hlt hlt'
      rw [List.get_eq_getElem, List.get_eq_getElem, hget] at hread
      rw [readGlobal_append done hread, readLocal, toNat_ofNat (hlt.trans hholds.inputs_lt), List.getElem?_eq_getElem hlt']
  | @weight name values i hi =>
      have hlt := (List.getElem?_eq_some_iff.mp hi).1
      rw [readGlobal, hholds.made _ (List.mem_of_getElem? hi), readLocal, toNat_ofNat (hlt.trans hholds.weights_lt), hholds.weightValues,
        List.getElem?_map, hi]
      rfl
  | @virtual source hstart hlt =>
      rw [readGlobal, List.getElem?_append_right (hbase ▸ hstart), hbase, readLocal, toNat_ofNat (by omega)]

theorem Lowers.renames {entry : CompiledInstruction × ℕ} {instr : AssemblerInstruction}
    (h : Lowers range external weights entry instr) (hholds : Holds floats program graphInputs external weights base local_)
    (hbase : base.length = range.start) (hglobal : entry.2 < 2 ^ 64) :
    Renames (readGlobal floats program graphInputs) (readLocal local_) base (globalLine entry.1) (localLine instr) where
  op := h.1.symm
  reads := h.2.imp fun _ _ hres done => hres.reads hholds hbase hglobal done

end Reading

section Binding

/-- What the binder finds on its way. -/
structure Parts where
  planned : PlannedShard
  dagShard : Shard
  external : List Register
  inputs : List (List I18 × BoundaryDescriptor)
  weights : Table String (List I18)
  instructions : List AssemblerInstruction
  outputs : List BoundaryDescriptor

def Parts.assembler (parts : Parts) : AssemblerProgram :=
  ⟨parts.instructions, parts.inputs.map Prod.fst, parts.weights.map Prod.snd⟩

def Parts.bound (parts : Parts) (plan : PartitionPlan) : BoundShardProgram where
  assemblerProgram := parts.assembler
  inputBoundaries := parts.inputs.map Prod.snd
  outputBoundaries := parts.outputs
  globalToLocal := (List.range' parts.planned.range.start (parts.planned.range.stop - parts.planned.range.start)).zipIdx
  weightNames := parts.weights.map Prod.fst
  partitionPlanDigest := plan.digest
  shardId := parts.planned.id
  shardName := parts.planned.name
  shardRange := parts.planned.range

variable (floats : HostFloats) (blake3 : Blake3) (program : CompiledProgram) (plan : PartitionPlan) (shardId : ℕ)
  (modelDigest : Digest32) (layout : BoundaryLayout) (graphInputs : Values String) (incoming : Values Register)

/-- The conditions under which the binder returns what it has found. -/
structure Binds (parts : Parts) : Prop where
  backward : ∀ i p, ReadsOutput program i p → p < i
  model : modelDigest = plan.modelDigest
  snapshot : MatchesProgram plan program
  layoutDigest : plan.boundaryLayoutDigest = some (layout.digest blake3)
  planned : plan.shards[shardId]? = some parts.planned
  shard : plan.dag.shards[shardId]? = some parts.dagShard
  same : parts.planned.id = shardId ∧ parts.dagShard.id = shardId ∧ parts.planned.range = parts.dagShard.range ∧
    parts.planned.name = parts.dagShard.name
  dag : buildDag program (specsOf plan) = .ok plan.dag
  supplied : ∀ r, r ∈ incoming ↔ r ∈ parts.dagShard.inputs
  range : parts.planned.range.start ≤ parts.planned.range.stop ∧ parts.planned.range.stop ≤ program.instructions.length
  external : externals parts.dagShard.inputs parts.planned.range program = .ok parts.external
  inputs : parts.external.mapM (bindInput plan.dag shardId layout graphInputs incoming) = .ok parts.inputs
  lowered : thread (lowerInstruction floats program parts.planned.range parts.external) [] (numbered program parts.planned.range) =
    .ok (parts.weights, parts.instructions)
  graphOutputs : ∀ output ∈ program.graphOutputs, checkGraphOutput program output = .ok ()
  outputs : (outputRegisters program parts.planned.range parts.dagShard).mapM (bindOutput program plan.dag shardId layout) =
    .ok parts.outputs

variable {floats blake3 program plan shardId modelDigest layout graphInputs incoming}

theorem bindShardProgram_ok {bound : BoundShardProgram} :
    bindShardProgram floats blake3 program plan shardId modelDigest layout graphInputs incoming = .ok bound ↔
      ∃ parts, Binds floats blake3 program plan shardId modelDigest layout graphInputs incoming parts ∧ parts.bound plan = bound := by
  unfold bindShardProgram
  simp only [bind_eq_ok, refuseIf_ok, not_or, not_not, not_lt, ne_eq]
  constructor
  · rintro ⟨_, hbackward, _, ⟨hmodel, hsnapshot⟩, _, hlayout, ⟨planned, dagShard⟩, hplanned, _, hdag, _, hincoming, _, hrange,
      external, hexternal, inputs, hinputs, ⟨weights, instructions⟩, hlowered, _, hgraph, outputs, houtputs, h⟩
    obtain ⟨hplanned, hshard, hsame⟩ := plannedShard_ok.mp hplanned
    refine ⟨⟨planned, dagShard, external, inputs, weights, instructions, outputs⟩, ?_, Except.ok.inj h⟩
    exact ⟨checkBackward_ok.mp hbackward, hmodel, hsnapshot, hlayout, hplanned, hshard, hsame, checkDag_ok.mp hdag,
      checkIncoming_ok.mp hincoming, hrange, hexternal, hinputs, hlowered, forM_ok.mp hgraph, houtputs⟩
  · rintro ⟨parts, h, rfl⟩
    exact ⟨(), checkBackward_ok.mpr h.backward, (), ⟨h.model, h.snapshot⟩, (), h.layoutDigest, (parts.planned, parts.dagShard),
      plannedShard_ok.mpr ⟨h.planned, h.shard, h.same⟩, (), checkDag_ok.mpr h.dag, (), checkIncoming_ok.mpr h.supplied, (), h.range,
      parts.external, h.external, parts.inputs, h.inputs, (parts.weights, parts.instructions), h.lowered, (),
      forM_ok.mpr h.graphOutputs, parts.outputs, h.outputs, rfl⟩

/-- The program's counts are machine integers. -/
structure Machine (program : CompiledProgram) : Prop where
  instructions : program.instructions.length < 2 ^ 64
  operands : (program.instructions.flatMap (·.inputs)).length < 2 ^ 64
  graphInputs : program.graphInputs.length < 2 ^ 64

theorem readsOf_sublist (range : Range) : (readsOf program range).Sublist (program.instructions.flatMap (·.inputs)) := by
  have hreads : readsOf program range = (slice program.instructions range.start range.stop).flatMap (·.inputs) := by
    rw [readsOf, numbered, ← List.zipIdx_map_fst range.start (slice program.instructions range.start range.stop),
      List.flatMap_map, List.zipIdx_map_fst]
  rw [hreads]
  exact ((List.drop_sublist _ _).trans (List.take_sublist _ _)).flatMap _

theorem externalValues_ok {register : Register} {values : List I18} : externalValues graphInputs incoming register = .ok values ↔
    (∃ name, register = .graphInput name ∧ graphInputs[name]? = some values) ∨
      (∃ p, register = .virtual p ∧ incoming[Register.virtual p]? = some values) := by
  cases register with
  | graphInput name => simp [externalValues, orElse_eq_ok]
  | virtual p => simp [externalValues, orElse_eq_ok]
  | weight name => simp [externalValues]

theorem bindInput_ok {dag : Dag} {register : Register} {entry : List I18 × BoundaryDescriptor} :
    bindInput dag shardId layout graphInputs incoming register = .ok entry ↔
      ∃ spec, BoundaryLayout.get layout register = .ok spec ∧ externalValues graphInputs incoming register = .ok entry.1 ∧
        entry.1.length = spec.elementCount ∧ entry.2 = descriptor dag shardId register spec.elementCount false := by
  simp only [bindInput, bind_eq_ok, refuseIf_ok, ne_eq, not_not]
  constructor
  · rintro ⟨spec, hspec, values, hvalues, _, hlength, h⟩
    cases h
    exact ⟨spec, hspec, hvalues, hlength, rfl⟩
  · rintro ⟨spec, hspec, hvalues, hlength, hdescriptor⟩
    exact ⟨spec, hspec, entry.1, hvalues, (), hlength, by rw [← hdescriptor]; rfl⟩

variable {parts : Parts} {base : List (List I18)}

variable (floats program graphInputs) in
/-- The registers have the values of the run so far. -/
def Agrees (known : Values Register) (base : List (List I18)) : Prop :=
  ∀ (r : Register) (values : List I18), known[r]? = some values → readGlobal floats program graphInputs base r = some values

theorem Binds.stocked (h : Binds floats blake3 program plan shardId modelDigest layout graphInputs incoming parts) :
    Stocked (makeWeight floats program) (readsOf program parts.planned.range) parts.weights := (lowered_ok h.lowered).1

theorem Binds.holds (h : Binds floats blake3 program plan shardId modelDigest layout graphInputs incoming parts)
    (hmachine : Machine program) (hagrees : Agrees floats program graphInputs incoming base) :
    Holds floats program graphInputs parts.external parts.weights base parts.assembler where
  inputValues := by
    rw [Parts.assembler, List.forall₂_map_right_iff]
    apply (mapM_eq_ok.mp h.inputs).imp
    intro register entry hbind
    obtain ⟨_, -, hvalues, -⟩ := bindInput_ok.mp hbind
    rcases externalValues_ok.mp hvalues with ⟨name, rfl, hname⟩ | ⟨p, rfl, hp⟩
    · exact hname
    · exact hagrees _ _ hp
  weightValues := rfl
  made entry hentry := FixedPoint.mapError_eq_ok.mp (h.stocked.made entry hentry)
  inputs_lt := by
    obtain ⟨hnodup, hmem⟩ := externals_mem h.external
    have hle := (hnodup.subperm fun r hr => ((hmem r).mp hr).1).length_le
    exact (hle.trans (readsOf_sublist _).length_le).trans_lt hmachine.operands
  weights_lt := (h.stocked.length_le.trans (readsOf_sublist _).length_le).trans_lt hmachine.operands

theorem numbered_lt {range : Range} (hstart : range.start ≤ range.stop) (hstop : range.stop ≤ program.instructions.length)
    {entry : CompiledInstruction × ℕ} (hentry : entry ∈ numbered program range) : entry.2 < program.instructions.length := by
  have hlt := (List.mem_zipIdx hentry).2.1
  rw [slice, List.length_drop, List.length_take] at hlt
  omega

theorem Binds.renames (h : Binds floats blake3 program plan shardId modelDigest layout graphInputs incoming parts)
    (hmachine : Machine program) (hbase : base.length = parts.planned.range.start)
    (hagrees : Agrees floats program graphInputs incoming base) :
    List.Forall₂ (Renames (readGlobal floats program graphInputs) (readLocal parts.assembler) base)
      ((slice program.instructions parts.planned.range.start parts.planned.range.stop).map globalLine)
      (parts.instructions.map localLine) := by
  have hlines : (slice program.instructions parts.planned.range.start parts.planned.range.stop).map globalLine =
      (numbered program parts.planned.range).map fun entry => globalLine entry.1 := by
    rw [← Function.comp_def globalLine Prod.fst, ← List.map_map, numbered, List.zipIdx_map_fst]
  rw [hlines, List.forall₂_map_left_iff, List.forall₂_map_right_iff]
  have hlt : ∀ entry ∈ numbered program parts.planned.range, entry.2 < program.instructions.length :=
    fun _ => numbered_lt h.range.1 h.range.2
  apply ((List.forall₂_and_left _ _).mpr ⟨hlt, (lowered_ok h.lowered).2⟩).imp
  rintro entry instr ⟨hlt, hlowers⟩
  exact hlowers.renames (h.holds hmachine hagrees) hbase (hlt.trans hmachine.instructions)

/-- The values of all instructions of an assembler program. -/
def evaluateAssembler (interpret : Instruction → List (List I18) → Option (List I18)) (assembler : AssemblerProgram) :
    Option (List (List I18)) :=
  StraightLine.run interpret (readLocal assembler) [] (assembler.instructions.map localLine)

/-- A bound shard evaluates its part of the program, from the registers that it was given. -/
theorem Binds.evaluates (h : Binds floats blake3 program plan shardId modelDigest layout graphInputs incoming parts)
    (hmachine : Machine program) (hbase : base.length = parts.planned.range.start)
    (hagrees : Agrees floats program graphInputs incoming base)
    (interpret : Instruction → List (List I18) → Option (List I18)) :
    StraightLine.run interpret (readGlobal floats program graphInputs) base
        ((slice program.instructions parts.planned.range.start parts.planned.range.stop).map globalLine) =
      (evaluateAssembler interpret parts.assembler).map (base ++ ·) := by
  have hrun := @StraightLine.run_renamed _ _ _ _ interpret _ _ _ _ _ (h.renames hmachine hbase hagrees) []
  rwa [List.append_nil] at hrun

end Binding

end Zkie.ShardBinding
