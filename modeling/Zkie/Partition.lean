import Zkie.BuildDag
import Zkie.LittleEndian
import Zkie.PoseidonBoundary
import Zkie.RunDatabase

namespace Zkie.Partition

open Checked GraphCompiler Onnx RangeChain BuildDag
open LineText (decimal)
open LittleEndian (toBytes)
open PoseidonBoundary (Blake3 utf8)
open RunDatabase (Digest32)

section Model

structure InstructionEstimate where
  ramBytes : UInt64
  requiredK : UInt32
  deriving DecidableEq, Repr

structure ShardEstimate where
  ramBytes : UInt64
  requiredK : UInt32
  deriving DecidableEq, Repr

/-- The errors; the last one stands for a panic. -/
inductive PartitionError where
  | zeroBudget
  | emptyProgram
  | emptyPartition
  | invalidRequest (message : String)
  | invalidHint (message : String)
  | estimateOverflow
  | unsplittableInstruction (instruction : ℕ) (estimate : InstructionEstimate)
  | invalidVirtualReference (consumerInstruction : ℕ) (register : Register)
  | dag (message : String)
  | inconsistentDag (message : String)
  | panicked
  deriving DecidableEq, Repr

/-- A cost model without state. -/
structure InstructionCostModel where
  identity : String
  version : UInt32
  estimateInstruction : CompiledInstruction → Except PartitionError InstructionEstimate
  estimateShard : List CompiledInstruction → Except PartitionError ShardEstimate

structure BoundaryHint where
  boundary : ℕ
  priority : UInt32
  label : String
  boundary_ne : boundary ≠ 0
  label_ne : label ≠ ""

def BoundaryHint.new (boundary : ℕ) (priority : UInt32) (label : String) : Except PartitionError BoundaryHint :=
  if h : boundary = 0 ∨ label = "" then
    .error (.invalidHint "hint boundary must be nonzero and label nonempty")
  else .ok ⟨boundary, priority, label, fun hb => h (.inl hb), fun hl => h (.inr hl)⟩

structure PartitionRequest where
  targetShardRamBytes : UInt64
  maxK : UInt32
  modelDigest : Digest32
  compilerVersion : String
  costModel : InstructionCostModel
  boundaryHints : List BoundaryHint
  boundaryLayoutDigest : Option Digest32
  target_ne : targetShardRamBytes ≠ 0
  maxK_ne : maxK ≠ 0
  version_ne : compilerVersion ≠ ""
  hints_nodup : (boundaryHints.map (·.boundary)).Nodup

def PartitionRequest.new (targetShardRamBytes : UInt64) (maxK : UInt32) (modelDigest : Digest32)
    (compilerVersion : String) (costModel : InstructionCostModel) : Except PartitionError PartitionRequest :=
  if hbudget : targetShardRamBytes = 0 ∨ maxK = 0 then .error .zeroBudget
  else if hversion : compilerVersion = "" then .error (.invalidRequest "compiler version must be nonempty")
  else .ok ⟨targetShardRamBytes, maxK, modelDigest, compilerVersion, costModel, [], none, fun h => hbudget (.inl h),
    fun h => hbudget (.inr h), hversion, List.nodup_nil⟩

def hintOrder (hint : BoundaryHint) : ℕ ×ₗ String := toLex (hint.boundary, hint.label)

def PartitionRequest.withBoundaryHints (request : PartitionRequest) (hints : List BoundaryHint) :
    Except PartitionError PartitionRequest :=
  if h : (hints.map (·.boundary)).Nodup then
    .ok { request with
      boundaryHints := hints.insertionSort (hintOrder · ≤ hintOrder ·)
      hints_nodup := ((List.perm_insertionSort _ hints).map _).nodup_iff.mpr h }
  else .error (.invalidHint "duplicate hint boundary")

def PartitionRequest.withBoundaryLayoutDigest (request : PartitionRequest) (digest : Digest32) : PartitionRequest :=
  { request with boundaryLayoutDigest := some digest }

structure PlannedShard where
  id : ℕ
  name : String
  range : Range
  estimate : ShardEstimate
  instructionEstimates : List InstructionEstimate
  deriving DecidableEq, Repr

structure PartitionPlan where
  shards : List PlannedShard
  dag : Dag
  modelDigest : Digest32
  boundaryLayoutDigest : Option Digest32
  digest : Digest32
  programSnapshot : CompiledProgram

/-- The elements from `start` up to, but not including, `stop`. -/
def slice {α : Type} (xs : List α) (start stop : ℕ) : List α := (xs.take stop).drop start

def checkedAdd (sum : UInt64) (estimate : InstructionEstimate) : Except PartitionError UInt64 :=
  if sum.toNat + estimate.ramBytes.toNat < 2 ^ 64 then .ok (sum + estimate.ramBytes) else .error .estimateOverflow

def rangeExceeds (instructions : List InstructionEstimate) (shard : ShardEstimate) (request : PartitionRequest) :
    Except PartitionError Bool := do
  let instructionRam ← instructions.foldlM checkedAdd 0
  let instructionK := (instructions.map (·.requiredK.toNat)).max?.getD 0
  return decide (request.targetShardRamBytes < instructionRam ∨ request.maxK.toNat < instructionK ∨
    request.targetShardRamBytes < shard.ramBytes ∨ request.maxK < shard.requiredK)

/-- The order of preference; of two hints with the same key, which are the same hint, either may be taken. -/
def preference (hint : BoundaryHint) : ℕ ×ₗ ℕ ×ₗ Stringᵒᵈ :=
  toLex (hint.priority.toNat, toLex (hint.boundary, OrderDual.toDual hint.label))

def bestHint (hints : List BoundaryHint) (start stop : ℕ) : Option BoundaryHint :=
  (hints.filter fun hint => start < hint.boundary ∧ hint.boundary ≤ stop).argmax preference

def validateReference (consumer : ℕ) : Register → Except PartitionError Unit
  | .virtual producer =>
      if consumer ≤ producer then .error (.invalidVirtualReference consumer (.virtual producer)) else .ok ()
  | .graphInput _ => .ok ()
  | .weight _ => .ok ()

def validateVirtualReferences (program : CompiledProgram) : Except PartitionError Unit :=
  program.instructions.zipIdx.forM fun entry => entry.1.inputs.forM (validateReference entry.2)

def mapDagError : BuildDagError → PartitionError
  | .unknownRegister consumerInstruction register => .invalidVirtualReference consumerInstruction register
  | .forwardRegister consumerInstruction register => .invalidVirtualReference consumerInstruction register
  | .noShards => .dag "no shard specs provided"
  | .notContiguous expectedStart gotStart shardIndex =>
      .dag s!"shard {shardIndex} starts at {gotStart}, expected {expectedStart} (specs must exactly and contiguously cover every instruction)"
  | .panicked => .panicked

section Loops

variable (program : CompiledProgram) (request : PartitionRequest) (estimates : List InstructionEstimate) (start : ℕ)

/-- The range is extended by one instruction after the other, until the next one would exceed a budget. -/
def extend (stop : ℕ) (accepted : List (ℕ × ShardEstimate)) : Except PartitionError (ℕ × List (ℕ × ShardEstimate)) :=
  if stop < program.instructions.length then do
    let candidate ← request.costModel.estimateShard (slice program.instructions start (stop + 1))
    let exceeds ← rangeExceeds (slice estimates start (stop + 1)) candidate request
    if exceeds then return (stop, accepted) else extend (stop + 1) (accepted ++ [(stop + 1, candidate)])
  else return (stop, accepted)
termination_by program.instructions.length - stop

/-- A range that does not reach the end of the program is pulled back to a hint. -/
def pullBack (stop : ℕ) : ℕ :=
  if stop < program.instructions.length then
    match bestHint request.boundaryHints start stop with
    | some hint => hint.boundary
    | none => stop
  else stop

def unsplittable : PartitionError :=
  match estimates[start]? with
  | some estimate => .unsplittableInstruction start estimate
  | none => .panicked

/-- The end of the shard that begins at `start`, with the estimates of all the ends that were accepted. -/
def chooseEnd : Except PartitionError (ℕ × List (ℕ × ShardEstimate)) := do
  let single ← request.costModel.estimateShard (slice program.instructions start (start + 1))
  let exceeds ← rangeExceeds (slice estimates start (start + 1)) single request
  if exceeds then throw (unsplittable estimates start)
  else do
    let (stop, accepted) ← extend program request estimates start (start + 1) [(start + 1, single)]
    return (pullBack program request start stop, accepted)

def planRanges (start : ℕ) (ranges : List (Range × ShardEstimate)) : Except PartitionError (List (Range × ShardEstimate)) :=
  if start < program.instructions.length then do
    let (stop, accepted) ← chooseEnd program request estimates start
    if stop ≤ start then throw .emptyPartition
    else
      match accepted.find? (·.1 = stop) with
      | some (_, estimate) => planRanges stop (ranges ++ [(⟨start, stop⟩, estimate)])
      | none => throw (.inconsistentDag "selected boundary lacks an accepted estimate")
  else return ranges
termination_by program.instructions.length - start

end Loops

def validateDag (dag : Dag) (instructionCount : ℕ) : Except PartitionError Unit :=
  let covered := (dag.shards.map fun shard => shard.range.stop - shard.range.start).sum
  if covered ≠ instructionCount ∨ ∃ edge ∈ dag.edges, edge.consumer ≤ edge.producer ∨ dag.shards.length ≤ edge.consumer then
    .error (.inconsistentDag "derived DAG coverage or direction is invalid")
  else .ok ()

def encodeU64 (value : ℕ) : List UInt8 := toBytes 8 value

def encodeU32 (value : UInt32) : List UInt8 := toBytes 4 value.toNat

def encodeText (value : String) : List UInt8 := encodeU64 value.utf8ByteSize ++ utf8 value

def encodeRegister : Register → List UInt8
  | .graphInput name => 0 :: encodeText name
  | .weight name => 1 :: encodeText name
  | .virtual index => 2 :: encodeU64 index

def encodeHint (hint : BoundaryHint) : List UInt8 :=
  encodeU64 hint.boundary ++ encodeU32 hint.priority ++ encodeText hint.label

def encodeInstructionEstimate (estimate : InstructionEstimate) : List UInt8 :=
  encodeU64 estimate.ramBytes.toNat ++ encodeU32 estimate.requiredK

def encodeEstimate (estimate : ShardEstimate) : List UInt8 :=
  encodeU64 estimate.ramBytes.toNat ++ encodeU32 estimate.requiredK

def encodeShard (shard : PlannedShard) : List UInt8 :=
  encodeU64 shard.id ++ encodeText shard.name ++ encodeU64 shard.range.start ++ encodeU64 shard.range.stop ++
    encodeEstimate shard.estimate ++ encodeU64 shard.instructionEstimates.length ++
    shard.instructionEstimates.flatMap encodeInstructionEstimate

def encodeKind : EdgeKind → UInt8
  | .sequential => 0
  | .broadcast => 1

def encodeEdge (edge : Edge) : List UInt8 :=
  encodeText (String.ofList edge.id) ++ encodeU64 edge.producer ++ encodeU64 edge.consumer ++
    encodeRegister edge.register ++ [encodeKind edge.kind]

def encodeLayout : Option Digest32 → List UInt8
  | some digest => 1 :: digest.bytes.toList
  | none => [0]

def planDigest (blake3 : Blake3) (request : PartitionRequest) (shards : List PlannedShard) (dag : Dag) : Digest32 :=
  ⟨blake3 (utf8 "zkie.partition-plan.v1\x00" ++ request.modelDigest.bytes.toList ++ encodeText request.compilerVersion ++
    encodeU64 request.targetShardRamBytes.toNat ++ encodeU32 request.maxK ++ encodeText request.costModel.identity ++
    encodeU32 request.costModel.version ++ encodeLayout request.boundaryLayoutDigest ++
    encodeU64 request.boundaryHints.length ++ request.boundaryHints.flatMap encodeHint ++
    encodeU64 shards.length ++ shards.flatMap encodeShard ++
    encodeU64 dag.edges.length ++ (dag.edges.insertionSort (·.id ≤ ·.id)).flatMap encodeEdge)⟩

def shardName (id : ℕ) : String := s!"shard-{id}"

def specsOf (ranges : List (Range × ShardEstimate)) : List ShardSpec :=
  ranges.zipIdx.map fun entry => ⟨shardName entry.2, entry.1.1⟩

def shardsOf (estimates : List InstructionEstimate) (ranges : List (Range × ShardEstimate)) : List PlannedShard :=
  ranges.zipIdx.map fun entry =>
    ⟨entry.2, shardName entry.2, entry.1.1, entry.1.2, slice estimates entry.1.1.start entry.1.1.stop⟩

def plan (blake3 : Blake3) (program : CompiledProgram) (request : PartitionRequest) : Except PartitionError PartitionPlan :=
  if program.instructions = [] then .error .emptyProgram
  else do
    validateVirtualReferences program
    if request.costModel.identity = "" then throw (.invalidRequest "cost model identity must be nonempty")
    else if ∃ hint ∈ request.boundaryHints, program.instructions.length ≤ hint.boundary then
      throw (.invalidHint "hint boundary is outside the program")
    else do
      let estimates ← program.instructions.mapM request.costModel.estimateInstruction
      let ranges ← planRanges program request estimates 0 []
      let dag ← (buildDag program (specsOf ranges)).mapError mapDagError
      validateDag dag program.instructions.length
      let shards := shardsOf estimates ranges
      if shards = [] then throw .emptyPartition
      else
        return ⟨shards, dag, request.modelDigest, request.boundaryLayoutDigest, planDigest blake3 request shards dag, program⟩

end Model

section Budget

variable {program : CompiledProgram} {request : PartitionRequest}

theorem slice_forall₂ {α β : Type} {R : α → β → Prop} {xs : List α} {ys : List β} (h : List.Forall₂ R xs ys)
    (start stop : ℕ) : List.Forall₂ R (slice xs start stop) (slice ys start stop) :=
  List.forall₂_drop start (List.forall₂_take stop h)

def ramSum (estimates : List InstructionEstimate) : ℕ := (estimates.map (·.ramBytes.toNat)).sum

structure WithinBudget (request : PartitionRequest) (estimates : List InstructionEstimate) (shard : ShardEstimate) : Prop where
  instructionRam : ramSum estimates ≤ request.targetShardRamBytes.toNat
  instructionK : ∀ estimate ∈ estimates, estimate.requiredK ≤ request.maxK
  shardRam : shard.ramBytes ≤ request.targetShardRamBytes
  shardK : shard.requiredK ≤ request.maxK

theorem foldlM_checkedAdd {estimates : List InstructionEstimate} {sum total : UInt64}
    (h : estimates.foldlM checkedAdd sum = .ok total) : total.toNat = sum.toNat + ramSum estimates := by
  induction estimates generalizing sum with
  | nil =>
      cases h
      rfl
  | cons estimate estimates ih =>
      rw [List.foldlM_cons] at h
      obtain ⟨sum', hstep, hrest⟩ := bind_eq_ok.mp h
      unfold checkedAdd at hstep
      split at hstep
      · rename_i hlt
        cases hstep
        rw [ih hrest, UInt64.toNat_add, Nat.mod_eq_of_lt hlt, ramSum, ramSum, List.map_cons, List.sum_cons, Nat.add_assoc]
      · cases hstep

theorem max_le_iff {estimates : List InstructionEstimate} {k : ℕ} :
    (estimates.map (·.requiredK.toNat)).max?.getD 0 ≤ k ↔ ∀ estimate ∈ estimates, estimate.requiredK.toNat ≤ k := by
  cases hmax : (estimates.map (·.requiredK.toNat)).max? with
  | none =>
      rw [List.max?_eq_none_iff, List.map_eq_nil_iff] at hmax
      simp [hmax]
  | some m =>
      rw [Option.getD_some, List.max?_le_iff hmax]
      simp

theorem rangeExceeds_ok {estimates : List InstructionEstimate} {shard : ShardEstimate} {b : Bool}
    (h : rangeExceeds estimates shard request = .ok b) : b = true ↔ ¬WithinBudget request estimates shard := by
  obtain ⟨total, hsum, hpure⟩ := bind_eq_ok.mp h
  cases hpure
  have htotal := foldlM_checkedAdd hsum
  rw [UInt64.toNat_zero, Nat.zero_add] at htotal
  rw [decide_eq_true_iff, ← not_iff_not, not_not]
  simp only [not_or, not_lt, UInt64.not_lt, UInt32.not_lt, max_le_iff, ← UInt32.le_iff_toNat_le]
  rw [UInt64.le_iff_toNat_le, htotal]
  constructor
  · rintro ⟨hram, hk, hshardRam, hshardK⟩
    exact ⟨hram, hk, hshardRam, hshardK⟩
  · intro hwithin
    exact ⟨hwithin.1, hwithin.2, hwithin.3, hwithin.4⟩

/-- The instructions from `start` to `stop` can be a shard, which the cost model estimates as `shard`. -/
def Fits (program : CompiledProgram) (request : PartitionRequest) (start stop : ℕ) (shard : ShardEstimate) : Prop :=
  ∃ estimates, (slice program.instructions start stop).mapM request.costModel.estimateInstruction = .ok estimates ∧
    request.costModel.estimateShard (slice program.instructions start stop) = .ok shard ∧
    WithinBudget request estimates shard

def ExceedsBudget (program : CompiledProgram) (request : PartitionRequest) (start stop : ℕ) : Prop :=
  ∃ estimates shard,
    (slice program.instructions start stop).mapM request.costModel.estimateInstruction = .ok estimates ∧
    request.costModel.estimateShard (slice program.instructions start stop) = .ok shard ∧
    ¬WithinBudget request estimates shard

/-- Every extension of the range up to `stop` fits. -/
def CanReach (program : CompiledProgram) (request : PartitionRequest) (start stop : ℕ) : Prop :=
  ∀ b, start < b → b ≤ stop → ∃ shard, Fits program request start b shard

/-- What one check of a range says. -/
theorem check_ok {estimates : List InstructionEstimate} {start stop : ℕ} {shard : ShardEstimate} {b : Bool}
    (hestimates : program.instructions.mapM request.costModel.estimateInstruction = .ok estimates)
    (hshard : request.costModel.estimateShard (slice program.instructions start stop) = .ok shard)
    (hcheck : rangeExceeds (slice estimates start stop) shard request = .ok b) :
    (b = false → Fits program request start stop shard) ∧ (b = true → ExceedsBudget program request start stop) := by
  have hslice := mapM_eq_ok.mpr (slice_forall₂ (mapM_eq_ok.mp hestimates) start stop)
  have hwithin := rangeExceeds_ok hcheck
  constructor
  · rintro rfl
    exact ⟨_, hslice, hshard, by simpa using hwithin⟩
  · rintro rfl
    exact ⟨_, _, hslice, hshard, hwithin.mp rfl⟩

end Budget

section Greedy

variable {program : CompiledProgram} {request : PartitionRequest} {estimates : List InstructionEstimate} {start : ℕ}

/-- The accepted ends are those up to `stop`, and all of them fit. -/
structure Reached (program : CompiledProgram) (request : PartitionRequest) (start stop : ℕ)
    (accepted : List (ℕ × ShardEstimate)) : Prop where
  advance : start < stop
  bound : stop ≤ program.instructions.length
  fits : ∀ b shard, (b, shard) ∈ accepted → Fits program request start b shard
  all : ∀ b, start < b → b ≤ stop → ∃ shard, (b, shard) ∈ accepted

theorem Reached.single {shard : ShardEstimate} (hlt : start < program.instructions.length)
    (hfits : Fits program request start (start + 1) shard) :
    Reached program request start (start + 1) [(start + 1, shard)] := by
  refine ⟨Nat.lt_succ_self start, hlt, fun b shard' hmem => ?_, fun b hadvance hle => ?_⟩
  · cases List.mem_singleton.mp hmem
    exact hfits
  · obtain rfl : b = start + 1 := by omega
    exact ⟨shard, List.mem_singleton_self _⟩

theorem Reached.canReach {stop b : ℕ} {accepted : List (ℕ × ShardEstimate)} (h : Reached program request start stop accepted)
    (hb : b ≤ stop) : CanReach program request start b := by
  intro b' hlt hle
  obtain ⟨shard, hmem⟩ := h.all b' hlt (hle.trans hb)
  exact ⟨shard, h.fits b' shard hmem⟩

/-- The estimate of an accepted end is found. -/
theorem Reached.find {stop b : ℕ} {accepted : List (ℕ × ShardEstimate)} (h : Reached program request start stop accepted)
    (hlt : start < b) (hle : b ≤ stop) :
    ∃ shard, accepted.find? (·.1 = b) = some (b, shard) ∧ Fits program request start b shard := by
  obtain ⟨shard, hmem⟩ := h.all b hlt hle
  have hsome : (accepted.find? (·.1 = b)).isSome := by
    rw [List.find?_isSome]
    exact ⟨(b, shard), hmem, decide_eq_true rfl⟩
  obtain ⟨⟨b', shard'⟩, hfind⟩ := Option.isSome_iff_exists.mp hsome
  have heq := List.find?_some hfind
  obtain rfl : b' = b := of_decide_eq_true heq
  exact ⟨shard', hfind, h.fits b' shard' (List.mem_of_find?_eq_some hfind)⟩

theorem Reached.push {stop : ℕ} {accepted : List (ℕ × ShardEstimate)} {shard : ShardEstimate}
    (h : Reached program request start stop accepted) (hlt : stop < program.instructions.length)
    (hfits : Fits program request start (stop + 1) shard) :
    Reached program request start (stop + 1) (accepted ++ [(stop + 1, shard)]) where
  advance := Nat.lt_succ_of_lt h.advance
  bound := hlt
  fits b shard' hmem := by
    rcases List.mem_append.mp hmem with hmem | hmem
    · exact h.fits b shard' hmem
    · cases List.mem_singleton.mp hmem
      exact hfits
  all b hstart hstop := by
    rcases Nat.lt_or_eq_of_le hstop with hstop | rfl
    · obtain ⟨shard', hmem⟩ := h.all b hstart (Nat.le_of_lt_succ hstop)
      exact ⟨shard', List.mem_append_left _ hmem⟩
    · exact ⟨shard, List.mem_append_right _ (List.mem_singleton_self _)⟩

/-- The extension stops at the end of the program or where the next instruction would exceed a budget. -/
theorem extend_ok {stop stop' : ℕ} {accepted accepted' : List (ℕ × ShardEstimate)}
    (hestimates : program.instructions.mapM request.costModel.estimateInstruction = .ok estimates)
    (h : extend program request estimates start stop accepted = .ok (stop', accepted'))
    (hreached : Reached program request start stop accepted) :
    Reached program request start stop' accepted' ∧
      (stop' < program.instructions.length → ExceedsBudget program request start (stop' + 1)) := by
  fun_induction extend program request estimates start stop accepted with
  | case1 stop accepted hlt ih =>
      obtain ⟨candidate, hcandidate, h⟩ := bind_eq_ok.mp h
      obtain ⟨exceeds, hexceeds, h⟩ := bind_eq_ok.mp h
      have hcheck := check_ok hestimates hcandidate hexceeds
      cases exceeds with
      | true =>
          cases h
          exact ⟨hreached, fun _ => hcheck.2 rfl⟩
      | false => exact ih candidate h (hreached.push hlt (hcheck.1 rfl))
  | case2 stop accepted hge =>
      cases h
      exact ⟨hreached, fun hlt => absurd hlt hge⟩

theorem ExceedsBudget.not_fits {stop : ℕ} {shard : ShardEstimate} (h : ExceedsBudget program request start stop) :
    ¬Fits program request start stop shard := by
  obtain ⟨estimates, shard', hestimates, hshard, hover⟩ := h
  rintro ⟨estimates', hestimates', hshard', hwithin⟩
  rw [hestimates] at hestimates'
  rw [hshard] at hshard'
  cases hestimates'
  cases hshard'
  exact hover hwithin

/-- A hint at which a shard that begins at `start` can end. -/
structure Reachable (program : CompiledProgram) (request : PartitionRequest) (start : ℕ) (hint : BoundaryHint) : Prop where
  mem : hint ∈ request.boundaryHints
  advance : start < hint.boundary
  canReach : CanReach program request start hint.boundary

/-- Higher priority, then later position. -/
def rank (hint : BoundaryHint) : ℕ ×ₗ ℕ := toLex (hint.priority.toNat, hint.boundary)

/-- Where a shard that begins at `start` is cut. -/
inductive Cut (program : CompiledProgram) (request : PartitionRequest) (start stop : ℕ) : Prop where
  | last (heq : stop = program.instructions.length)
  | hint (hint : BoundaryHint) (hreach : Reachable program request start hint) (heq : hint.boundary = stop)
      (hbest : ∀ other, Reachable program request start other → rank other ≤ rank hint)
  | budget (hnone : ∀ hint, ¬Reachable program request start hint) (hover : ExceedsBudget program request start (stop + 1))

theorem rank_le_of_preference_le {hint other : BoundaryHint} (h : preference other ≤ preference hint) : rank other ≤ rank hint := by
  unfold preference at h
  unfold rank
  rw [Prod.Lex.toLex_le_toLex] at h ⊢
  rcases h with hpriority | ⟨hpriority, hrest⟩
  · exact .inl hpriority
  · refine .inr ⟨hpriority, ?_⟩
    rw [Prod.Lex.toLex_le_toLex] at hrest
    rcases hrest with hboundary | ⟨hboundary, -⟩
    · exact hboundary.le
    · exact hboundary.le

theorem bestHint_some {hints : List BoundaryHint} {stop : ℕ} {hint : BoundaryHint} (h : bestHint hints start stop = some hint) :
    hint ∈ hints ∧ start < hint.boundary ∧ hint.boundary ≤ stop ∧
      ∀ other ∈ hints, start < other.boundary → other.boundary ≤ stop → rank other ≤ rank hint := by
  have hmem := List.mem_filter.mp (List.argmax_mem h)
  have hbounds := of_decide_eq_true hmem.2
  refine ⟨hmem.1, hbounds.1, hbounds.2, fun other hother hlt hle => ?_⟩
  apply rank_le_of_preference_le
  exact List.le_of_mem_argmax (List.mem_filter.mpr ⟨hother, decide_eq_true ⟨hlt, hle⟩⟩) h

theorem bestHint_none {hints : List BoundaryHint} {stop : ℕ} (h : bestHint hints start stop = none) :
    ∀ hint ∈ hints, start < hint.boundary → stop < hint.boundary := by
  intro hint hhint hlt
  rw [bestHint, List.argmax_eq_none, List.filter_eq_nil_iff] at h
  have hnot := h hint hhint
  rw [decide_eq_true_iff, not_and, not_le] at hnot
  exact hnot hlt

/-- Pulling a greedy end back to a hint keeps it among the accepted ends. -/
theorem pullBack_cut {stop : ℕ} {accepted : List (ℕ × ShardEstimate)} (hreached : Reached program request start stop accepted)
    (hover : stop < program.instructions.length → ExceedsBudget program request start (stop + 1)) :
    start < pullBack program request start stop ∧ pullBack program request start stop ≤ stop ∧
      Cut program request start (pullBack program request start stop) := by
  unfold pullBack
  split
  · rename_i hlt
    have hbelow : ∀ hint, Reachable program request start hint → hint.boundary ≤ stop := by
      intro hint hreach
      by_contra hgt
      rw [not_le] at hgt
      obtain ⟨shard, hfits⟩ := hreach.canReach (stop + 1) (Nat.lt_succ_of_lt hreached.advance) hgt
      exact (hover hlt).not_fits hfits
    split
    · rename_i hint hbest
      obtain ⟨hmem, hstart, hstop, hbest⟩ := bestHint_some hbest
      refine ⟨hstart, hstop, .hint hint ⟨hmem, hstart, hreached.canReach hstop⟩ rfl ?_⟩
      intro other hother
      exact hbest other hother.mem hother.advance (hbelow other hother)
    · rename_i hnone
      refine ⟨hreached.advance, le_refl _, .budget (fun hint hreach => ?_) (hover hlt)⟩
      have hgt := bestHint_none hnone hint hreach.mem hreach.advance
      have hle := hbelow hint hreach
      omega
  · rename_i hge
    exact ⟨hreached.advance, le_refl _, .last (le_antisymm hreached.bound (not_lt.mp hge))⟩

theorem chooseEnd_ok {stop : ℕ} {accepted : List (ℕ × ShardEstimate)}
    (hestimates : program.instructions.mapM request.costModel.estimateInstruction = .ok estimates)
    (hstart : start < program.instructions.length)
    (h : chooseEnd program request estimates start = .ok (stop, accepted)) :
    start < stop ∧ (∃ reach, stop ≤ reach ∧ Reached program request start reach accepted) ∧
      Cut program request start stop := by
  obtain ⟨single, hsingle, h⟩ := bind_eq_ok.mp h
  obtain ⟨exceeds, hexceeds, h⟩ := bind_eq_ok.mp h
  have hcheck := check_ok hestimates hsingle hexceeds
  cases exceeds with
  | true => cases h
  | false =>
      obtain ⟨⟨reach, accepted'⟩, hextend, h⟩ := bind_eq_ok.mp h
      cases h
      obtain ⟨hreached, hover⟩ := extend_ok hestimates hextend (.single hstart (hcheck.1 rfl))
      obtain ⟨hadvance, hle, hcut⟩ := pullBack_cut hreached hover
      exact ⟨hadvance, ⟨reach, hle, hreached⟩, hcut⟩

end Greedy

section Run

variable {program : CompiledProgram} {request : PartitionRequest} {estimates : List InstructionEstimate}

/-- A range that is planned. -/
structure PlannedRange (program : CompiledProgram) (request : PartitionRequest) (entry : Range × ShardEstimate) : Prop where
  nonempty : entry.1.start < entry.1.stop
  fits : Fits program request entry.1.start entry.1.stop entry.2
  cut : Cut program request entry.1.start entry.1.stop

/-- The ranges planned so far are the instructions below `stop`. -/
structure PlannedTo (program : CompiledProgram) (request : PartitionRequest) (stop : ℕ)
    (ranges : List (Range × ShardEstimate)) : Prop where
  chain : Chain 0 (ranges.map Prod.fst) stop
  planned : ∀ entry ∈ ranges, PlannedRange program request entry

/-- One more shard. -/
theorem PlannedTo.push {start stop : ℕ} {ranges : List (Range × ShardEstimate)} {shard : ShardEstimate}
    (h : PlannedTo program request start ranges) (hplanned : PlannedRange program request (⟨start, stop⟩, shard)) :
    PlannedTo program request stop (ranges ++ [(⟨start, stop⟩, shard)]) where
  chain := by
    rw [List.map_append]
    exact h.chain.concat stop
  planned entry hentry := by
    rcases List.mem_append.mp hentry with hentry | hentry
    · exact h.planned entry hentry
    · cases List.mem_singleton.mp hentry
      exact hplanned

/-- Every iteration of the outer loop advances, and an accepted end has its estimate. -/
theorem planRanges_ok {start : ℕ} {ranges ranges' : List (Range × ShardEstimate)}
    (hestimates : program.instructions.mapM request.costModel.estimateInstruction = .ok estimates)
    (hbound : start ≤ program.instructions.length) (h : planRanges program request estimates start ranges = .ok ranges')
    (hplanned : PlannedTo program request start ranges) : PlannedTo program request program.instructions.length ranges' := by
  fun_induction planRanges program request estimates start ranges with
  | case1 start ranges hlt ih =>
      obtain ⟨⟨stop, accepted⟩, hchoose, h⟩ := bind_eq_ok.mp h
      obtain ⟨hadvance, ⟨reach, hreach, hreached⟩, hcut⟩ := chooseEnd_ok hestimates hlt hchoose
      simp only [if_neg (not_le.mpr hadvance)] at h
      obtain ⟨shard, hfind, hfits⟩ := hreached.find hadvance hreach
      simp only [hfind] at h
      exact ih stop (not_le.mpr hadvance) shard (hreach.trans hreached.bound) h (hplanned.push ⟨hadvance, hfits, hcut⟩)
  | case2 start ranges hge =>
      cases h
      rwa [le_antisymm (not_lt.mp hge) hbound]

/-- What a plan promises. -/
structure ValidPlan (program : CompiledProgram) (request : PartitionRequest) (plan : PartitionPlan) : Prop where
  chain : Chain 0 (plan.shards.map (·.range)) program.instructions.length
  nonempty : ∀ shard ∈ plan.shards, shard.range.start < shard.range.stop
  covered : ∀ i < program.instructions.length, CoveredOnce (plan.shards.map (·.range)) i
  ids : plan.shards.map (·.id) = List.range plan.shards.length
  fits : ∀ shard ∈ plan.shards, Fits program request shard.range.start shard.range.stop shard.estimate
  estimates : ∀ shard ∈ plan.shards,
    (slice program.instructions shard.range.start shard.range.stop).mapM request.costModel.estimateInstruction =
      .ok shard.instructionEstimates
  cut : ∀ shard ∈ plan.shards, Cut program request shard.range.start shard.range.stop
  flow : ExactFlow program (plan.shards.map fun shard => ⟨shard.name, shard.range⟩) plan.dag

theorem ranges_specsOf (ranges : List (Range × ShardEstimate)) : BuildDag.ranges (specsOf ranges) = ranges.map Prod.fst := by
  rw [BuildDag.ranges, specsOf, List.map_map]
  have hcomp : (fun spec : ShardSpec => spec.range) ∘ (fun entry : (Range × ShardEstimate) × ℕ =>
      (⟨shardName entry.2, entry.1.1⟩ : ShardSpec)) = Prod.fst ∘ Prod.fst := rfl
  rw [hcomp, ← List.map_map, List.zipIdx_map_fst]

theorem map_range_shardsOf (ranges : List (Range × ShardEstimate)) :
    (shardsOf estimates ranges).map (·.range) = ranges.map Prod.fst := by
  rw [shardsOf, List.map_map]
  have hcomp : (fun shard : PlannedShard => shard.range) ∘ (fun entry : (Range × ShardEstimate) × ℕ =>
      (⟨entry.2, shardName entry.2, entry.1.1, entry.1.2, slice estimates entry.1.1.start entry.1.1.stop⟩ : PlannedShard)) =
        Prod.fst ∘ Prod.fst := rfl
  rw [hcomp, ← List.map_map, List.zipIdx_map_fst]

theorem specs_shardsOf (ranges : List (Range × ShardEstimate)) :
    (shardsOf estimates ranges).map (fun shard => (⟨shard.name, shard.range⟩ : ShardSpec)) = specsOf ranges := by
  rw [shardsOf, List.map_map]
  rfl

theorem mem_shardsOf {ranges : List (Range × ShardEstimate)} {shard : PlannedShard} (h : shard ∈ shardsOf estimates ranges) :
    (shard.range, shard.estimate) ∈ ranges ∧
      shard.instructionEstimates = slice estimates shard.range.start shard.range.stop := by
  obtain ⟨⟨entry, i⟩, hmem, rfl⟩ := List.mem_map.mp h
  exact ⟨List.mem_of_getElem? (List.mem_zipIdx_iff_getElem?.mp hmem), rfl⟩

/-- The shards of the planned ranges, with the graph built from them. -/
theorem PlannedTo.valid {ranges : List (Range × ShardEstimate)} {p : PartitionPlan}
    (h : PlannedTo program request program.instructions.length ranges)
    (hestimates : program.instructions.mapM request.costModel.estimateInstruction = .ok estimates)
    (hdag : buildDag program (specsOf ranges) = .ok p.dag) (hshards : p.shards = shardsOf estimates ranges) :
    ValidPlan program request p := by
  have hforward : Forward program.instructions.length (BuildDag.ranges (specsOf ranges)) := by
    rw [ranges_specsOf]
    intro r hr
    obtain ⟨entry, hentry, rfl⟩ := List.mem_map.mp hr
    exact .inl (h.planned entry hentry).nonempty.le
  have hplanned : ∀ shard ∈ p.shards, PlannedRange program request (shard.range, shard.estimate) := fun shard hshard =>
    h.planned _ (mem_shardsOf (hshards ▸ hshard)).1
  have hflow : ExactFlow program (specsOf ranges) p.dag := by
    obtain ⟨dag', consumersOf, crossed, hok, hderived⟩ := buildDag_derived (buildDag_accepted hdag)
    rw [hdag] at hok
    cases hok
    exact hderived.exactFlow (buildDag_accepted hdag) hforward
  refine ⟨?_, fun shard hshard => (hplanned shard hshard).nonempty, ?_, ?_, fun shard hshard => (hplanned shard hshard).fits,
    ?_, fun shard hshard => (hplanned shard hshard).cut, ?_⟩
  · rw [hshards, map_range_shardsOf]
    exact h.chain
  · rw [hshards, map_range_shardsOf, ← ranges_specsOf]
    exact hflow.covered
  · rw [hshards, shardsOf, List.map_map, List.length_map, List.length_zipIdx]
    exact (List.zipIdx_map_snd 0 ranges).trans (List.range_eq_range' ..).symm
  · intro shard hshard
    rw [(mem_shardsOf (hshards ▸ hshard)).2]
    exact mapM_eq_ok.mpr (slice_forall₂ (mapM_eq_ok.mp hestimates) _ _)
  · rw [hshards, specs_shardsOf]
    exact hflow

/-- One iteration of the outer loop takes `start` to `stop`. -/
def Iterates (program : CompiledProgram) (request : PartitionRequest) (stop start : ℕ) : Prop :=
  start < program.instructions.length ∧
    ∃ estimates accepted, program.instructions.mapM request.costModel.estimateInstruction = .ok estimates ∧
      chooseEnd program request estimates start = .ok (stop, accepted)

/-- The outer loop cannot iterate forever, whatever the estimates and hints are. -/
theorem iterates_wellFounded (program : CompiledProgram) (request : PartitionRequest) :
    WellFounded (Iterates program request) := by
  apply Subrelation.wf (r := (measure fun start => program.instructions.length - start).rel) _ (measure _).wf
  rintro stop start ⟨hlt, estimates, accepted, hestimates, hchoose⟩
  have hadvance := (chooseEnd_ok hestimates hlt hchoose).1
  exact Nat.sub_lt_sub_left hlt hadvance

theorem plan_ok {blake3 : Blake3} {p : PartitionPlan} (h : plan blake3 program request = .ok p) :
    ValidPlan program request p := by
  unfold plan at h
  split at h
  · cases h
  · obtain ⟨_, -, h⟩ := bind_eq_ok.mp h
    split at h
    · cases h
    split at h
    · cases h
    obtain ⟨estimates, hestimates, h⟩ := bind_eq_ok.mp h
    obtain ⟨ranges, hranges, h⟩ := bind_eq_ok.mp h
    obtain ⟨dag, hdag, h⟩ := bind_eq_ok.mp h
    obtain ⟨_, -, h⟩ := bind_eq_ok.mp h
    dsimp only at h
    split at h
    · cases h
    cases h
    have hplanned := planRanges_ok hestimates (Nat.zero_le _) hranges ⟨rfl, by simp⟩
    exact hplanned.valid hestimates (FixedPoint.mapError_eq_ok.mp hdag) rfl

/-- The planning loop ends, and a plan is valid. -/
theorem plan_valid (blake3 : Blake3) (program : CompiledProgram) (request : PartitionRequest) :
    WellFounded (Iterates program request) ∧
      ∀ p, plan blake3 program request = .ok p → ValidPlan program request p :=
  ⟨iterates_wellFounded program request, fun _ h => plan_ok h⟩

/-- Every instruction and every shard of one instruction takes one byte. -/
def unitCosts : InstructionCostModel where
  identity := "unit"
  version := 1
  estimateInstruction _ := .ok ⟨1, 1⟩
  estimateShard instructions := .ok ⟨UInt64.ofNat instructions.length, 1⟩

def oneByte : PartitionRequest where
  targetShardRamBytes := 1
  maxK := 1
  modelDigest := ⟨Vector.replicate 32 0⟩
  compilerVersion := "1"
  costModel := unitCosts
  boundaryHints := []
  boundaryLayoutDigest := none
  target_ne := by decide
  maxK_ne := by decide
  version_ne := by decide
  hints_nodup := by decide

theorem plan_valid_oneByte : ∃ p, plan (fun _ => Vector.replicate 32 0) twoInstructions oneByte = .ok p ∧
    ValidPlan twoInstructions oneByte p := by
  have hok : (plan (fun _ => Vector.replicate 32 0) twoInstructions oneByte).toBool = true := by decide +kernel
  cases hplan : plan (fun _ => Vector.replicate 32 0) twoInstructions oneByte with
  | error e => simp [hplan, Except.toBool] at hok
  | ok p => exact ⟨p, rfl, (plan_valid _ _ _).2 p hplan⟩

/-- The two instructions do not fit together. -/
example : planRanges twoInstructions oneByte [⟨1, 1⟩, ⟨1, 1⟩] 0 [] =
    .ok [(⟨0, 1⟩, ⟨1, 1⟩), (⟨1, 2⟩, ⟨1, 1⟩)] := by decide +kernel

end Run

end Zkie.Partition
