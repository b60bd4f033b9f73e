import Zkie.Partition
import Mathlib.Logic.Relation
import Mathlib.Tactic.IntervalCases

namespace Zkie.PlanSuccess

open Checked GraphCompiler RangeChain BuildDag Zkie.Partition

/-- What the planner is promised: a program with backward references, hints inside it, a cost model with a name
that estimates every range, and instructions that fit the budgets on their own. -/
structure Plannable (program : CompiledProgram) (request : PartitionRequest) : Prop where
  nonempty : program.instructions ≠ []
  backward : ∀ i p, ReadsOutput program i p → p < i
  identity : request.costModel.identity ≠ ""
  hints : ∀ hint ∈ request.boundaryHints, hint.boundary < program.instructions.length
  instructions : ∀ instruction ∈ program.instructions, ∃ estimate,
    request.costModel.estimateInstruction instruction = .ok estimate
  shards : ∀ start stop, start < stop → stop ≤ program.instructions.length →
    ∃ shard, request.costModel.estimateShard (slice program.instructions start stop) = .ok shard
  single : ∀ start < program.instructions.length, ∃ shard, Fits program request start (start + 1) shard

/-- A shard that begins at `start` can grow up to `stop`. -/
structure Grows (program : CompiledProgram) (request : PartitionRequest) (start stop : ℕ) : Prop where
  advance : start < stop
  bound : stop ≤ program.instructions.length
  canReach : CanReach program request start stop

/-- The shard that begins at `start` grows up to `stop` and no further. -/
structure Greedy (program : CompiledProgram) (request : PartitionRequest) (start stop : ℕ) : Prop extends
    Grows program request start stop where
  maximal : ¬Grows program request start (stop + 1)

/-- A shard begins at `start` and the next one at `stop`. -/
def Next (program : CompiledProgram) (request : PartitionRequest) (start stop : ℕ) : Prop :=
  start < program.instructions.length ∧
    ∃ reach, Greedy program request start reach ∧ stop = pullBack program request start reach

/-- A shard begins at `start`. -/
def Begins (program : CompiledProgram) (request : PartitionRequest) (start : ℕ) : Prop :=
  Relation.ReflTransGen (Next program request) 0 start

/-- The instructions from `start` to `stop` together take less than `2 ^ 64` bytes. -/
def Summable (program : CompiledProgram) (request : PartitionRequest) (start stop : ℕ) : Prop :=
  ∃ estimates, (slice program.instructions start stop).mapM request.costModel.estimateInstruction = .ok estimates ∧
    ramSum estimates < 2 ^ 64

/-- Every range that a shard can grow to is still summable with one more instruction. -/
def GrowsSummably (program : CompiledProgram) (request : PartitionRequest) (start : ℕ) : Prop :=
  ∀ stop, Grows program request start stop → stop < program.instructions.length →
    Summable program request start (stop + 1)

variable {program : CompiledProgram} {request : PartitionRequest} {estimates : List InstructionEstimate}
  {start stop : ℕ}

section Sums

theorem foldlM_checkedAdd_isOk (estimates : List InstructionEstimate) (sum : UInt64) :
    (∃ total, estimates.foldlM checkedAdd sum = .ok total) ↔ sum.toNat + ramSum estimates < 2 ^ 64 := by
  induction estimates generalizing sum with
  | nil => exact ⟨fun _ => sum.toNat_lt, fun _ => ⟨sum, rfl⟩⟩
  | cons estimate estimates ih =>
    rw [List.foldlM_cons, ramSum, List.map_cons, List.sum_cons, ← ramSum]
    by_cases hlt : sum.toNat + estimate.ramBytes.toNat < 2 ^ 64
    · have hstep : checkedAdd sum estimate = .ok (sum + estimate.ramBytes) := if_pos hlt
      rw [hstep]
      have hsum : (sum + estimate.ramBytes).toNat = sum.toNat + estimate.ramBytes.toNat := by
        rw [UInt64.toNat_add, Nat.mod_eq_of_lt hlt]
      exact (ih _).trans (by rw [hsum, Nat.add_assoc])
    · have hstep : checkedAdd sum estimate = .error .estimateOverflow := if_neg hlt
      rw [hstep]
      constructor
      · rintro ⟨total, h⟩
        cases h
      · intro h
        omega

theorem rangeExceeds_isOk {shard : ShardEstimate} :
    (∃ b, rangeExceeds estimates shard request = .ok b) ↔ ramSum estimates < 2 ^ 64 := by
  have hsum := foldlM_checkedAdd_isOk estimates 0
  rw [UInt64.toNat_zero, Nat.zero_add] at hsum
  rw [← hsum]
  constructor
  · rintro ⟨b, h⟩
    obtain ⟨total, htotal, -⟩ := bind_eq_ok.mp h
    exact ⟨total, htotal⟩
  · rintro ⟨total, htotal⟩
    exact ⟨_, bind_eq_ok.mpr ⟨total, htotal, rfl⟩⟩

/-- The check of a range succeeds exactly if its instructions are summable. -/
theorem check_isOk {shard : ShardEstimate}
    (hestimates : program.instructions.mapM request.costModel.estimateInstruction = .ok estimates) :
    (∃ b, rangeExceeds (slice estimates start stop) shard request = .ok b) ↔ Summable program request start stop := by
  have hslice := mapM_eq_ok.mpr (slice_forall₂ (mapM_eq_ok.mp hestimates) start stop)
  rw [rangeExceeds_isOk, Summable]
  simp [hslice]

end Sums

section Growth

theorem CanReach.mono {b : ℕ} (h : CanReach program request start stop) (hb : b ≤ stop) : CanReach program request start b :=
  fun c hlt hle => h c hlt (hle.trans hb)

theorem Greedy.unique {stop' : ℕ} (h : Greedy program request start stop) (h' : Greedy program request start stop') :
    stop = stop' := by
  by_contra hne
  rcases lt_or_gt_of_ne hne with hlt | hlt
  · exact h.maximal ⟨Nat.lt_succ_of_lt h.advance, hlt.trans_le h'.bound, CanReach.mono h'.canReach hlt⟩
  · exact h'.maximal ⟨Nat.lt_succ_of_lt h'.advance, hlt.trans_le h.bound, CanReach.mono h.canReach hlt⟩

theorem Next.unique {stop' : ℕ} (h : Next program request start stop) (h' : Next program request start stop') :
    stop = stop' := by
  obtain ⟨-, reach, hgreedy, rfl⟩ := h
  obtain ⟨-, reach', hgreedy', rfl⟩ := h'
  rw [hgreedy.unique hgreedy']

theorem Reached.grows {accepted : List (ℕ × ShardEstimate)} (h : Reached program request start stop accepted) :
    Grows program request start stop := ⟨h.advance, h.bound, h.canReach le_rfl⟩

/-- The extension ends where the shard grows no further. -/
theorem extend_greedy {stop' : ℕ} {accepted accepted' : List (ℕ × ShardEstimate)}
    (hestimates : program.instructions.mapM request.costModel.estimateInstruction = .ok estimates)
    (h : extend program request estimates start stop accepted = .ok (stop', accepted'))
    (hreached : Reached program request start stop accepted) : Greedy program request start stop' := by
  obtain ⟨hreached', hover⟩ := extend_ok hestimates h hreached
  refine ⟨Reached.grows hreached', fun hgrows => ?_⟩
  obtain ⟨shard, hfits⟩ := hgrows.canReach (stop' + 1) hgrows.advance le_rfl
  exact (hover hgrows.bound).not_fits hfits

theorem extend_step {accepted : List (ℕ × ShardEstimate)} {candidate : ShardEstimate} {exceeds : Bool}
    (hlt : stop < program.instructions.length)
    (hcandidate : request.costModel.estimateShard (slice program.instructions start (stop + 1)) = .ok candidate)
    (hexceeds : rangeExceeds (slice estimates start (stop + 1)) candidate request = .ok exceeds) :
    extend program request estimates start stop accepted =
      if exceeds then .ok (stop, accepted)
      else extend program request estimates start (stop + 1) (accepted ++ [(stop + 1, candidate)]) := by
  rw [extend, if_pos hlt, hcandidate]
  change (rangeExceeds (slice estimates start (stop + 1)) candidate request >>= _) = _
  rw [hexceeds]
  rfl

/-- The extension fails only at a sum. -/
theorem extend_isOk {accepted : List (ℕ × ShardEstimate)} (hplannable : Plannable program request)
    (hestimates : program.instructions.mapM request.costModel.estimateInstruction = .ok estimates)
    (hreached : Reached program request start stop accepted) :
    (∃ r, extend program request estimates start stop accepted = .ok r) ↔
      ∀ b, stop ≤ b → Grows program request start b → b < program.instructions.length →
        Summable program request start (b + 1) := by
  induction hleft : program.instructions.length - stop generalizing stop accepted with
  | zero =>
    have hge : ¬stop < program.instructions.length := by omega
    rw [extend, if_neg hge]
    exact ⟨fun _ b hle _ hb => absurd (hle.trans_lt hb) hge, fun _ => ⟨(stop, accepted), rfl⟩⟩
  | succ left ih =>
    have hlt : stop < program.instructions.length := by omega
    obtain ⟨candidate, hcandidate⟩ := hplannable.shards start (stop + 1) (Nat.lt_succ_of_lt hreached.advance) hlt
    have hcheck : (∃ b, rangeExceeds (slice estimates start (stop + 1)) candidate request = .ok b) ↔
        Summable program request start (stop + 1) := check_isOk hestimates
    by_cases hsum : Summable program request start (stop + 1)
    · obtain ⟨exceeds, hexceeds⟩ := hcheck.mpr hsum
      have hmeaning := check_ok hestimates hcandidate hexceeds
      rw [extend_step hlt hcandidate hexceeds]
      cases exceeds with
      | true =>
        refine ⟨fun _ b hle hgrows hb => ?_, fun _ => ⟨(stop, accepted), rfl⟩⟩
        rcases Nat.eq_or_lt_of_le hle with rfl | hbeyond
        · exact hsum
        · obtain ⟨shard, hfits⟩ := hgrows.canReach (stop + 1) (Nat.lt_succ_of_lt hreached.advance) hbeyond
          exact absurd hfits (hmeaning.2 rfl).not_fits
      | false =>
        rw [if_neg Bool.false_ne_true, ih (hreached.push hlt (hmeaning.1 rfl)) (by omega)]
        constructor
        · intro h b hle hgrows hb
          rcases Nat.eq_or_lt_of_le hle with rfl | hbeyond
          · exact hsum
          · exact h b hbeyond hgrows hb
        · intro h b hle
          exact h b (Nat.le_of_succ_le hle)
    · constructor
      · rintro ⟨r, h⟩
        rw [extend, if_pos hlt] at h
        obtain ⟨candidate', hcandidate', h⟩ := bind_eq_ok.mp h
        obtain ⟨exceeds, hexceeds, -⟩ := bind_eq_ok.mp h
        obtain rfl := Except.ok.inj (hcandidate.symm.trans hcandidate')
        exact absurd (hcheck.mp ⟨exceeds, hexceeds⟩) hsum
      · intro h
        exact absurd (h stop le_rfl (Reached.grows hreached) hlt) hsum

theorem summable_of_fits {shard : ShardEstimate} (h : Fits program request start stop shard) :
    Summable program request start stop := by
  obtain ⟨estimates, hestimates, -, hwithin⟩ := h
  exact ⟨estimates, hestimates, hwithin.instructionRam.trans_lt request.targetShardRamBytes.toNat_lt⟩

/-- The search for the end of a shard comes down to the extension of its first instruction. -/
theorem chooseEnd_eq {single : ShardEstimate}
    (hestimates : program.instructions.mapM request.costModel.estimateInstruction = .ok estimates)
    (hfits : Fits program request start (start + 1) single) :
    chooseEnd program request estimates start = do
      let (reach, accepted) ← extend program request estimates start (start + 1) [(start + 1, single)]
      return (pullBack program request start reach, accepted) := by
  obtain ⟨exceeds, hexceeds⟩ : ∃ b, rangeExceeds (slice estimates start (start + 1)) single request = .ok b :=
    (check_isOk hestimates).mpr (summable_of_fits hfits)
  have hmeaning := check_ok hestimates hfits.choose_spec.2.1 hexceeds
  cases exceeds with
  | true => exact absurd hfits (hmeaning.2 rfl).not_fits
  | false =>
    unfold chooseEnd
    rw [hfits.choose_spec.2.1]
    change (rangeExceeds (slice estimates start (start + 1)) single request >>= _) = _
    rw [hexceeds]
    rfl

theorem chooseEnd_next {accepted : List (ℕ × ShardEstimate)} (hplannable : Plannable program request)
    (hestimates : program.instructions.mapM request.costModel.estimateInstruction = .ok estimates)
    (hlt : start < program.instructions.length)
    (h : chooseEnd program request estimates start = .ok (stop, accepted)) : Next program request start stop := by
  obtain ⟨single, hfits⟩ := hplannable.single start hlt
  rw [chooseEnd_eq hestimates hfits] at h
  obtain ⟨⟨reach, accepted'⟩, hextend, h⟩ := bind_eq_ok.mp h
  cases h
  exact ⟨hlt, reach, extend_greedy hestimates hextend (.single hlt hfits), rfl⟩

theorem chooseEnd_isOk (hplannable : Plannable program request)
    (hestimates : program.instructions.mapM request.costModel.estimateInstruction = .ok estimates)
    (hlt : start < program.instructions.length) :
    (∃ r, chooseEnd program request estimates start = .ok r) ↔ GrowsSummably program request start := by
  obtain ⟨single, hfits⟩ := hplannable.single start hlt
  have hextend := extend_isOk hplannable hestimates (.single hlt hfits)
  rw [chooseEnd_eq hestimates hfits]
  constructor
  · rintro ⟨r, h⟩ stop hgrows hstop
    obtain ⟨r', hr', -⟩ := bind_eq_ok.mp h
    exact hextend.mp ⟨r', hr'⟩ stop hgrows.advance hgrows hstop
  · intro h
    obtain ⟨r, hr⟩ := hextend.mpr fun b _ hgrows hb => h b hgrows hb
    exact ⟨_, bind_eq_ok.mpr ⟨r, hr, rfl⟩⟩

theorem planRanges_step {accepted : List (ℕ × ShardEstimate)} {ranges : List (Range × ShardEstimate)} {shard : ShardEstimate}
    (hlt : start < program.instructions.length)
    (hchoose : chooseEnd program request estimates start = .ok (stop, accepted)) (hadvance : start < stop)
    (hfind : accepted.find? (·.1 = stop) = some (stop, shard)) :
    planRanges program request estimates start ranges =
      planRanges program request estimates stop (ranges ++ [(⟨start, stop⟩, shard)]) := by
  rw [planRanges, if_pos hlt, hchoose]
  change (if stop ≤ start then _ else _) = _
  rw [if_neg (not_le.mpr hadvance)]
  simp only [hfind]

/-- The outer loop succeeds exactly if every shard that begins grows summably. -/
theorem planRanges_isOk {ranges : List (Range × ShardEstimate)} (hplannable : Plannable program request)
    (hestimates : program.instructions.mapM request.costModel.estimateInstruction = .ok estimates) :
    (∃ r, planRanges program request estimates start ranges = .ok r) ↔
      ∀ begun, Relation.ReflTransGen (Next program request) start begun → begun < program.instructions.length →
        GrowsSummably program request begun := by
  induction hleft : program.instructions.length - start using Nat.strong_induction_on generalizing start ranges with
  | _ left ih =>
    by_cases hlt : start < program.instructions.length
    · have hchosen := chooseEnd_isOk hplannable hestimates hlt
      by_cases hsums : GrowsSummably program request start
      · obtain ⟨⟨stop, accepted⟩, hchoose⟩ := hchosen.mpr hsums
        obtain ⟨hadvance, ⟨reach, hreach, hreached⟩, -⟩ := chooseEnd_ok hestimates hlt hchoose
        obtain ⟨shard, hfind, -⟩ := hreached.find hadvance hreach
        have hnext := chooseEnd_next hplannable hestimates hlt hchoose
        rw [planRanges_step hlt hchoose hadvance hfind, ih _ (by omega) rfl]
        constructor
        · intro h begun hpath hbegun
          rcases hpath.cases_head with rfl | ⟨other, hother, hrest⟩
          · exact hsums
          · obtain rfl := hnext.unique hother
            exact h begun hrest hbegun
        · intro h begun hpath hbegun
          exact h begun (.head hnext hpath) hbegun
      · constructor
        · rintro ⟨r, h⟩
          rw [planRanges, if_pos hlt] at h
          obtain ⟨r', hr', -⟩ := bind_eq_ok.mp h
          exact absurd (hchosen.mp ⟨r', hr'⟩) hsums
        · intro h
          exact absurd (h start .refl hlt) hsums
    · rw [planRanges, if_neg hlt]
      refine ⟨fun _ begun hpath hbegun => ?_, fun _ => ⟨ranges, rfl⟩⟩
      rcases hpath.cases_head with rfl | ⟨other, hother, -⟩
      · exact absurd hbegun hlt
      · exact absurd hother.1 hlt

end Growth

section Success

theorem validateReference_ok {consumer : ℕ} {register : Register} (h : ∀ p, register = .virtual p → p < consumer) :
    validateReference consumer register = .ok () := by
  cases register with
  | virtual p => exact if_neg (not_le.mpr (h p rfl))
  | graphInput name => rfl
  | weight name => rfl

theorem validateVirtualReferences_ok (h : ∀ i p, ReadsOutput program i p → p < i) :
    validateVirtualReferences program = .ok () := by
  apply forM_ok.mpr
  intro entry hentry
  apply forM_ok.mpr
  intro register hregister
  apply validateReference_ok
  rintro p rfl
  exact h entry.2 p ⟨entry.1, mem_zipIdx.mp hentry, hregister⟩

theorem exists_estimates (hplannable : Plannable program request) :
    ∃ estimates, program.instructions.mapM request.costModel.estimateInstruction = .ok estimates := by
  have hall := hplannable.instructions
  generalize program.instructions = instructions at hall
  induction instructions with
  | nil => exact ⟨[], rfl⟩
  | cons instruction instructions ih =>
    obtain ⟨estimate, hestimate⟩ := hall instruction (.head _)
    obtain ⟨estimates, hestimates⟩ := ih fun other hother => hall other (.tail _ hother)
    exact ⟨estimate :: estimates, mapM_eq_ok.mpr (.cons hestimate (mapM_eq_ok.mp hestimates))⟩

/-- The graph of ranges that cover the program passes the last check. -/
theorem validateDag_ok {specs : List ShardSpec} {dag : Dag}
    (hchain : Chain 0 (BuildDag.ranges specs) program.instructions.length)
    (hforward : ∀ r ∈ BuildDag.ranges specs, r.start ≤ r.stop) (hflow : ExactFlow program specs dag) :
    validateDag dag program.instructions.length = .ok () := by
  have hranges : dag.shards.map (·.range) = BuildDag.ranges specs := by
    have hshards := congrArg (List.map fun entry => entry.2.2) hflow.shards
    rw [List.map_map, List.map_map] at hshards
    refine hshards.trans ?_
    conv_rhs => rw [BuildDag.ranges, ← List.zipIdx_map_fst 0 specs, List.map_map]
    rfl
  have hcovered : (dag.shards.map fun shard => shard.range.stop - shard.range.start).sum = program.instructions.length := by
    have hsum := hchain.sum_lengths hforward
    rw [← hranges, List.map_map, Nat.zero_add] at hsum
    exact hsum
  apply if_neg
  rintro (hne | ⟨edge, hedge, hle | hbeyond⟩)
  · exact hne hcovered
  · exact absurd (hflow.direction edge hedge) (not_lt.mpr hle)
  · obtain ⟨p, -, -, -, i, ⟨r, hget, -⟩, -⟩ := (hflow.edges _ _ _).mp ⟨edge, hedge, rfl, rfl, rfl⟩
    have hlt := (List.getElem?_eq_some_iff.mp hget).1
    rw [← hranges, List.length_map] at hlt
    omega

/-- Ranges that cover a program with backward references are a plan. -/
theorem PlannedTo.plans {blake3 : PoseidonBoundary.Blake3} (hplannable : Plannable program request)
    (hestimates : program.instructions.mapM request.costModel.estimateInstruction = .ok estimates)
    {ranges : List (Range × ShardEstimate)} (hranges : planRanges program request estimates 0 [] = .ok ranges)
    (h : PlannedTo program request program.instructions.length ranges) :
    ∃ p, plan blake3 program request = .ok p := by
  have hne : ranges ≠ [] := by
    rintro rfl
    exact hplannable.nonempty (List.length_eq_zero_iff.mp h.chain.symm)
  have hforward : ∀ r ∈ BuildDag.ranges (specsOf ranges), r.start ≤ r.stop := by
    rw [ranges_specsOf]
    intro r hr
    obtain ⟨entry, hentry, rfl⟩ := List.mem_map.mp hr
    exact (h.planned entry hentry).nonempty.le
  have hchain : Chain 0 (BuildDag.ranges (specsOf ranges)) program.instructions.length := by
    rw [ranges_specsOf]
    exact h.chain
  have haccepted : Accepted program (specsOf ranges) := by
    refine ⟨?_, hchain, hplannable.backward⟩
    simpa [specsOf] using hne
  obtain ⟨dag, consumersOf, crossed, hdag, hderived⟩ := buildDag_derived haccepted
  have hflow := hderived.exactFlow haccepted fun r hr => .inl (hforward r hr)
  have hvalid := validateDag_ok hchain hforward hflow
  have hshards : shardsOf estimates ranges ≠ [] := by simpa [shardsOf] using hne
  have hinside : ¬∃ hint ∈ request.boundaryHints, program.instructions.length ≤ hint.boundary := by
    rintro ⟨hint, hhint, hle⟩
    exact absurd (hplannable.hints hint hhint) (not_lt.mpr hle)
  unfold plan
  rw [if_neg hplannable.nonempty, validateVirtualReferences_ok hplannable.backward]
  change ∃ p, (if request.costModel.identity = "" then _ else _) = Except.ok p
  rw [if_neg hplannable.identity, if_neg hinside, hestimates]
  change ∃ p, (planRanges program request estimates 0 [] >>= _) = Except.ok p
  rw [hranges]
  change ∃ p, ((buildDag program (specsOf ranges)).mapError mapDagError >>= _) = Except.ok p
  rw [hdag]
  change ∃ p, (validateDag dag program.instructions.length >>= _) = Except.ok p
  rw [hvalid]
  change ∃ p, (if shardsOf estimates ranges = [] then _ else _) = Except.ok p
  rw [if_neg hshards]
  exact ⟨_, rfl⟩

theorem planRanges_of_plan {blake3 : PoseidonBoundary.Blake3} {p : PartitionPlan}
    (h : plan blake3 program request = .ok p) :
    ∃ estimates ranges, program.instructions.mapM request.costModel.estimateInstruction = .ok estimates ∧
      planRanges program request estimates 0 [] = .ok ranges := by
  unfold plan at h
  split at h
  · cases h
  obtain ⟨_, -, h⟩ := bind_eq_ok.mp h
  split at h
  · cases h
  split at h
  · cases h
  obtain ⟨estimates, hestimates, h⟩ := bind_eq_ok.mp h
  obtain ⟨ranges, hranges, -⟩ := bind_eq_ok.mp h
  exact ⟨estimates, ranges, hestimates, hranges⟩

/-- A plannable program is planned exactly if no sum overflows while a shard grows. -/
theorem plan_isOk_iff (blake3 : PoseidonBoundary.Blake3) (program : CompiledProgram) (request : PartitionRequest)
    (hplannable : Plannable program request) :
    (∃ p, plan blake3 program request = .ok p) ↔
      ∀ start < program.instructions.length, Begins program request start → GrowsSummably program request start := by
  obtain ⟨estimates, hestimates⟩ := exists_estimates hplannable
  have hloop : (∃ ranges, planRanges program request estimates 0 [] = .ok ranges) ↔ _ := planRanges_isOk hplannable hestimates
  constructor
  · rintro ⟨p, h⟩ start hlt hbegins
    obtain ⟨estimates', ranges, hestimates', hranges⟩ := planRanges_of_plan h
    obtain rfl := Except.ok.inj (hestimates.symm.trans hestimates')
    exact hloop.mp ⟨ranges, hranges⟩ start hbegins hlt
  · intro hsums
    obtain ⟨ranges, hranges⟩ := hloop.mpr fun start hbegins hlt => hsums start hlt hbegins
    exact PlannedTo.plans hplannable hestimates hranges (planRanges_ok hestimates (Nat.zero_le _) hranges ⟨rfl, by simp⟩)

/-- Every instruction takes the same number of bytes, and every shard one byte. -/
def evenCosts (bytes : UInt64) : InstructionCostModel where
  identity := "even"
  version := 1
  estimateInstruction _ := .ok ⟨bytes, 1⟩
  estimateShard _ := .ok ⟨1, 1⟩

theorem maxK_one_ne : (1 : UInt32) ≠ 0 := by
  decide

theorem version_one_ne : "1" ≠ "" := by
  decide

def evenRequest (target bytes : UInt64) (htarget : target ≠ 0) : PartitionRequest where
  targetShardRamBytes := target
  maxK := 1
  modelDigest := ⟨Vector.replicate 32 0⟩
  compilerVersion := "1"
  costModel := evenCosts bytes
  boundaryHints := []
  boundaryLayoutDigest := none
  target_ne := htarget
  maxK_ne := maxK_one_ne
  version_ne := version_one_ne
  hints_nodup := List.nodup_nil

theorem evenRequest_plannable {target bytes : UInt64} (htarget : target ≠ 0) (h : bytes ≤ target) :
    Plannable twoInstructions (evenRequest target bytes htarget) := by
  have hpos : (1 : UInt64) ≤ target := by
    rw [UInt64.le_iff_toNat_le, UInt64.toNat_one, Nat.one_le_iff_ne_zero]
    exact fun hzero => htarget (UInt64.toNat_inj.mp hzero)
  have hwithin : WithinBudget (evenRequest target bytes htarget) [⟨bytes, 1⟩] ⟨1, 1⟩ := by
    refine ⟨?_, fun estimate hestimate => ?_, hpos, UInt32.le_refl 1⟩
    · rw [ramSum, List.map_singleton, List.sum_singleton]
      exact UInt64.le_iff_toNat_le.mp h
    · rw [List.mem_singleton.mp hestimate]
      exact UInt32.le_refl 1
  refine ⟨by decide, ?_, show "even" ≠ "" by decide, fun hint hhint => absurd hhint List.not_mem_nil, fun _ _ => ⟨_, rfl⟩,
    fun _ _ _ _ => ⟨_, rfl⟩, fun start hstart => ?_⟩
  · rintro i p ⟨instr, hget, hread⟩
    have hmem := List.mem_of_getElem? hget
    have hempty : ∀ other ∈ twoInstructions.instructions, other.inputs = [] := by decide
    rw [hempty instr hmem] at hread
    cases hread
  · have hsingle : ∃ instr, slice twoInstructions.instructions start (start + 1) = [instr] := by
      change start < 2 at hstart
      interval_cases start
      · exact ⟨_, rfl⟩
      · exact ⟨_, rfl⟩
    obtain ⟨instr, hslice⟩ := hsingle
    exact ⟨⟨1, 1⟩, [⟨bytes, 1⟩], by rw [hslice]; rfl, rfl, hwithin⟩

theorem plan_isOk_iff_even : Plannable twoInstructions (evenRequest 1 1 (by decide)) ∧
    ((∃ p, plan (fun _ => Vector.replicate 32 0) twoInstructions (evenRequest 1 1 (by decide)) = .ok p) ↔
      ∀ start < twoInstructions.instructions.length, Begins twoInstructions (evenRequest 1 1 (by decide)) start →
        GrowsSummably twoInstructions (evenRequest 1 1 (by decide)) start) :=
  ⟨evenRequest_plannable _ (UInt64.le_refl 1), plan_isOk_iff _ _ _ (evenRequest_plannable _ (UInt64.le_refl 1))⟩

/-- Two instructions of `2 ^ 63` bytes fit the largest budget one by one, and their sum overflows. -/
theorem plan_overflows : ¬∀ (blake3 : PoseidonBoundary.Blake3) (program : CompiledProgram) (request : PartitionRequest),
    Plannable program request → ∃ p, plan blake3 program request = .ok p := by
  intro h
  have hfails : (plan (fun _ => Vector.replicate 32 0) twoInstructions
      (evenRequest 18446744073709551615 9223372036854775808 (by decide))).toBool = false := by
    decide +kernel
  obtain ⟨p, hp⟩ := h (fun _ => Vector.replicate 32 0) twoInstructions
    (evenRequest 18446744073709551615 9223372036854775808 (by decide)) (evenRequest_plannable _ (by decide))
  rw [hp] at hfails
  cases hfails

end Success

end Zkie.PlanSuccess
