import Zkie.Checked
import Zkie.GraphCompiler
import Zkie.LineText
import Zkie.RangeChain

namespace Zkie.BuildDag

open Checked GraphCompiler Onnx RangeChain
open LineText (Text decimal splitOnce_eq_some)

section Model

/-- How the edges of a register are classified. -/
inductive EdgeKind where
  | sequential
  | broadcast
  deriving DecidableEq, Repr

structure Edge where
  id : Text
  producer : ℕ
  consumer : ℕ
  register : Register
  kind : EdgeKind
  deriving DecidableEq, Repr

/-- A range of instructions that is proved on its own. -/
structure Shard where
  id : ℕ
  name : String
  range : Range
  inputs : List Register
  outputs : List Register
  deriving DecidableEq, Repr

structure Dag where
  shards : List Shard
  edges : List Edge
  deriving DecidableEq, Repr

structure ShardSpec where
  name : String
  range : Range
  deriving DecidableEq, Repr

/-- The errors; the last one stands for a panic. -/
inductive BuildDagError where
  | noShards
  | notContiguous (expectedStart gotStart shardIndex : ℕ)
  | unknownRegister (consumerInstruction : ℕ) (register : Register)
  | forwardRegister (consumerInstruction : ℕ) (register : Register)
  | panicked
  deriving DecidableEq, Repr

/-- Every range has to start at the end of the one before it, the first one at `expectedStart`, and the last one has to
end at `n`. -/
def checkContiguous (n : ℕ) : ℕ → ℕ → List ShardSpec → Except BuildDagError Unit
  | expectedStart, index, [] =>
      if expectedStart = n then .ok () else .error (.notContiguous n expectedStart (index - 1))
  | expectedStart, index, spec :: specs =>
      if spec.range.start = expectedStart then checkContiguous n spec.range.stop (index + 1) specs
      else .error (.notContiguous expectedStart spec.range.start index)

/-- The first shard whose range contains an instruction. -/
def shardOf (specs : List ShardSpec) (instrIdx : ℕ) : Except BuildDagError ℕ :=
  orElse .panicked (specs.findIdx? fun spec => spec.range.Contains instrIdx)

/-- The other shards that read a register, in the order of their first use. The map has a key for every register with
such a shard. -/
abbrev Consumers : Type := ℕ → List ℕ

def recordInput (program : CompiledProgram) (specs : List ShardSpec) (consumerInstrIdx consumerShard : ℕ)
    (consumersOf : Consumers) : Register → Except BuildDagError Consumers
  | .virtual producerInstrIdx =>
      if program.instructions.length ≤ producerInstrIdx then
        .error (.unknownRegister consumerInstrIdx (.virtual producerInstrIdx))
      else if consumerInstrIdx ≤ producerInstrIdx then
        .error (.forwardRegister consumerInstrIdx (.virtual producerInstrIdx))
      else do
        let producerShard ← shardOf specs producerInstrIdx
        if producerShard ≠ consumerShard ∧ consumerShard ∉ consumersOf producerInstrIdx then
          return Function.update consumersOf producerInstrIdx (consumersOf producerInstrIdx ++ [consumerShard])
        else return consumersOf
  | .graphInput _ => .ok consumersOf
  | .weight _ => .ok consumersOf

def recordInstruction (program : CompiledProgram) (specs : List ShardSpec) (consumersOf : Consumers)
    (entry : CompiledInstruction × ℕ) : Except BuildDagError Consumers := do
  let consumerShard ← shardOf specs entry.2
  entry.1.inputs.foldlM (recordInput program specs entry.2 consumerShard) consumersOf

def collectConsumers (program : CompiledProgram) (specs : List ShardSpec) : Except BuildDagError Consumers :=
  program.instructions.zipIdx.foldlM (recordInstruction program specs) fun _ => []

/-- The registers that cross shards, in their order, each with the shard that produces it. -/
def crossings (program : CompiledProgram) (specs : List ShardSpec) (consumersOf : Consumers) :
    Except BuildDagError (List (ℕ × ℕ)) :=
  ((List.range program.instructions.length).filter fun i => consumersOf i ≠ []).mapM fun producerInstrIdx => do
    let producerShard ← shardOf specs producerInstrIdx
    return (producerInstrIdx, producerShard)

def kindOf (producerShard : ℕ) (consumers : List ℕ) : EdgeKind :=
  if consumers = [producerShard + 1] then .sequential else .broadcast

/-- The edges of a register, without their identities. -/
def edgesOf (consumersOf : Consumers) (crossing : ℕ × ℕ) : List Edge :=
  (consumersOf crossing.1).map fun consumerShard =>
    ⟨[], crossing.2, consumerShard, .virtual crossing.1, kindOf crossing.2 (consumersOf crossing.1)⟩

def inputsOf (consumersOf : Consumers) (crossings : List (ℕ × ℕ)) (shard : ℕ) : List Register :=
  crossings.flatMap fun crossing => ((consumersOf crossing.1).filter (· = shard)).map fun _ => .virtual crossing.1

def outputsOf (crossings : List (ℕ × ℕ)) (shard : ℕ) : List Register :=
  (crossings.filter fun crossing => crossing.2 = shard).map fun crossing => .virtual crossing.1

def registerSortKey : Register → ℕ ×ₗ String ×ₗ ℕ
  | .graphInput name => toLex (0, toLex (name, 0))
  | .weight name => toLex (1, toLex (name, 0))
  | .virtual index => toLex (2, toLex ("", index))

def edgeSortKey (edge : Edge) : ℕ ×ₗ ℕ ×ₗ ℕ ×ₗ String ×ₗ ℕ :=
  toLex (edge.producer, toLex (edge.consumer, registerSortKey edge.register))

/-- A number with at least twenty digits. -/
def padded (n : ℕ) : Text := List.replicate (20 - (decimal n).length) '0' ++ decimal n

def edgeId (producer consumer index : ℕ) : Text :=
  "edge-v1:".toList ++ (padded producer ++ ':' :: (padded consumer ++ ":virtual:".toList ++ padded index))

def assignId (edge : Edge) : Except BuildDagError Edge :=
  match edge.register with
  | .virtual index => .ok { edge with id := edgeId edge.producer edge.consumer index }
  | .graphInput _ => .error .panicked
  | .weight _ => .error .panicked

def buildDag (program : CompiledProgram) (specs : List ShardSpec) : Except BuildDagError Dag :=
  if specs = [] then .error .noShards
  else do
    checkContiguous program.instructions.length 0 0 specs
    let consumersOf ← collectConsumers program specs
    let crossings ← crossings program specs consumersOf
    let edges ← ((crossings.flatMap (edgesOf consumersOf)).insertionSort (edgeSortKey · ≤ edgeSortKey ·)).mapM assignId
    let shards := specs.zipIdx.map fun entry =>
      ⟨entry.2, entry.1.name, entry.1.range, inputsOf consumersOf crossings entry.2, outputsOf crossings entry.2⟩
    return ⟨shards, edges.insertionSort (·.id ≤ ·.id)⟩

end Model

section Flow

variable {program : CompiledProgram} {specs : List ShardSpec}

def ranges (specs : List ShardSpec) : List Range := specs.map (·.range)

/-- Shard `s` holds instruction `i`. -/
def Holds (specs : List ShardSpec) (s i : ℕ) : Prop := ∃ r : Range, (ranges specs)[s]? = some r ∧ r.Contains i

/-- Instruction `i` reads the output of instruction `p`. -/
def ReadsOutput (program : CompiledProgram) (i p : ℕ) : Prop :=
  ∃ instr, program.instructions[i]? = some instr ∧ .virtual p ∈ instr.inputs

/-- What the input has to satisfy to be accepted. -/
structure Accepted (program : CompiledProgram) (specs : List ShardSpec) : Prop where
  nonempty : specs ≠ []
  contiguous : Chain 0 (ranges specs) program.instructions.length
  backward : ∀ i p, ReadsOutput program i p → p < i

theorem checkContiguous_ok {n expectedStart index : ℕ} :
    checkContiguous n expectedStart index specs = .ok () ↔ Chain expectedStart (ranges specs) n := by
  induction specs generalizing expectedStart index with
  | nil =>
      unfold checkContiguous
      split
      · simpa [ranges, Chain]
      · simpa [ranges, Chain]
  | cons spec specs ih =>
      unfold checkContiguous
      split
      · rename_i hstart
        rw [ih]
        constructor
        · intro h
          exact ⟨hstart, h⟩
        · intro h
          exact h.2
      · rename_i hstart
        constructor
        · intro h
          cases h
        · intro h
          exact absurd h.1 hstart

theorem checkContiguous_ne_panicked {n expectedStart index : ℕ} :
    checkContiguous n expectedStart index specs ≠ .error .panicked := by
  induction specs generalizing expectedStart index with
  | nil =>
      unfold checkContiguous
      split <;> simp
  | cons spec specs ih =>
      unfold checkContiguous
      split
      · exact ih
      · simp

theorem shardOf_ok {i s : ℕ} (h : shardOf specs i = .ok s) : Holds specs s i := by
  unfold shardOf orElse at h
  cases hfind : specs.findIdx? fun spec => spec.range.Contains i with
  | none => rw [hfind] at h; cases h
  | some s' =>
      rw [hfind] at h
      cases h
      obtain ⟨hlt, hcontains, -⟩ := List.findIdx?_eq_some_iff_getElem.mp hfind
      exact ⟨specs[s].range, by simp [ranges, hlt], by simpa using hcontains⟩

/-- The scan for a shard always finds one. -/
theorem exists_shardOf {n i : ℕ} (h : Chain 0 (ranges specs) n) (hi : i < n) : ∃ s, shardOf specs i = .ok s := by
  obtain ⟨s, r, hs, hr⟩ := h.exists_contains (Nat.zero_le i) hi
  have hfound : (specs.findIdx? fun spec => spec.range.Contains i).isSome := by
    rw [List.findIdx?_isSome, List.any_eq_true]
    obtain ⟨spec, hspec, rfl⟩ := List.mem_map.mp (List.mem_of_getElem? hs)
    exact ⟨spec, hspec, decide_eq_true hr⟩
  obtain ⟨s', hs'⟩ := Option.isSome_iff_exists.mp hfound
  exact ⟨s', by rw [shardOf, hs']; rfl⟩

/-- The map holds the shards that read a register in another shard, each once, for the reads in `R`. -/
structure Recorded (specs : List ShardSpec) (R : ℕ → ℕ → Prop) (consumersOf : Consumers) : Prop where
  mem : ∀ p c, c ∈ consumersOf p ↔ ∃ i s, R i p ∧ shardOf specs i = .ok c ∧ shardOf specs p = .ok s ∧ s ≠ c
  nodup : ∀ p, (consumersOf p).Nodup

theorem Recorded.congr {R R' : ℕ → ℕ → Prop} {consumersOf : Consumers} (h : Recorded specs R consumersOf)
    (hR : ∀ i p, R' i p ↔ R i p) : Recorded specs R' consumersOf :=
  ⟨fun p c => by simp only [hR, h.mem], h.nodup⟩

/-- One read adds its consumer. -/
theorem recordInput_recorded {R : ℕ → ℕ → Prop} {consumersOf : Consumers} {i c s p : ℕ}
    (h : Recorded specs R consumersOf) (hc : shardOf specs i = .ok c) (hs : shardOf specs p = .ok s) (hlt : p < i)
    (hn : p < program.instructions.length) : ∃ consumersOf',
    recordInput program specs i c consumersOf (.virtual p) = .ok consumersOf' ∧
      Recorded specs (fun i' p' => R i' p' ∨ i' = i ∧ p' = p) consumersOf' := by
  have hmem : ∀ p' c', (∃ i' s', (R i' p' ∨ i' = i ∧ p' = p) ∧ shardOf specs i' = .ok c' ∧ shardOf specs p' = .ok s' ∧
      s' ≠ c') ↔ c' ∈ consumersOf p' ∨ p' = p ∧ c' = c ∧ s ≠ c := by
    intro p' c'
    constructor
    · rintro ⟨i', s', hread | ⟨rfl, rfl⟩, hi', hs', hne⟩
      · exact .inl ((h.mem p' c').mpr ⟨i', s', hread, hi', hs', hne⟩)
      · rw [hc] at hi'
        rw [hs] at hs'
        cases hi'
        cases hs'
        exact .inr ⟨rfl, rfl, hne⟩
    · rintro (hold | ⟨rfl, rfl, hne⟩)
      · obtain ⟨i', s', hread, hrest⟩ := (h.mem p' c').mp hold
        exact ⟨i', s', .inl hread, hrest⟩
      · exact ⟨i, s, .inr ⟨rfl, rfl⟩, hc, hs, hne⟩
  simp only [recordInput, if_neg (not_le.mpr hn), if_neg (not_le.mpr hlt), hs]
  by_cases hnew : s ≠ c ∧ c ∉ consumersOf p
  · refine ⟨Function.update consumersOf p (consumersOf p ++ [c]), if_pos hnew, ?_, ?_⟩
    · intro p' c'
      rw [hmem]
      by_cases hp : p' = p
      · subst hp
        simp [hnew.1]
      · simp [hp]
    · intro p'
      by_cases hp : p' = p
      · subst hp
        rw [Function.update_self]
        rw [List.nodup_append']
        exact ⟨h.nodup p', List.nodup_singleton c, List.disjoint_singleton.mpr hnew.2⟩
      · rw [Function.update_of_ne hp]
        exact h.nodup p'
  · refine ⟨consumersOf, if_neg hnew, ?_, h.nodup⟩
    intro p' c'
    rw [hmem, iff_self_or]
    rintro ⟨rfl, rfl, hne⟩
    by_contra hnot
    exact hnew ⟨hne, hnot⟩

theorem recordInstruction_recorded (hchain : Chain 0 (ranges specs) program.instructions.length) {R : ℕ → ℕ → Prop}
    {consumersOf : Consumers} {i : ℕ} {instr : CompiledInstruction} (h : Recorded specs R consumersOf)
    (hi : i < program.instructions.length) (hbackward : ∀ p, .virtual p ∈ instr.inputs → p < i) : ∃ consumersOf',
    recordInstruction program specs consumersOf (instr, i) = .ok consumersOf' ∧
      Recorded specs (fun i' p => R i' p ∨ i' = i ∧ .virtual p ∈ instr.inputs) consumersOf' := by
  obtain ⟨c, hc⟩ := exists_shardOf hchain hi
  suffices hfold : ∃ consumersOf', instr.inputs.foldlM (recordInput program specs i c) consumersOf = .ok consumersOf' ∧
      Recorded specs (fun i' p => R i' p ∨ i' = i ∧ .virtual p ∈ instr.inputs) consumersOf' by
    obtain ⟨consumersOf', hfold, hrecorded⟩ := hfold
    exact ⟨consumersOf', bind_eq_ok.mpr ⟨c, hc, hfold⟩, hrecorded⟩
  apply foldlM_total (I := fun done => Recorded specs fun i' p => R i' p ∨ i' = i ∧ Register.virtual p ∈ done)
  · intro done input rest consumersOf hsplit hdone
    cases input with
    | graphInput name | weight name => exact ⟨consumersOf, rfl, hdone.congr fun i' p => by simp⟩
    | virtual p =>
        have hlt : p < i := hbackward p (by simp [hsplit])
        obtain ⟨s, hs⟩ := exists_shardOf hchain (hlt.trans hi)
        obtain ⟨consumersOf', hstep, hrecorded⟩ := recordInput_recorded hdone hc hs hlt (hlt.trans hi)
        refine ⟨consumersOf', hstep, hrecorded.congr fun i' p' => ?_⟩
        simp only [List.mem_append, List.mem_singleton, Register.virtual.injEq]
        tauto
  · exact h.congr fun i' p => by simp

theorem mem_zipIdx {i : ℕ} {instr : CompiledInstruction} :
    (instr, i) ∈ program.instructions.zipIdx ↔ program.instructions[i]? = some instr := List.mem_zipIdx_iff_getElem?

/-- The map after all instructions. -/
theorem collectConsumers_recorded (h : Accepted program specs) : ∃ consumersOf,
    collectConsumers program specs = .ok consumersOf ∧ Recorded specs (ReadsOutput program) consumersOf := by
  suffices hfold : ∃ consumersOf, collectConsumers program specs = .ok consumersOf ∧
      Recorded specs (fun i p => ∃ instr, (instr, i) ∈ program.instructions.zipIdx ∧ .virtual p ∈ instr.inputs) consumersOf by
    obtain ⟨consumersOf, hrun, hrecorded⟩ := hfold
    exact ⟨consumersOf, hrun, hrecorded.congr fun i p => exists_congr fun instr => and_congr_left' mem_zipIdx.symm⟩
  unfold collectConsumers
  apply foldlM_total (I := fun done => Recorded specs fun i p => ∃ instr : CompiledInstruction,
    (instr, i) ∈ done ∧ .virtual p ∈ instr.inputs)
  · rintro done ⟨instr, i⟩ rest consumersOf hsplit hdone
    have hmem : (instr, i) ∈ program.instructions.zipIdx := by simp [hsplit]
    have hget := mem_zipIdx.mp hmem
    obtain ⟨consumersOf', hstep, hrecorded⟩ := recordInstruction_recorded h.contiguous hdone
      (List.getElem?_eq_some_iff.mp hget).1 fun p hp => h.backward i p ⟨instr, hget, hp⟩
    refine ⟨consumersOf', hstep, hrecorded.congr fun i' p => ?_⟩
    simp only [List.mem_append, List.mem_singleton, Prod.mk.injEq]
    constructor
    · rintro ⟨instr', hmem | ⟨rfl, rfl⟩, hp⟩
      · exact .inl ⟨instr', hmem, hp⟩
      · exact .inr ⟨rfl, hp⟩
    · rintro (⟨instr', hmem, hp⟩ | ⟨rfl, hp⟩)
      · exact ⟨instr', .inl hmem, hp⟩
      · exact ⟨instr, .inr ⟨rfl, rfl⟩, hp⟩
  · exact ⟨by simp, fun p => List.nodup_nil⟩

theorem collectConsumers_backward {consumersOf : Consumers} (h : collectConsumers program specs = .ok consumersOf) :
    ∀ i p, ReadsOutput program i p → p < i := by
  rintro i p ⟨instr, hget, hp⟩
  obtain ⟨before, after, hstep⟩ := foldlM_ok_step h (mem_zipIdx.mpr hget)
  obtain ⟨c, -, hinputs⟩ := bind_eq_ok.mp hstep
  obtain ⟨before', after', hinput⟩ := foldlM_ok_step hinputs hp
  by_contra hle
  rw [not_lt] at hle
  simp only [recordInput, if_pos hle] at hinput
  split at hinput
  · cases hinput
  · cases hinput

theorem collectConsumers_ne_panicked (h : Chain 0 (ranges specs) program.instructions.length) :
    collectConsumers program specs ≠ .error .panicked := by
  have hshard : ∀ i < program.instructions.length, shardOf specs i ≠ .error .panicked := by
    intro i hi
    obtain ⟨s, hs⟩ := exists_shardOf h hi
    simp [hs]
  apply foldlM_ne_error
  rintro consumersOf ⟨instr, i⟩ hmem
  have hi := (List.getElem?_eq_some_iff.mp (mem_zipIdx.mp hmem)).1
  apply bind_ne_error (hshard i hi)
  intro c _
  apply foldlM_ne_error
  intro consumersOf input _
  cases input with
  | graphInput name | weight name => simp [recordInput]
  | virtual p =>
      simp only [recordInput]
      split
      · simp
      · rename_i hp
        split
        · simp
        · apply bind_ne_error (hshard p (not_le.mp hp))
          intro s _
          split <;> exact fun hpure => nomatch hpure

end Flow

section Identity

theorem colon_notMem_padded (n : ℕ) : ':' ∉ padded n := by
  intro hmem
  rcases List.mem_append.mp hmem with hmem | hmem
  · exact absurd (List.eq_of_mem_replicate hmem) (by decide)
  · exact absurd (Nat.isDigit_of_mem_toDigits (by decide) (by decide) hmem) (by decide)

theorem padded_inj {m n : ℕ} (h : padded m = padded n) : m = n := by
  have hvalue : ∀ k, Nat.ofDigitChars 10 (padded k) 0 = k := by
    intro k
    rw [padded, Nat.ofDigitChars_append, Nat.ofDigitChars_replicate_zero, Nat.mul_zero]
    exact Nat.ofDigitChars_ten_toDigits
  rw [← hvalue m, h, hvalue n]

theorem edgeId_inj {producer consumer index producer' consumer' index' : ℕ}
    (h : edgeId producer consumer index = edgeId producer' consumer' index') :
    producer = producer' ∧ consumer = consumer' ∧ index = index' := by
  have hprefix : ∀ m n : ℕ, ∀ r r' : Text, padded m ++ ':' :: r = padded n ++ ':' :: r' → padded m = padded n ∧ r = r' := by
    intro m n r r' heq
    have hleft := splitOnce_eq_some.mpr ⟨heq, colon_notMem_padded n⟩
    rw [splitOnce_eq_some.mpr ⟨rfl, colon_notMem_padded m⟩] at hleft
    exact Prod.mk.inj (Option.some.inj hleft)
  obtain ⟨hproducer, hrest⟩ := hprefix _ _ _ _ (List.append_cancel_left h)
  have hvirtual : ":virtual:".toList = ':' :: "virtual:".toList := rfl
  rw [hvirtual, List.append_assoc, List.append_assoc, List.cons_append, List.cons_append] at hrest
  obtain ⟨hconsumer, hrest⟩ := hprefix _ _ _ _ hrest
  exact ⟨padded_inj hproducer, padded_inj hconsumer, padded_inj (List.append_cancel_left hrest)⟩

end Identity

section Edges

variable {program : CompiledProgram} {specs : List ShardSpec} {consumersOf : Consumers} {crossed : List (ℕ × ℕ)}

/-- The crossing registers that the edges are made from. -/
structure Crossed (program : CompiledProgram) (specs : List ShardSpec) (consumersOf : Consumers)
    (crossed : List (ℕ × ℕ)) : Prop where
  mem : ∀ p s, (p, s) ∈ crossed ↔ p < program.instructions.length ∧ consumersOf p ≠ [] ∧ shardOf specs p = .ok s
  nodup : (crossed.map Prod.fst).Nodup

theorem crossings_crossed (h : Chain 0 (ranges specs) program.instructions.length) : ∃ crossed,
    crossings program specs consumersOf = .ok crossed ∧ Crossed program specs consumersOf crossed := by
  let shardAt (p : ℕ) : ℕ := (shardOf specs p).toOption.getD 0
  have hshard : ∀ p < program.instructions.length, shardOf specs p = .ok (shardAt p) := by
    intro p hp
    obtain ⟨s, hs⟩ := exists_shardOf h hp
    simp only [shardAt, hs]
    rfl
  refine ⟨_, mapM_eq_map (g := fun p => (p, shardAt p)) fun p hp => ?_, ?_, ?_⟩
  · rw [hshard p (List.mem_range.mp (List.mem_of_mem_filter hp))]
    rfl
  · intro p s
    simp only [List.mem_map, List.mem_filter, List.mem_range, decide_eq_true_eq, Prod.mk.injEq]
    constructor
    · rintro ⟨p, ⟨hp, hne⟩, rfl, rfl⟩
      exact ⟨hp, hne, hshard p hp⟩
    · rintro ⟨hp, hne, hs⟩
      rw [hshard p hp] at hs
      exact ⟨p, ⟨hp, hne⟩, rfl, Except.ok.inj hs⟩
  · rw [List.map_map]
    have hid : Prod.fst ∘ (fun p => (p, shardAt p)) = id := rfl
    rw [hid, List.map_id]
    exact List.nodup_range.filter _

def withId (edge : Edge) : Edge :=
  match edge.register with
  | .virtual index => { edge with id := edgeId edge.producer edge.consumer index }
  | .graphInput _ => edge
  | .weight _ => edge

theorem mem_edgesOf {crossing : ℕ × ℕ} {e : Edge} : e ∈ edgesOf consumersOf crossing ↔
    ∃ c ∈ consumersOf crossing.1, e = ⟨[], crossing.2, c, .virtual crossing.1, kindOf crossing.2 (consumersOf crossing.1)⟩ := by
  simp only [edgesOf, List.mem_map, @eq_comm Edge e]

def triple (e : Edge) : ℕ × ℕ × Register := (e.producer, e.consumer, e.register)

theorem nodup_triples (hcrossed : Crossed program specs consumersOf crossed) (hnodup : ∀ p, (consumersOf p).Nodup) :
    ((crossed.flatMap (edgesOf consumersOf)).map triple).Nodup := by
  rw [List.map_flatMap, List.nodup_flatMap]
  constructor
  · intro crossing _
    rw [edgesOf, List.map_map]
    apply (hnodup crossing.1).map
    intro c c' heq
    exact (Prod.mk.inj (Prod.mk.inj heq).2).1
  · have hfst : crossed.Pairwise fun x y => x.1 ≠ y.1 := List.pairwise_map.mp hcrossed.nodup
    apply hfst.imp
    intro x y hne
    rw [Function.onFun, List.disjoint_left]
    intro t hx hy
    obtain ⟨e, he, rfl⟩ := List.mem_map.mp hx
    obtain ⟨e', he', heq⟩ := List.mem_map.mp hy
    obtain ⟨c, -, rfl⟩ := mem_edgesOf.mp he
    obtain ⟨c', -, rfl⟩ := mem_edgesOf.mp he'
    have hregister := (Prod.mk.inj (Prod.mk.inj heq).2).2
    exact hne (Register.virtual.inj hregister).symm

/-- What a graph that is built consists of. -/
structure Derived (program : CompiledProgram) (specs : List ShardSpec) (consumersOf : Consumers)
    (crossed : List (ℕ × ℕ)) (dag : Dag) : Prop where
  recorded : Recorded specs (ReadsOutput program) consumersOf
  crossings : Crossed program specs consumersOf crossed
  shards : dag.shards = specs.zipIdx.map fun entry =>
    ⟨entry.2, entry.1.name, entry.1.range, inputsOf consumersOf crossed entry.2, outputsOf crossed entry.2⟩
  edges : dag.edges.Perm ((crossed.flatMap (edgesOf consumersOf)).map withId)
  sorted : dag.edges.Pairwise (·.id ≤ ·.id)

theorem buildDag_derived (h : Accepted program specs) :
    ∃ dag consumersOf crossed, buildDag program specs = .ok dag ∧ Derived program specs consumersOf crossed dag := by
  obtain ⟨consumersOf, hcollect, hrecorded⟩ := collectConsumers_recorded h
  obtain ⟨crossed, hcrossings, hcrossed⟩ : ∃ crossed, crossings program specs consumersOf = .ok crossed ∧
      Crossed program specs consumersOf crossed := crossings_crossed h.contiguous
  let unnamed := (crossed.flatMap (edgesOf consumersOf)).insertionSort (edgeSortKey · ≤ edgeSortKey ·)
  have hperm : unnamed.Perm (crossed.flatMap (edgesOf consumersOf)) := List.perm_insertionSort _ _
  have hassign : unnamed.mapM assignId = .ok (unnamed.map withId) := by
    apply mapM_eq_map
    intro e he
    obtain ⟨crossing, -, he⟩ := List.mem_flatMap.mp (hperm.mem_iff.mp he)
    obtain ⟨c, -, rfl⟩ := mem_edgesOf.mp he
    rfl
  refine ⟨⟨_, (unnamed.map withId).insertionSort (·.id ≤ ·.id)⟩, consumersOf, crossed, ?_, hrecorded, hcrossed, rfl, ?_, ?_⟩
  · unfold buildDag
    rw [if_neg h.nonempty]
    refine bind_eq_ok.mpr ⟨(), checkContiguous_ok.mpr h.contiguous, bind_eq_ok.mpr ⟨consumersOf, hcollect, ?_⟩⟩
    exact bind_eq_ok.mpr ⟨crossed, hcrossings, bind_eq_ok.mpr ⟨_, hassign, rfl⟩⟩
  · exact (List.perm_insertionSort _ _).trans (hperm.map withId)
  · have htotal : Std.Total fun e e' : Edge => e.id ≤ e'.id := ⟨fun e e' => le_total e.id e'.id⟩
    have htrans : IsTrans Edge fun e e' => e.id ≤ e'.id := ⟨fun _ _ _ => le_trans⟩
    exact List.pairwise_insertionSort _ _

theorem buildDag_accepted {dag : Dag} (h : buildDag program specs = .ok dag) : Accepted program specs := by
  unfold buildDag at h
  split at h
  · cases h
  · rename_i hne
    obtain ⟨_, hcontiguous, h⟩ := bind_eq_ok.mp h
    obtain ⟨consumersOf, hcollect, -⟩ := bind_eq_ok.mp h
    exact ⟨hne, checkContiguous_ok.mp hcontiguous, collectConsumers_backward hcollect⟩

/-- No input makes the construction panic. -/
theorem buildDag_ne_panicked : buildDag program specs ≠ .error .panicked := by
  by_cases haccepted : Accepted program specs
  · obtain ⟨dag, -, -, hok, -⟩ := buildDag_derived haccepted
    simp [hok]
  · unfold buildDag
    split
    · simp
    · rename_i hne
      apply bind_ne_error checkContiguous_ne_panicked
      intro _ hcontiguous
      have hchain := checkContiguous_ok.mp hcontiguous
      apply bind_ne_error (collectConsumers_ne_panicked hchain)
      intro consumersOf hcollect
      exact absurd ⟨hne, hchain, collectConsumers_backward hcollect⟩ haccepted

variable {dag : Dag}

theorem Derived.mem_edges (h : Derived program specs consumersOf crossed dag) {e : Edge} : e ∈ dag.edges ↔
    ∃ p s c, c ∈ consumersOf p ∧ p < program.instructions.length ∧ shardOf specs p = .ok s ∧
      e = ⟨edgeId s c p, s, c, .virtual p, kindOf s (consumersOf p)⟩ := by
  rw [h.edges.mem_iff]
  simp only [List.mem_map, List.mem_flatMap, mem_edgesOf, Prod.exists, h.crossings.mem]
  constructor
  · rintro ⟨_, ⟨p, s, ⟨hp, -, hs⟩, c, hc, rfl⟩, rfl⟩
    exact ⟨p, s, c, hc, hp, hs, rfl⟩
  · rintro ⟨p, s, c, hc, hp, hs, rfl⟩
    exact ⟨_, ⟨p, s, ⟨hp, List.ne_nil_of_mem hc, hs⟩, c, hc, rfl⟩, rfl⟩

theorem triple_withId (e : Edge) : triple (withId e) = triple e := by
  unfold withId
  split <;> rfl

theorem Derived.nodup_triples (h : Derived program specs consumersOf crossed dag) : (dag.edges.map triple).Nodup := by
  rw [(h.edges.map triple).nodup_iff, List.map_map]
  have hcomp : triple ∘ withId = triple := funext triple_withId
  rw [hcomp]
  exact BuildDag.nodup_triples h.crossings h.recorded.nodup

theorem Derived.ids_sorted (h : Derived program specs consumersOf crossed dag) : (dag.edges.map (·.id)).Pairwise (· < ·) := by
  have hne : dag.edges.Pairwise fun e e' => triple e ≠ triple e' := List.pairwise_map.mp h.nodup_triples
  apply List.pairwise_map.mpr
  apply (h.sorted.and hne).imp_of_mem
  intro e e' he he' hrel
  obtain ⟨p, s, c, -, -, -, rfl⟩ := h.mem_edges.mp he
  obtain ⟨p', s', c', -, -, -, rfl⟩ := h.mem_edges.mp he'
  apply lt_of_le_of_ne hrel.1
  intro heq
  obtain ⟨rfl, rfl, rfl⟩ := edgeId_inj heq
  exact hrel.2 rfl

end Edges

section Exact

variable {program : CompiledProgram} {specs : List ShardSpec} {consumersOf : Consumers} {crossed : List (ℕ × ℕ)} {dag : Dag}

/-- Some instruction of one shard reads the output of instruction `p` of another. -/
def Crosses (program : CompiledProgram) (specs : List ShardSpec) (producer consumer p : ℕ) : Prop :=
  producer ≠ consumer ∧ Holds specs producer p ∧ ∃ i, Holds specs consumer i ∧ ReadsOutput program i p

def HasEdge (dag : Dag) (producer consumer : ℕ) (register : Register) : Prop :=
  ∃ e ∈ dag.edges, e.producer = producer ∧ e.consumer = consumer ∧ e.register = register

/-- The graph is the data flow between the shards. -/
structure ExactFlow (program : CompiledProgram) (specs : List ShardSpec) (dag : Dag) : Prop where
  covered : ∀ i < program.instructions.length, CoveredOnce (ranges specs) i
  backward : ∀ i p, ReadsOutput program i p → p < i
  shards : dag.shards.map (fun shard => (shard.id, shard.name, shard.range)) =
    specs.zipIdx.map fun entry => (entry.2, entry.1.name, entry.1.range)
  edges : ∀ producer consumer register,
    HasEdge dag producer consumer register ↔ ∃ p, register = .virtual p ∧ Crosses program specs producer consumer p
  once : (dag.edges.map triple).Nodup
  direction : ∀ e ∈ dag.edges, e.producer < e.consumer
  ids : (dag.edges.map (·.id)).Pairwise (· < ·)
  kinds : ∀ e ∈ dag.edges, e.kind = .sequential ↔
    ∀ e' ∈ dag.edges, e'.register = e.register → e'.consumer = e.producer + 1
  inputs : ∀ shard ∈ dag.shards, shard.inputs.Nodup ∧
    ∀ register, register ∈ shard.inputs ↔ ∃ producer, HasEdge dag producer shard.id register
  outputs : ∀ shard ∈ dag.shards, shard.outputs.Nodup ∧
    ∀ register, register ∈ shard.outputs ↔ ∃ consumer, HasEdge dag shard.id consumer register

/-- The construction does not panic, and what it returns is the data flow. -/
def DerivesFlow (program : CompiledProgram) (specs : List ShardSpec) : Prop :=
  buildDag program specs ≠ .error .panicked ∧ ∀ dag, buildDag program specs = .ok dag → ExactFlow program specs dag

theorem shardOf_iff_holds (hchain : Chain 0 (ranges specs) program.instructions.length)
    (hcovered : ∀ i < program.instructions.length, CoveredOnce (ranges specs) i) {i s : ℕ}
    (hi : i < program.instructions.length) : shardOf specs i = .ok s ↔ Holds specs s i := by
  constructor
  · exact shardOf_ok
  · intro hholds
    obtain ⟨s', hs'⟩ := exists_shardOf hchain hi
    rw [hs', (hcovered i hi).unique hholds (shardOf_ok hs')]

theorem ReadsOutput.lt {i p : ℕ} (h : ReadsOutput program i p) : i < program.instructions.length := by
  obtain ⟨instr, hget, -⟩ := h
  exact (List.getElem?_eq_some_iff.mp hget).1

theorem Derived.crosses_iff (h : Derived program specs consumersOf crossed dag) (haccepted : Accepted program specs)
    (hcovered : ∀ i < program.instructions.length, CoveredOnce (ranges specs) i) {s c p : ℕ} :
    (c ∈ consumersOf p ∧ p < program.instructions.length ∧ shardOf specs p = .ok s) ↔ Crosses program specs s c p := by
  rw [h.recorded.mem]
  constructor
  · rintro ⟨⟨i, s', hread, hi, hs', hne⟩, hp, hs⟩
    rw [hs'] at hs
    cases hs
    exact ⟨hne, shardOf_ok hs', i, shardOf_ok hi, hread⟩
  · rintro ⟨hne, hs, i, hi, hread⟩
    have hp : p < program.instructions.length := (haccepted.backward i p hread).trans hread.lt
    have hs' := (shardOf_iff_holds haccepted.contiguous hcovered hp).mpr hs
    have hi' := (shardOf_iff_holds haccepted.contiguous hcovered hread.lt).mpr hi
    exact ⟨⟨i, s, hread, hi', hs', hne⟩, hp, hs'⟩

theorem Derived.hasEdge_iff (h : Derived program specs consumersOf crossed dag) {s c : ℕ} {register : Register} :
    HasEdge dag s c register ↔ ∃ p, register = .virtual p ∧
      c ∈ consumersOf p ∧ p < program.instructions.length ∧ shardOf specs p = .ok s := by
  constructor
  · rintro ⟨e, he, rfl, rfl, rfl⟩
    obtain ⟨p, s, c, hc, hp, hs, rfl⟩ := h.mem_edges.mp he
    exact ⟨p, rfl, hc, hp, hs⟩
  · rintro ⟨p, rfl, hc, hp, hs⟩
    exact ⟨_, h.mem_edges.mpr ⟨p, s, c, hc, hp, hs, rfl⟩, rfl, rfl, rfl⟩

/-- A register is an input of the shards that read it from another shard. -/
theorem Derived.mem_inputsOf (h : Derived program specs consumersOf crossed dag) {c : ℕ} {register : Register} :
    register ∈ inputsOf consumersOf crossed c ↔ ∃ s, HasEdge dag s c register := by
  simp only [h.hasEdge_iff, inputsOf, List.mem_flatMap, List.mem_map, List.mem_filter, decide_eq_true_eq, Prod.exists,
    h.crossings.mem]
  constructor
  · rintro ⟨p, s, ⟨hp, -, hs⟩, c', ⟨hc, rfl⟩, rfl⟩
    exact ⟨s, p, rfl, hc, hp, hs⟩
  · rintro ⟨s, p, rfl, hc, hp, hs⟩
    exact ⟨p, s, ⟨hp, List.ne_nil_of_mem hc, hs⟩, c, ⟨hc, rfl⟩, rfl⟩

theorem Derived.mem_outputsOf (h : Derived program specs consumersOf crossed dag) {s : ℕ} {register : Register} :
    register ∈ outputsOf crossed s ↔ ∃ c, HasEdge dag s c register := by
  simp only [h.hasEdge_iff, outputsOf, List.mem_map, List.mem_filter, decide_eq_true_eq, Prod.exists, h.crossings.mem]
  constructor
  · rintro ⟨p, s', ⟨⟨hp, hne, hs⟩, rfl⟩, rfl⟩
    obtain ⟨c, hc⟩ := List.exists_mem_of_ne_nil _ hne
    exact ⟨c, p, rfl, hc, hp, hs⟩
  · rintro ⟨c, p, rfl, hc, hp, hs⟩
    exact ⟨p, s, ⟨⟨hp, List.ne_nil_of_mem hc, hs⟩, rfl⟩, rfl⟩

theorem Crossed.outputsOf_nodup (h : Crossed program specs consumersOf crossed) (s : ℕ) : (outputsOf crossed s).Nodup := by
  have hfst : (crossed.filter fun crossing => crossing.2 = s).Pairwise fun x y => x.1 ≠ y.1 :=
    (List.pairwise_map.mp h.nodup).filter _
  apply List.pairwise_map.mpr
  exact hfst.imp fun hne heq => hne (Register.virtual.inj heq)

theorem Crossed.inputsOf_nodup (h : Crossed program specs consumersOf crossed) (hnodup : ∀ p, (consumersOf p).Nodup)
    (c : ℕ) : (inputsOf consumersOf crossed c).Nodup := by
  rw [inputsOf, List.nodup_flatMap]
  constructor
  · intro crossing _
    have hrepeat := List.eq_replicate_of_mem (a := c) (l := (consumersOf crossing.1).filter (· = c)) fun b hb => by
      simpa using (List.mem_filter.mp hb).2
    have hle := List.nodup_replicate.mp (hrepeat ▸ (hnodup crossing.1).filter _)
    rw [List.map_const']
    exact List.nodup_replicate.mpr hle
  · apply (List.pairwise_map.mp h.nodup).imp
    intro x y hne
    rw [Function.onFun, List.disjoint_left]
    intro register hx hy
    obtain ⟨_, -, rfl⟩ := List.mem_map.mp hx
    obtain ⟨_, -, heq⟩ := List.mem_map.mp hy
    exact hne (Register.virtual.inj heq).symm

/-- A register's edges are sequential if the next shard is its only consumer. -/
theorem Derived.kind_iff (h : Derived program specs consumersOf crossed dag) {e : Edge} (he : e ∈ dag.edges) :
    e.kind = .sequential ↔ ∀ e' ∈ dag.edges, e'.register = e.register → e'.consumer = e.producer + 1 := by
  obtain ⟨p, s, c, hc, hp, hs, rfl⟩ := h.mem_edges.mp he
  have hkind : kindOf s (consumersOf p) = .sequential ↔ consumersOf p = [s + 1] := by
    unfold kindOf
    split <;> simp_all
  rw [hkind]
  constructor
  · intro hconsumers e' he' hregister
    obtain ⟨p', s', c', hc', -, -, rfl⟩ := h.mem_edges.mp he'
    cases hregister
    rw [hconsumers] at hc'
    exact List.mem_singleton.mp hc'
  · intro hall
    have hconsumers : ∀ c' ∈ consumersOf p, c' = s + 1 := fun c' hc' =>
      hall _ (h.mem_edges.mpr ⟨p, s, c', hc', hp, hs, rfl⟩) rfl
    have hrepeat := List.eq_replicate_of_mem hconsumers
    have hle := List.nodup_replicate.mp (hrepeat ▸ h.recorded.nodup p)
    have hpos := List.length_pos_of_mem hc
    rw [hrepeat, show (consumersOf p).length = 1 by omega]
    rfl

theorem Derived.exactFlow (h : Derived program specs consumersOf crossed dag) (haccepted : Accepted program specs)
    (hforward : Forward program.instructions.length (ranges specs)) : ExactFlow program specs dag where
  covered := haccepted.contiguous.coveredOnce_iff.mpr hforward
  backward := haccepted.backward
  shards := by rw [h.shards, List.map_map]; rfl
  edges producer consumer register := by
    rw [h.hasEdge_iff]
    simp only [h.crosses_iff haccepted (haccepted.contiguous.coveredOnce_iff.mpr hforward)]
  once := h.nodup_triples
  direction e he := by
    obtain ⟨p, s, c, hc, hp, hs, rfl⟩ := h.mem_edges.mp he
    obtain ⟨i, s', hread, hi, hs', hne⟩ := (h.recorded.mem p c).mp hc
    rw [hs] at hs'
    cases hs'
    obtain ⟨r, hget, hr⟩ := shardOf_ok hs
    obtain ⟨r', hget', hr'⟩ := shardOf_ok hi
    have hle := haccepted.contiguous.le_of_le hforward hget hr hget' hr' (haccepted.backward i p hread).le hread.lt
    exact lt_of_le_of_ne hle hne
  ids := h.ids_sorted
  kinds _ he := h.kind_iff he
  inputs shard hshard := by
    rw [h.shards] at hshard
    obtain ⟨entry, -, rfl⟩ := List.mem_map.mp hshard
    exact ⟨h.crossings.inputsOf_nodup h.recorded.nodup _, fun register => h.mem_inputsOf⟩
  outputs shard hshard := by
    rw [h.shards] at hshard
    obtain ⟨entry, -, rfl⟩ := List.mem_map.mp hshard
    exact ⟨h.crossings.outputsOf_nodup _, fun register => h.mem_outputsOf⟩

/-- The graph is the data flow exactly if no accepted range steps back to an instruction. -/
theorem derivesFlow_iff_forward (program : CompiledProgram) (specs : List ShardSpec) :
    DerivesFlow program specs ↔ (Accepted program specs → Forward program.instructions.length (ranges specs)) := by
  constructor
  · rintro ⟨-, hflow⟩ haccepted
    obtain ⟨dag, _, _, hok, -⟩ := buildDag_derived haccepted
    exact haccepted.contiguous.coveredOnce_iff.mp (hflow dag hok).covered
  · intro hforward
    refine ⟨buildDag_ne_panicked, fun dag hok => ?_⟩
    have haccepted := buildDag_accepted hok
    obtain ⟨dag', consumersOf, crossed, hok', hderived⟩ := buildDag_derived haccepted
    rw [hok] at hok'
    cases hok'
    exact hderived.exactFlow haccepted (hforward haccepted)

/-- Two instructions without operands. -/
def twoInstructions : CompiledProgram where
  instructions := [⟨.gelu, [], "a"⟩, ⟨.gelu, [], "b"⟩]
  weights := []
  graphInputs := []
  graphOutputs := []

/-- The second range steps back over the second instruction, which the third range takes in again. -/
def rewinding : List ShardSpec := [⟨"all", ⟨0, 2⟩⟩, ⟨"back", ⟨2, 1⟩⟩, ⟨"again", ⟨1, 2⟩⟩]

theorem buildDag_rewinding : (∃ dag, buildDag twoInstructions rewinding = .ok dag) ∧
    ¬CoveredOnce (ranges rewinding) 1 ∧ ¬DerivesFlow twoInstructions rewinding := by
  have hok : ∃ dag, buildDag twoInstructions rewinding = .ok dag := ⟨_, rfl⟩
  have htwice : ¬CoveredOnce (ranges rewinding) 1 := by
    intro honce
    have heq : 0 = 2 := honce.unique ⟨⟨0, 2⟩, rfl, by decide⟩ ⟨⟨1, 2⟩, rfl, by decide⟩
    cases heq
  refine ⟨hok, htwice, fun hflow => ?_⟩
  obtain ⟨dag, hdag⟩ := hok
  exact htwice ((hflow.2 dag hdag).covered 1 (by decide))

end Exact

end Zkie.BuildDag
