import Zkie.DigestBytes
import Zkie.Partition

namespace Zkie.PlanDigest

open BuildDag DigestBytes Encoding GraphCompiler Zkie.Partition
open LittleEndian (toBytes)
open PoseidonBoundary (Blake3 utf8)
open RunDatabase (Digest32)

section Layout

inductive ShardBindingError where
  | duplicateBoundary
  | invalidBoundaryLayout (message : String)
  deriving DecidableEq, Repr

/-- The length of a tensor that is no weight. -/
structure BoundaryTensorSpec where
  register : Register
  elementCount : ℕ
  not_weight : ∀ name, register ≠ .weight name
  count_ne : elementCount ≠ 0

def isWeight : Register → Bool
  | .weight _ => true
  | .graphInput _ => false
  | .virtual _ => false

theorem ne_weight {register : Register} (h : isWeight register = false) (name : String) : register ≠ .weight name := by
  rintro rfl
  cases h

def BoundaryTensorSpec.flat (register : Register) (elementCount : ℕ) : Except ShardBindingError BoundaryTensorSpec :=
  if h : elementCount = 0 ∨ isWeight register = true then
    .error (.invalidBoundaryLayout "boundary specs require a non-weight register and nonzero length")
  else .ok ⟨register, elementCount, ne_weight (Bool.eq_false_iff.mpr fun hw => h (.inr hw)), fun hz => h (.inl hz)⟩

def registerKey : Register → ℕ ×ₗ String ×ₗ ℕ
  | .graphInput name => toLex (0, toLex (name, 0))
  | .virtual index => toLex (1, toLex ("", index))
  | .weight name => toLex (2, toLex (name, 0))

theorem registerKey_injective : Function.Injective registerKey := by
  intro a b h
  cases a <;> cases b <;> simp_all [registerKey]

def BoundaryTensorSpec.key (spec : BoundaryTensorSpec) : ℕ ×ₗ String ×ₗ ℕ := registerKey spec.register

/-- The specs in the order of their registers, at most one for each. -/
@[ext]
structure BoundaryLayout where
  specs : List BoundaryTensorSpec
  sorted : specs.Pairwise (·.key < ·.key)

theorem sorted_of_chain {specs : List BoundaryTensorSpec} (hle : specs.Pairwise (·.key ≤ ·.key))
    (hne : specs.IsChain (·.register ≠ ·.register)) : specs.Pairwise (·.key < ·.key) := by
  apply List.isChain_iff_pairwise.mp
  rw [List.isChain_iff_getElem] at hne ⊢
  intro i hi
  apply lt_of_le_of_ne (List.pairwise_iff_getElem.mp hle i (i + 1) _ hi (Nat.lt_succ_self i))
  intro heq
  exact hne i hi (registerKey_injective heq)

def BoundaryLayout.new (specs : List BoundaryTensorSpec) : Except ShardBindingError BoundaryLayout :=
  let specs := specs.insertionSort (·.key ≤ ·.key)
  if h : specs.IsChain (·.register ≠ ·.register) then .ok ⟨specs, sorted_of_chain (List.pairwise_insertionSort _ _) h⟩
  else .error .duplicateBoundary

def encodeSpec (spec : BoundaryTensorSpec) : List UInt8 :=
  (match spec.register with
    | .graphInput name => 0 :: (encodeU64 name.utf8ByteSize ++ utf8 name)
    | .virtual index => 1 :: encodeU64 index
    -- the constructor rejects weights
    | .weight _ => []) ++ encodeU64 spec.elementCount

def BoundaryLayout.bytes (layout : BoundaryLayout) : List UInt8 :=
  utf8 "zkie.boundary-layout.v1\x00" ++ encodeU64 layout.specs.length ++ layout.specs.flatMap encodeSpec

def BoundaryLayout.digest (blake3 : Blake3) (layout : BoundaryLayout) : Digest32 := ⟨blake3 layout.bytes⟩

end Layout

section Order

/-- A list that is sorted by a key that tells its elements apart is determined by these. -/
theorem eq_of_sorted {α κ : Type} [LinearOrder κ] (key : α → κ) {xs ys : List α} (hxs : xs.Pairwise (key · ≤ key ·))
    (hys : ys.Pairwise (key · ≤ key ·)) (hinj : ∀ a ∈ ys, ∀ b ∈ ys, key a = key b → a = b) (h : xs.Perm ys) : xs = ys := by
  apply List.Perm.eq_of_pairwise _ hxs hys h
  intro a b ha hb hab hba
  exact hinj a (h.mem_iff.mp ha) b hb (le_antisymm hab hba)

/-- The layouts of a list of specs are those with the same specs, of which there is at most one. -/
theorem BoundaryLayout.new_ok_iff {specs : List BoundaryTensorSpec} {layout : BoundaryLayout} :
    BoundaryLayout.new specs = .ok layout ↔ layout.specs.Perm specs := by
  have hperm := List.perm_insertionSort (fun a b : BoundaryTensorSpec => a.key ≤ b.key) specs
  unfold BoundaryLayout.new
  constructor
  · intro h
    dsimp only at h
    split at h
    · cases h
      exact hperm
    · cases h
  · intro h
    have hnodup : (layout.specs.map (·.key)).Nodup := List.pairwise_map.mpr (layout.sorted.imp ne_of_lt)
    have hinj : ∀ a ∈ layout.specs, ∀ b ∈ layout.specs, a.key = b.key → a = b := fun a ha b hb heq =>
      List.inj_on_of_nodup_map hnodup ha hb heq
    have hsort := eq_of_sorted BoundaryTensorSpec.key (List.pairwise_insertionSort _ specs) (layout.sorted.imp le_of_lt) hinj
      (hperm.trans h.symm)
    have hchain : layout.specs.IsChain (·.register ≠ ·.register) := by
      apply layout.sorted.isChain.imp
      intro a b hlt heq
      exact hlt.ne (congrArg registerKey heq)
    simp only [hsort, dif_pos hchain]

theorem BoundaryLayout.new_error {specs : List BoundaryTensorSpec} {e : ShardBindingError}
    (h : BoundaryLayout.new specs = .error e) : e = .duplicateBoundary := by
  unfold BoundaryLayout.new at h
  dsimp only at h
  split at h
  · cases h
  · cases h
    rfl

theorem BoundaryLayout.new_perm {specs specs' : List BoundaryTensorSpec} (h : specs.Perm specs') :
    BoundaryLayout.new specs = BoundaryLayout.new specs' := by
  have hiff : ∀ layout, BoundaryLayout.new specs = .ok layout ↔ BoundaryLayout.new specs' = .ok layout := fun layout => by
    rw [new_ok_iff, new_ok_iff]
    exact ⟨fun hl => hl.trans h, fun hl => hl.trans h.symm⟩
  cases hnew : BoundaryLayout.new specs with
  | ok layout => exact ((hiff layout).mp hnew).symm
  | error e =>
      cases hnew' : BoundaryLayout.new specs' with
      | ok layout => cases hnew.symm.trans ((hiff layout).mpr hnew')
      | error e' => rw [new_error hnew, new_error hnew']

theorem withBoundaryHints_perm (request : PartitionRequest) {hints hints' : List BoundaryHint} (h : hints.Perm hints') :
    request.withBoundaryHints hints = request.withBoundaryHints hints' := by
  have hnodup : (hints.map (·.boundary)).Nodup ↔ (hints'.map (·.boundary)).Nodup := (h.map _).nodup_iff
  unfold PartitionRequest.withBoundaryHints
  by_cases hd : (hints.map (·.boundary)).Nodup
  · have hperm' := List.perm_insertionSort (fun a b : BoundaryHint => hintOrder a ≤ hintOrder b) hints'
    have hsort := eq_of_sorted hintOrder (List.pairwise_insertionSort _ hints) (List.pairwise_insertionSort _ hints')
      (fun a ha b hb heq => List.inj_on_of_nodup_map (hnodup.mp hd) (hperm'.mem_iff.mp ha) (hperm'.mem_iff.mp hb)
        (congrArg (fun key => (ofLex key).1) heq))
      ((List.perm_insertionSort _ hints).trans (h.trans hperm'.symm))
    simp only [dif_pos hd, dif_pos (hnodup.mp hd), hsort]
  · rw [dif_neg hd, dif_neg (mt hnodup.mpr hd)]

end Order

section Bytes

def MachineRegister : Register → Prop
  | .graphInput name => Machine name.utf8ByteSize
  | .weight name => Machine name.utf8ByteSize
  | .virtual index => Machine index

def MachineSpec (spec : BoundaryTensorSpec) : Prop := MachineRegister spec.register ∧ Machine spec.elementCount

structure MachineLayout (layout : BoundaryLayout) : Prop where
  count : Machine layout.specs.length
  specs : ∀ spec ∈ layout.specs, MachineSpec spec

def MachineHint (hint : BoundaryHint) : Prop := Machine hint.boundary ∧ Machine hint.label.utf8ByteSize

structure MachineShard (shard : PlannedShard) : Prop where
  id : Machine shard.id
  name : Machine shard.name.utf8ByteSize
  start : Machine shard.range.start
  stop : Machine shard.range.stop
  estimates : Machine shard.instructionEstimates.length

structure MachineEdge (edge : Edge) : Prop where
  id : Machine (String.ofList edge.id).utf8ByteSize
  producer : Machine edge.producer
  consumer : Machine edge.consumer
  register : MachineRegister edge.register

theorem prefixFree_encodeText : PrefixFree (fun value => Machine value.utf8ByteSize) encodeText := prefixFree_text

theorem prefixFree_encodeRegister : PrefixFree MachineRegister encodeRegister := by
  rintro (a | a | a) (b | b | b) s t ha hb heq
  · obtain ⟨rfl, hst⟩ := prefixFree_encodeText ha hb (List.cons.inj heq).2
    exact ⟨rfl, hst⟩
  · exact absurd (List.cons.inj heq).1 (by decide)
  · exact absurd (List.cons.inj heq).1 (by decide)
  · exact absurd (List.cons.inj heq).1 (by decide)
  · obtain ⟨rfl, hst⟩ := prefixFree_encodeText ha hb (List.cons.inj heq).2
    exact ⟨rfl, hst⟩
  · exact absurd (List.cons.inj heq).1 (by decide)
  · exact absurd (List.cons.inj heq).1 (by decide)
  · exact absurd (List.cons.inj heq).1 (by decide)
  · obtain ⟨rfl, hst⟩ := prefixFree_u64 ha hb (List.cons.inj heq).2
    exact ⟨rfl, hst⟩

/-- A layout holds no weights, so the bytes of its registers are those of `encodeRegister` but for the tag of an index. -/
theorem reveals_register : Reveals MachineSpec (fun spec => match spec.register with
    | .graphInput name => 0 :: (encodeU64 name.utf8ByteSize ++ utf8 name)
    | .virtual index => 1 :: encodeU64 index
    | .weight _ => []) (fun a b => a.register = b.register) := by
  rintro ⟨a | a | a, m, hma, hm⟩ ⟨b | b | b, n, hnb, hn⟩ s t ha hb heq
  · obtain ⟨rfl, hst⟩ := prefixFree_encodeText ha.1 hb.1 (List.cons.inj heq).2
    exact ⟨rfl, hst⟩
  · exact absurd rfl (hnb b)
  · exact absurd (List.cons.inj heq).1 (by decide)
  · exact absurd rfl (hma a)
  · exact absurd rfl (hma a)
  · exact absurd rfl (hma a)
  · exact absurd (List.cons.inj heq).1 (by decide)
  · exact absurd rfl (hnb b)
  · obtain ⟨rfl, hst⟩ := prefixFree_u64 ha.1 hb.1 (List.cons.inj heq).2
    exact ⟨rfl, hst⟩

theorem prefixFree_encodeSpec : PrefixFree MachineSpec encodeSpec := by
  apply Reveals.imp (reveals_register.append (prefixFree_u64.comp BoundaryTensorSpec.elementCount fun spec h => h.2))
  rintro ⟨a, m, _, _⟩ ⟨b, n, _, _⟩ - - ⟨rfl, rfl⟩
  rfl

theorem prefixFree_encodeHint : PrefixFree MachineHint encodeHint := by
  have hboundary := prefixFree_u64.comp BoundaryHint.boundary fun hint (h : MachineHint hint) => h.1
  apply Reveals.imp ((hboundary.append (prefixFree_word32.field BoundaryHint.priority)).append
    (prefixFree_encodeText.comp BoundaryHint.label fun hint h => h.2))
  rintro ⟨a, p, l, _, _⟩ ⟨b, q, m, _, _⟩ - - ⟨⟨rfl, rfl⟩, rfl⟩
  rfl

theorem prefixFree_encodeInstructionEstimate : PrefixFree (fun _ => True) encodeInstructionEstimate := by
  apply Reveals.imp ((prefixFree_word64.field InstructionEstimate.ramBytes).append (prefixFree_word32.field InstructionEstimate.requiredK))
  rintro ⟨a, k⟩ ⟨b, l⟩ - - ⟨rfl, rfl⟩
  rfl

theorem prefixFree_encodeEstimate : PrefixFree (fun _ => True) encodeEstimate := by
  apply Reveals.imp ((prefixFree_word64.field ShardEstimate.ramBytes).append (prefixFree_word32.field ShardEstimate.requiredK))
  rintro ⟨a, k⟩ ⟨b, l⟩ - - ⟨rfl, rfl⟩
  rfl

theorem prefixFree_encodeShard : PrefixFree MachineShard encodeShard := by
  have hid := prefixFree_u64.comp PlannedShard.id fun shard (h : MachineShard shard) => h.id
  have hname := hid.append (prefixFree_encodeText.comp PlannedShard.name fun shard h => h.name)
  have hstart := hname.append (prefixFree_u64.comp (fun shard : PlannedShard => shard.range.start) fun shard h => h.start)
  have hstop := hstart.append (prefixFree_u64.comp (fun shard : PlannedShard => shard.range.stop) fun shard h => h.stop)
  have hestimate := hstop.append (prefixFree_encodeEstimate.field PlannedShard.estimate)
  apply Reveals.imp (hestimate.counted prefixFree_encodeInstructionEstimate 8 PlannedShard.instructionEstimates
    fun shard h => ⟨h.estimates, fun _ _ => trivial⟩)
  rintro ⟨i, n, ⟨a, b⟩, e, es⟩ ⟨j, m, ⟨c, d⟩, f, fs⟩ - - ⟨⟨⟨⟨⟨rfl, rfl⟩, rfl⟩, rfl⟩, rfl⟩, rfl⟩
  rfl

theorem encodeKind_injective : Function.Injective encodeKind := by
  rintro (_ | _) (_ | _) h
  · rfl
  · cases h
  · cases h
  · rfl

theorem prefixFree_encodeEdge : PrefixFree MachineEdge encodeEdge := by
  have hid := prefixFree_encodeText.comp (fun edge : Edge => String.ofList edge.id) fun edge (h : MachineEdge edge) => h.id
  have hproducer := hid.append (prefixFree_u64.comp Edge.producer fun edge h => h.producer)
  have hconsumer := hproducer.append (prefixFree_u64.comp Edge.consumer fun edge h => h.consumer)
  have hregister := hconsumer.append (prefixFree_encodeRegister.comp Edge.register fun edge h => h.register)
  apply Reveals.imp (hregister.append ((prefixFree_tag encodeKind_injective).field Edge.kind))
  rintro ⟨i, p, c, r, k⟩ ⟨j, q, d, s, l⟩ - - ⟨⟨⟨⟨htext, rfl⟩, rfl⟩, rfl⟩, rfl⟩
  obtain rfl : i = j := String.ofList_injective htext
  rfl

theorem prefixFree_encodeLayout : PrefixFree (fun _ => True) encodeLayout :=
  Reveals.mono (prefixFree_digest.option rfl fun _ => rfl) fun _ _ _ _ => trivial

end Bytes

section Canonical

/-- What `planDigest` hashes. -/
structure Preimage where
  request : PartitionRequest
  shards : List PlannedShard
  dag : Dag

/-- The edges in the order in which they are written. -/
def Preimage.sortedEdges (p : Preimage) : List Edge := p.dag.edges.insertionSort (·.id ≤ ·.id)

theorem Preimage.perm_sortedEdges (p : Preimage) : p.sortedEdges.Perm p.dag.edges := List.perm_insertionSort _ _

def Preimage.bytes (p : Preimage) : List UInt8 :=
  utf8 "zkie.partition-plan.v1\x00" ++ p.request.modelDigest.bytes.toList ++ encodeText p.request.compilerVersion ++
    encodeU64 p.request.targetShardRamBytes.toNat ++ encodeU32 p.request.maxK ++ encodeText p.request.costModel.identity ++
    encodeU32 p.request.costModel.version ++ encodeLayout p.request.boundaryLayoutDigest ++
    encodeU64 p.request.boundaryHints.length ++ p.request.boundaryHints.flatMap encodeHint ++
    encodeU64 p.shards.length ++ p.shards.flatMap encodeShard ++
    encodeU64 p.sortedEdges.length ++ p.sortedEdges.flatMap encodeEdge

theorem planDigest_eq (blake3 : Blake3) (request : PartitionRequest) (shards : List PlannedShard) (dag : Dag) :
    planDigest blake3 request shards dag = ⟨blake3 (Preimage.mk request shards dag).bytes⟩ := by
  rw [Preimage.bytes, (Preimage.perm_sortedEdges _).length_eq]
  rfl

structure Preimage.Machine (p : Preimage) : Prop where
  version : DigestBytes.Machine p.request.compilerVersion.utf8ByteSize
  identity : DigestBytes.Machine p.request.costModel.identity.utf8ByteSize
  hintCount : DigestBytes.Machine p.request.boundaryHints.length
  hints : ∀ hint ∈ p.request.boundaryHints, MachineHint hint
  shardCount : DigestBytes.Machine p.shards.length
  shards : ∀ shard ∈ p.shards, MachineShard shard
  edgeCount : DigestBytes.Machine p.dag.edges.length
  edges : ∀ edge ∈ p.dag.edges, MachineEdge edge

/-- Two plans agree in everything that the digest covers; the edges as a set. -/
structure Preimage.Same (p q : Preimage) : Prop where
  modelDigest : p.request.modelDigest = q.request.modelDigest
  compilerVersion : p.request.compilerVersion = q.request.compilerVersion
  targetShardRamBytes : p.request.targetShardRamBytes = q.request.targetShardRamBytes
  maxK : p.request.maxK = q.request.maxK
  identity : p.request.costModel.identity = q.request.costModel.identity
  version : p.request.costModel.version = q.request.costModel.version
  boundaryLayoutDigest : p.request.boundaryLayoutDigest = q.request.boundaryLayoutDigest
  boundaryHints : p.request.boundaryHints = q.request.boundaryHints
  shards : p.shards = q.shards
  edges : p.dag.edges.Perm q.dag.edges

theorem Preimage.sortedEdges_eq {p q : Preimage} (hids : (p.dag.edges.map (·.id)).Nodup) (h : p.dag.edges.Perm q.dag.edges) :
    p.sortedEdges = q.sortedEdges := by
  apply eq_of_sorted Edge.id (List.pairwise_insertionSort _ _) (List.pairwise_insertionSort _ _) _
    (p.perm_sortedEdges.trans (h.trans q.perm_sortedEdges.symm))
  intro a ha b hb heq
  have ha := h.mem_iff.mpr (q.perm_sortedEdges.mem_iff.mp ha)
  have hb := h.mem_iff.mpr (q.perm_sortedEdges.mem_iff.mp hb)
  exact List.inj_on_of_nodup_map hids ha hb heq

theorem Preimage.bytes_reveal : Reveals Preimage.Machine Preimage.bytes fun p q => p.Same q := by
  have hdomain : Reveals Preimage.Machine (fun _ => utf8 "zkie.partition-plan.v1\x00") _ := reveals_const _
  have hmodel := hdomain.append (prefixFree_digest.field fun p : Preimage => p.request.modelDigest)
  have hversion := hmodel.append (prefixFree_encodeText.comp (fun p : Preimage => p.request.compilerVersion) fun p h => h.version)
  have hram := hversion.append (prefixFree_word64.field fun p : Preimage => p.request.targetShardRamBytes)
  have hk := hram.append (prefixFree_word32.field fun p : Preimage => p.request.maxK)
  have hidentity := hk.append
    (prefixFree_encodeText.comp (fun p : Preimage => p.request.costModel.identity) fun p h => h.identity)
  have hcost := hidentity.append (prefixFree_word32.field fun p : Preimage => p.request.costModel.version)
  have hlayout := hcost.append (prefixFree_encodeLayout.field fun p : Preimage => p.request.boundaryLayoutDigest)
  have hhints := hlayout.counted prefixFree_encodeHint 8 (fun p : Preimage => p.request.boundaryHints)
    fun p h => ⟨h.hintCount, h.hints⟩
  have hshards := hhints.counted prefixFree_encodeShard 8 Preimage.shards fun p h => ⟨h.shardCount, h.shards⟩
  have hedges := hshards.counted prefixFree_encodeEdge 8 Preimage.sortedEdges fun p h =>
    ⟨p.perm_sortedEdges.length_eq ▸ h.edgeCount, fun edge hedge => h.edges edge (p.perm_sortedEdges.mem_iff.mp hedge)⟩
  apply hedges.imp
  rintro p q - - ⟨⟨⟨⟨⟨⟨⟨⟨⟨⟨-, hmodel⟩, hversion⟩, hram⟩, hk⟩, hidentity⟩, hcost⟩, hlayout⟩, hhints⟩, hshards⟩, hedges⟩
  have hperm : p.dag.edges.Perm q.dag.edges :=
    (p.perm_sortedEdges.symm.trans (List.Perm.of_eq hedges)).trans q.perm_sortedEdges
  exact ⟨hmodel, hversion, hram, hk, hidentity, hcost, hlayout, hhints, hshards, hperm⟩

theorem Preimage.bytes_eq {p q : Preimage} {program : CompiledProgram} {specs : List ShardSpec}
    (hdag : buildDag program specs = .ok p.dag) (h : p.Same q) : p.bytes = q.bytes := by
  obtain ⟨dag, consumersOf, crossed, hok, hderived⟩ := buildDag_derived (buildDag_accepted hdag)
  rw [hdag] at hok
  cases hok
  have hids : (p.dag.edges.map (·.id)).Nodup := hderived.ids_sorted.imp ne_of_lt
  rw [Preimage.bytes, Preimage.bytes, h.modelDigest, h.compilerVersion, h.targetShardRamBytes, h.maxK, h.identity, h.version,
    h.boundaryLayoutDigest, h.boundaryHints, h.shards, Preimage.sortedEdges_eq hids h.edges]

theorem BoundaryLayout.bytes_injective {a b : BoundaryLayout} (ha : MachineLayout a) (hb : MachineLayout b)
    (h : a.bytes = b.bytes) : a = b := by
  have hdomain : Reveals MachineLayout (fun _ => utf8 "zkie.boundary-layout.v1\x00") _ := reveals_const _
  have hspecs := hdomain.counted prefixFree_encodeSpec 8 BoundaryLayout.specs fun layout h => ⟨h.count, h.specs⟩
  exact BoundaryLayout.ext (hspecs.of_eq ha hb h).2

/-- A plan digest covers what it should and nothing depends on an order of input. -/
theorem digests_canonical (blake3 : Blake3) :
    (∀ request shards dag, planDigest blake3 request shards dag = ⟨blake3 (Preimage.mk request shards dag).bytes⟩) ∧
    (∀ p q : Preimage, p.Machine → q.Machine → p.bytes = q.bytes → p.Same q) ∧
    (∀ p q : Preimage, ∀ program specs, buildDag program specs = .ok p.dag → p.Same q → p.bytes = q.bytes) ∧
    (∀ (request : PartitionRequest) (hints hints' : List BoundaryHint), hints.Perm hints' →
      request.withBoundaryHints hints = request.withBoundaryHints hints') ∧
    (∀ layout : BoundaryLayout, layout.digest blake3 = ⟨blake3 layout.bytes⟩) ∧
    (∀ a b : BoundaryLayout, MachineLayout a → MachineLayout b → a.bytes = b.bytes → a = b) ∧
    (∀ specs specs' : List BoundaryTensorSpec, specs.Perm specs' → BoundaryLayout.new specs = BoundaryLayout.new specs') :=
  ⟨planDigest_eq blake3, fun _ _ => Preimage.bytes_reveal.of_eq, fun _ _ _ _ => Preimage.bytes_eq,
    fun request _ _ => withBoundaryHints_perm request, fun _ => rfl, fun _ _ => BoundaryLayout.bytes_injective,
    fun _ _ => BoundaryLayout.new_perm⟩

def imageInput : BoundaryTensorSpec := ⟨.graphInput "image", 4, ne_weight rfl, Nat.succ_ne_zero 3⟩

def firstOutput : BoundaryTensorSpec := ⟨.virtual 0, 2, ne_weight rfl, Nat.succ_ne_zero 1⟩

def emptyPreimage : Preimage := ⟨oneByte, [], ⟨[], []⟩⟩

theorem emptyPreimage_machine : emptyPreimage.Machine where
  version := by decide
  identity := by decide
  hintCount := by decide
  hints := by simp [emptyPreimage, oneByte]
  shardCount := by decide
  shards := by simp [emptyPreimage]
  edgeCount := by decide
  edges := by simp [emptyPreimage]

theorem digests_canonical_two : emptyPreimage.Same emptyPreimage ∧
    BoundaryLayout.new [firstOutput, imageInput] = BoundaryLayout.new [imageInput, firstOutput] := by
  obtain ⟨-, hinj, -, -, -, -, hnew⟩ := digests_canonical fun _ => Vector.replicate 32 0
  exact ⟨hinj _ _ emptyPreimage_machine emptyPreimage_machine rfl, hnew _ _ (List.Perm.swap _ _ _)⟩

/-- Graph inputs come before the outputs of instructions. -/
example : (BoundaryLayout.new [firstOutput, imageInput]).map (·.specs.map (·.register)) =
    .ok [.graphInput "image", .virtual 0] := by decide +kernel

end Canonical

end Zkie.PlanDigest
