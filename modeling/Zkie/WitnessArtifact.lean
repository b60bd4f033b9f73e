import Zkie.JsonText
import Zkie.WitnessSetup

namespace Zkie.WitnessArtifact

open AggregationDigest (RunIdentity)
open BuildDag (Shard registerSortKey)
open Checked
open FixedPoint (I18)
open GraphCompiler (CompiledProgram Register)
open JsonText (array number object string)
open Onnx (orElse)
open OrderedMap (collect_ok_iff insertUnique project total)
open PoseidonBoundary (Blake3 utf8)
open RunDatabase (Digest32)
open Std (ExtTreeMap ExtTreeSet)
open VerifyProof (ShardIdentity WitnessArtifact flatDigest flatHash validText)
open WitnessExecution WitnessSetup

section Wire

def inputSchemaVersion : UInt32 := 1

def artifactSchemaVersion : UInt32 := 1

inductive RegisterWire where
  | graphInput (name : String)
  | weight (name : String)
  | virtual (index : ℕ)
  deriving DecidableEq, Repr

def RegisterWire.fromRegister : Register → RegisterWire
  | .graphInput name => .graphInput name
  | .weight name => .weight name
  | .virtual index => .virtual index

def RegisterWire.intoRegister : RegisterWire → Register
  | .graphInput name => .graphInput name
  | .weight name => .weight name
  | .virtual index => .virtual index

/-- An `i64` on the wire stands for the value with these bits. -/
structure RegisterValueWire where
  register : RegisterWire
  rawValues : List I18
  deriving DecidableEq

structure IndexedValueWire where
  index : ℕ
  rawValues : List I18
  deriving DecidableEq

structure CpuWitnessArtifactWire where
  schemaVersion : UInt32
  runIdentity : RunIdentity
  runIdentityDigest : Digest32
  shardIdentity : ShardIdentity
  circuitDigest : Digest32
  inputs : List RegisterValueWire
  virtuals : List IndexedValueWire
  outputs : List IndexedValueWire
  deriving DecidableEq

structure CpuWitnessInputWire where
  schemaVersion : UInt32
  graphInputs : Values String
  virtualInputs : Values ℕ

/-- The library that writes and reads the JSON texts. -/
structure SerdeJson where
  toVec : CpuWitnessArtifactWire → Option (List UInt8)
  artifactFromSlice : List UInt8 → Option CpuWitnessArtifactWire
  inputFromSlice : List UInt8 → Option CpuWitnessInputWire

/-- Reading a text that was written gives back what was written. -/
def SerdeJson.Inverts (serde : SerdeJson) : Prop :=
  ∀ wire bytes, serde.toVec wire = some bytes → serde.artifactFromSlice bytes = some wire

def registerEntry (entry : Register × List I18) : RegisterValueWire := ⟨.fromRegister entry.1, entry.2⟩

def rawIndexed (values : Values ℕ) : List IndexedValueWire := values.toList.map fun entry => ⟨entry.1, entry.2⟩

/-- The inputs come in the order of their keys, which is that of the sort key. -/
def wireOf (a : CpuWitnessArtifact) : CpuWitnessArtifactWire where
  schemaVersion := artifactSchemaVersion
  runIdentity := a.runIdentity
  runIdentityDigest := a.runIdentityDigest
  shardIdentity := a.shardIdentity
  circuitDigest := a.shardIdentity.circuitDigest
  inputs := a.inputs.toList.map registerEntry
  virtuals := rawIndexed a.virtuals
  outputs := rawIndexed a.outputs

def artifactFormat : String := "zkie-cpu-witness-artifact-json-v1"

def inputFormat : String := "zkie-cpu-witness-input-json-v1"

def toJson (serde : SerdeJson) (a : CpuWitnessArtifact) : Except BackendError (List UInt8) := do
  let _ ← validateArtifactRecordCount a.inputs.size a.virtuals.size a.outputs.size a.recordLimit
  orElse (.serialization artifactFormat) (serde.toVec (wireOf a))

end Wire

section Files

/-- The regular files under their paths. -/
abbrev Files : Type := String → Option (List UInt8)

def readBounded (files : Files) (path : String) (maxBytes : UInt64) : Except BackendError (List UInt8) := do
  let bytes ← orElse (.io "open_regular" path) (files path)
  refuseIf (maxBytes.toNat < bytes.length) (.resource s!"{path} is {bytes.length} bytes, limit is {maxBytes}")
  return bytes

/-- What the disk does: the bytes of a file that was written to it, and the steps that publish it. -/
structure Disk where
  readBack : List UInt8 → Except BackendError (List UInt8)
  publish : Except BackendError Unit

/-- The bytes go to a new file, which gets the path as its second name when no file has it, and then loses the first one. -/
def writeExclusiveAndHash (blake3 : Blake3) (disk : Disk) (files : Files) (path : String) (bytes : List UInt8)
    (maxBytes : UInt64) : Except BackendError (Digest32 × Files) := do
  let persisted ← disk.readBack bytes
  refuseIf (maxBytes.toNat < persisted.length ∨ persisted ≠ bytes) (.io "verify_write" path)
  refuseIf (files path ≠ none) (.io "publish_no_clobber" path)
  disk.publish
  return (⟨blake3 persisted⟩, Function.update files path (some persisted))

end Files

section Backend

structure WitnessJob where
  runIdentity : RunIdentity
  shard : ShardIdentity
  witnessInputPath : String
  expectedCircuitDigest : Digest32
  path : validText witnessInputPath = .ok ()
  circuit : shard.circuitDigest = expectedCircuitDigest

def newWitnessArtifact (path : String) (digest : Digest32) (shard : ShardIdentity) (circuitDigest : Digest32) :
    Except BackendError WitnessArtifact := do
  (validText path).mapError ofVerify
  if h : shard.circuitDigest = circuitDigest then return ⟨path, digest, shard, circuitDigest, h⟩
  else throw (.invalidJob "witness artifact circuit mismatch")

variable (b : BackendParts) (floats : HostFloats) (blake3 : Blake3) (serde : SerdeJson)

def validateJob (job : WitnessJob) : Except BackendError Unit :=
  refuseIf (job.runIdentity ≠ b.runIdentity ∨ job.shard ≠ b.shardIdentity ∨
    job.expectedCircuitDigest ≠ b.shardIdentity.circuitDigest)
    (.invalidJob "witness job does not match configured shard/circuit")

/-- The inputs that a job names, executed and written. -/
def generate (disk : Disk) (files : Files) (job : WitnessJob) (output : String) :
    Except BackendError (WitnessArtifact × Files) := do
  validateJob b job
  let bytes ← readBounded files job.witnessInputPath b.limits.inputBytes
  let wire ← orElse (.serialization inputFormat) (serde.inputFromSlice bytes)
  refuseIf (wire.schemaVersion ≠ inputSchemaVersion) (.serialization inputFormat)
  let artifact ← execute b ⟨wire.graphInputs, wire.virtualInputs⟩ floats blake3
  let encoded ← toJson serde artifact
  refuseIf (b.limits.artifactBytes.toNat < encoded.length)
    (.resource s!"CPU witness artifact is {encoded.length} bytes, limit is {b.limits.artifactBytes}")
  let (digest, files) ← writeExclusiveAndHash blake3 disk files output encoded b.limits.artifactBytes
  let artifact ← newWitnessArtifact output digest job.shard b.shardIdentity.circuitDigest
  return (artifact, files)

def intoRegisters (raw : List RegisterValueWire) : Except BackendError (Values Register) :=
  (raw.map fun entry => (entry.register.intoRegister, entry.rawValues)).foldlM
    (insertUnique (.invalidRegister "duplicate artifact input register")) ∅

def intoI18Indexed (raw : List IndexedValueWire) (label : String) : Except BackendError (Values ℕ) :=
  (raw.map fun entry => (entry.index, entry.rawValues)).foldlM
    (insertUnique fun index => .invalidJob s!"duplicate artifact {label} index {index}") ∅

def expectedArtifactInputs : ExtTreeSet Register :=
  ExtTreeSet.ofList (b.requiredGraphInputs.toList.map Register.graphInput ++ b.weights.keys.map Register.weight ++
    b.requiredVirtualInputs.toList.map Register.virtual)

def graphName : Register → Option String
  | .graphInput name => some name
  | .weight _ => none
  | .virtual _ => none

/-- The inputs that do not belong to the program. -/
def suppliedOf (inputs : Values Register) : CpuWitnessInputs := ⟨project graphName inputs, project virtualIndex inputs⟩

def checkOutputValue (virtuals : Values ℕ) (entry : ℕ × List I18) : Except BackendError Unit :=
  refuseIf (virtuals[entry.1]? ≠ some entry.2) (.invalidJob s!"artifact output Virtual({entry.1}) differs from its virtual")

def decodeArtifactWire (wire : CpuWitnessArtifactWire) : Except BackendError CpuWitnessArtifact := do
  refuseIf (wire.schemaVersion ≠ artifactSchemaVersion ∨ wire.runIdentity ≠ b.runIdentity ∨
      wire.runIdentityDigest ≠ wire.runIdentity.canonicalDigest blake3 ∨
      wire.runIdentityDigest ≠ b.runIdentity.canonicalDigest blake3 ∨ wire.shardIdentity ≠ b.shardIdentity ∨
      wire.circuitDigest ≠ b.shardIdentity.circuitDigest)
    (.invalidJob "CPU witness artifact identity/schema mismatch")
  let inputs ← intoRegisters wire.inputs
  let virtuals ← intoI18Indexed wire.virtuals "virtual"
  let outputs ← intoI18Indexed wire.outputs "output"
  let records ← validateArtifactRecordCount inputs.size virtuals.size outputs.size b.limits.tensorCount
  refuseIf (records ≠ b.artifactRecordCount) (.invalidJob "CPU witness artifact record count mismatch")
  validateTensorCollection (tensors inputs ++ tensors virtuals ++ tensors outputs) b.limits.tensorCount
    b.limits.valuesPerTensor b.limits.totalArtifactValues "CPU witness artifact"
  refuseIf (inputs.keys ≠ (expectedArtifactInputs b).toList ∨
      virtuals.keys ≠ (ExtTreeSet.ofList (indices b.shard)).toList ∨ outputs.keys ≠ (requiredOutputs b).toList)
    (.invalidJob "CPU witness artifact register coverage mismatch")
  outputs.toList.forM (checkOutputValue virtuals)
  let recomputed ← execute b (suppliedOf inputs) floats blake3
  refuseIf (recomputed.inputs.toList ≠ inputs.toList ∨ recomputed.virtuals.toList ≠ virtuals.toList ∨
      recomputed.outputs.toList ≠ outputs.toList)
    (.invalidJob "CPU witness artifact values do not match deterministic execution")
  return {
    shard := b.shard
    shardIdentity := wire.shardIdentity
    runIdentity := wire.runIdentity
    runIdentityDigest := wire.runIdentityDigest
    inputs
    virtuals
    outputs
    recordLimit := b.limits.tensorCount }

def loadArtifact (files : Files) (artifact : WitnessArtifact) : Except BackendError CpuWitnessArtifact := do
  refuseIf (artifact.shard ≠ b.shardIdentity ∨ artifact.circuitDigest ≠ b.shardIdentity.circuitDigest)
    (.invalidJob "witness artifact metadata does not match configured backend")
  let bytes ← readBounded files artifact.path b.limits.artifactBytes
  refuseIf ((⟨blake3 bytes⟩ : Digest32) ≠ artifact.digest) (.invalidJob "witness artifact file digest mismatch")
  let wire ← orElse (.serialization artifactFormat) (serde.artifactFromSlice bytes)
  decodeArtifactWire b floats blake3 wire

end Backend

section Limits

variable {maxTensors maxPerTensor maxTotal : UInt64} {label : String} {seen seen' : ℕ × ℕ}

theorem countTensor_ok {tensor : List I18} :
    countTensor maxTensors maxPerTensor maxTotal label seen tensor = .ok seen' ↔
      seen' = (seen.1 + 1, seen.2 + tensor.length) ∧ seen.1 + 1 ≤ maxTensors.toNat ∧
        tensor.length ≤ maxPerTensor.toNat ∧ seen.2 + tensor.length ≤ maxTotal.toNat := by
  have htensors := maxTensors.toNat_lt
  have htotal := maxTotal.toNat_lt
  constructor
  · intro h
    obtain ⟨_, -, h⟩ := bind_eq_ok.mp h
    obtain ⟨_, hcount, h⟩ := bind_eq_ok.mp h
    obtain ⟨_, -, h⟩ := bind_eq_ok.mp h
    obtain ⟨_, hsum, h⟩ := bind_eq_ok.mp h
    cases h
    rw [refuseIf_ok, not_or, Nat.not_lt, Nat.not_lt] at hcount
    exact ⟨rfl, hcount.1, hcount.2, Nat.not_lt.mp (refuseIf_ok.mp hsum)⟩
  · rintro ⟨rfl, hcount, hsize, hsum⟩
    refine bind_eq_ok.mpr ⟨(), refuseIf_ok.mpr (by omega), bind_eq_ok.mpr ⟨(), refuseIf_ok.mpr (by omega),
      bind_eq_ok.mpr ⟨(), refuseIf_ok.mpr (by omega), bind_eq_ok.mpr ⟨(), refuseIf_ok.mpr (by omega), rfl⟩⟩⟩⟩

/-- The lengths of all tensors together. -/
def valueCount (ts : List (List I18)) : ℕ := (ts.map List.length).sum

theorem countTensors_ok {ts : List (List I18)} (hcount : seen.1 + ts.length ≤ maxTensors.toNat)
    (hsize : ∀ t ∈ ts, t.length ≤ maxPerTensor.toNat) (hsum : seen.2 + valueCount ts ≤ maxTotal.toNat) :
    ∃ seen', ts.foldlM (countTensor maxTensors maxPerTensor maxTotal label) seen = .ok seen' := by
  induction ts generalizing seen with
  | nil => exact ⟨seen, rfl⟩
  | cons t ts ih =>
      rw [valueCount, List.map_cons, List.sum_cons, ← valueCount] at hsum
      rw [List.length_cons] at hcount
      have hstep : countTensor maxTensors maxPerTensor maxTotal label seen t = .ok (seen.1 + 1, seen.2 + t.length) :=
        countTensor_ok.mpr ⟨rfl, by omega, hsize t List.mem_cons_self, by omega⟩
      have hrest : ∃ seen', ts.foldlM (countTensor maxTensors maxPerTensor maxTotal label)
          (seen.1 + 1, seen.2 + t.length) = .ok seen' :=
        ih (by dsimp only; omega) (fun u hu => hsize u (List.mem_cons_of_mem _ hu)) (by dsimp only; omega)
      obtain ⟨seen', hrest⟩ := hrest
      exact ⟨seen', by rw [List.foldlM_cons]; exact bind_eq_ok.mpr ⟨_, hstep, hrest⟩⟩

theorem validateTensorCollection_ok {ts : List (List I18)} (hcount : ts.length ≤ maxTensors.toNat)
    (hsize : ∀ t ∈ ts, t.length ≤ maxPerTensor.toNat) (hsum : valueCount ts ≤ maxTotal.toNat) :
    validateTensorCollection ts maxTensors maxPerTensor maxTotal label = .ok () := by
  have hcounted : ∃ seen', ts.foldlM (countTensor maxTensors maxPerTensor maxTotal label) (0, 0) = .ok seen' :=
    countTensors_ok (by dsimp only; omega) hsize (by dsimp only; omega)
  obtain ⟨seen', hcounted⟩ := hcounted
  exact bind_eq_ok.mpr ⟨seen', hcounted, rfl⟩

theorem size_le_of_validated {ts : List (List I18)}
    (h : validateTensorCollection ts maxTensors maxPerTensor maxTotal label = .ok ()) {t : List I18} (ht : t ∈ ts) :
    t.length ≤ maxPerTensor.toNat := by
  obtain ⟨_, hcounted, -⟩ := bind_eq_ok.mp h
  obtain ⟨_, _, hstep⟩ := foldlM_ok_step hcounted ht
  exact (countTensor_ok.mp hstep).2.2.1

end Limits

section Coverage

variable {b : BackendParts} {supplied : CpuWitnessInputs} {floats : HostFloats} {blake3 : Blake3} {a : CpuWitnessArtifact}

/-- The registers that a shard reads and does not write. -/
def External (b : BackendParts) (r : Register) : Prop := r ∈ reads b.program (indices b.shard) ∧ ¬IsLocal b r

theorem mem_inputs (h : Executed b supplied blake3 a) (r : Register) : r ∈ a.inputs ↔ External b r := by
  constructor
  · intro hr
    obtain ⟨v, hv⟩ := getElem?_of_mem hr
    obtain ⟨hread, hexternal, -⟩ := (h.boundary r v).mp hv
    exact ⟨hread, hexternal⟩
  · rintro ⟨hread, hexternal⟩
    exact h.covered r hread hexternal

theorem getElem?_inputs (h : Executed b supplied blake3 a) {r : Register} (hr : External b r) :
    a.inputs[r]? = externalValue b supplied r := by
  obtain ⟨v, hv⟩ := getElem?_of_mem ((mem_inputs h r).mpr hr)
  rw [hv, ((h.boundary r v).mp hv).2.2]

theorem mem_expectedArtifactInputs (hb : Configured b) (r : Register) : r ∈ expectedArtifactInputs b ↔ External b r := by
  rw [expectedArtifactInputs, ExtTreeSet.mem_ofList, List.contains_iff_mem, List.mem_append, List.mem_append]
  cases r with
  | graphInput name => simp [External, IsLocal, ← hb.scanned.graphInputs]
  | weight name => simp [External, IsLocal, ← hb.scanned.weights]
  | «virtual» i =>
      have hmem := hb.scanned.virtualInputs i
      dsimp only at hmem
      simp [External, IsLocal, hmem, and_comm]

/-- The keys of the supplied maps are those that the shard asks for. -/
theorem validated_keys (h : validateSuppliedInputs b supplied = .ok ()) :
    (∀ name, name ∈ supplied.graphInputs ↔ name ∈ b.requiredGraphInputs) ∧
      ∀ i, i ∈ supplied.virtualInputs ↔ i ∈ b.requiredVirtualInputs := by
  rw [validateSuppliedInputs] at h
  split at h
  · cases h
  · split at h
    · cases h
    · obtain ⟨_, hkeys, -⟩ := bind_eq_ok.mp h
      rw [refuseIf_ok, not_or, not_not, not_not] at hkeys
      exact ⟨OrderedMap.keys_eq_toList.mp hkeys.1, OrderedMap.keys_eq_toList.mp hkeys.2⟩

theorem validated_sizes (h : validateSuppliedInputs b supplied = .ok ()) {t : List I18}
    (ht : t ∈ tensors supplied.graphInputs ++ tensors supplied.virtualInputs) :
    t.length ≤ b.limits.valuesPerTensor.toNat := by
  rw [validateSuppliedInputs] at h
  split at h
  · cases h
  · split at h
    · cases h
    · obtain ⟨_, -, h⟩ := bind_eq_ok.mp h
      obtain ⟨_, -, h⟩ := bind_eq_ok.mp h
      exact size_le_of_validated h ht

theorem mem_tensors {κ : Type} [Ord κ] [Std.TransOrd κ] [Std.LawfulEqOrd κ] {values : Values κ} {t : List I18} :
    t ∈ tensors values ↔ ∃ k : κ, values[k]? = some t := by
  simp [tensors, ExtTreeMap.mem_toList_iff_getElem?_eq_some]

/-- What an artifact says about its inputs is what was supplied. -/
theorem suppliedOf_inputs (hb : Configured b) (h : Executed b supplied blake3 a) : suppliedOf a.inputs = supplied := by
  obtain ⟨hgraph, hvirtual⟩ := validated_keys h.validated
  have hgraphs : (suppliedOf a.inputs).graphInputs = supplied.graphInputs := by
    apply ExtTreeMap.ext_getElem?
    intro name
    rw [suppliedOf, OrderedMap.getElem?_project (g := Register.graphInput) fun r k => by cases r <;> simp [graphName]]
    by_cases hname : name ∈ supplied.graphInputs
    · exact getElem?_inputs h ⟨(hb.scanned.graphInputs name).mp ((hgraph name).mp hname), id⟩
    · rw [ExtTreeMap.getElem?_eq_none hname]
      apply ExtTreeMap.getElem?_eq_none
      intro hmem
      exact hname ((hgraph name).mpr ((hb.scanned.graphInputs name).mpr ((mem_inputs h _).mp hmem).1))
  have hvirtuals : (suppliedOf a.inputs).virtualInputs = supplied.virtualInputs := by
    apply ExtTreeMap.ext_getElem?
    intro i
    rw [suppliedOf, OrderedMap.getElem?_project (g := Register.virtual) fun r k => virtualIndex_eq_some]
    by_cases hi : i ∈ supplied.virtualInputs
    · obtain ⟨hbefore, hread⟩ := (hb.scanned.virtualInputs i).mp ((hvirtual i).mp hi)
      exact getElem?_inputs h ⟨hread, Nat.not_le.mpr hbefore⟩
    · rw [ExtTreeMap.getElem?_eq_none hi]
      apply ExtTreeMap.getElem?_eq_none
      intro hmem
      obtain ⟨hread, hexternal⟩ := (mem_inputs h _).mp hmem
      exact hi ((hvirtual i).mpr ((hb.scanned.virtualInputs i).mpr ⟨Nat.not_le.mp hexternal, hread⟩))
  exact congrArg₂ CpuWitnessInputs.mk hgraphs hvirtuals

/-- Every tensor of an artifact has the length that a tensor may have. -/
theorem artifact_sizes (hb : Configured b) (h : Executed b supplied blake3 a) {t : List I18}
    (ht : t ∈ tensors a.inputs ++ tensors a.virtuals ++ tensors a.outputs) :
    t.length ≤ b.limits.valuesPerTensor.toNat := by
  rcases List.mem_append.mp ht with ht | ht
  · rcases List.mem_append.mp ht with ht | ht
    · obtain ⟨r, hr⟩ := mem_tensors.mp ht
      obtain ⟨-, -, hvalue⟩ := (h.boundary r t).mp hr
      cases r with
      | graphInput name => exact validated_sizes h.validated (List.mem_append_left _ (mem_tensors.mpr ⟨name, hvalue⟩))
      | weight name => exact hb.scanned.sizes name t hvalue
      | «virtual» i => exact validated_sizes h.validated (List.mem_append_right _ (mem_tensors.mpr ⟨i, hvalue⟩))
    · obtain ⟨i, hi⟩ := mem_tensors.mp ht
      exact h.sizes i t hi
  · obtain ⟨i, hi⟩ := mem_tensors.mp ht
    exact h.sizes i t (h.outputs i t hi)

end Coverage

section RoundTrip

variable {b : BackendParts} {supplied : CpuWitnessInputs} {floats : HostFloats} {blake3 : Blake3} {a : CpuWitnessArtifact}
  {wire : CpuWitnessArtifactWire}

theorem intoRegister_fromRegister (r : Register) : (RegisterWire.fromRegister r).intoRegister = r := by
  cases r <;> rfl

theorem intoRegisters_ok {raw : List RegisterValueWire} {inputs : Values Register} :
    intoRegisters raw = .ok inputs ↔ inputs.toList.Perm (raw.map fun entry => (entry.register.intoRegister, entry.rawValues)) :=
  collect_ok_iff

theorem intoI18Indexed_ok {raw : List IndexedValueWire} {label : String} {values : Values ℕ} :
    intoI18Indexed raw label = .ok values ↔ values.toList.Perm (raw.map fun entry => (entry.index, entry.rawValues)) :=
  collect_ok_iff

theorem intoRegisters_toList (inputs : Values Register) : intoRegisters (inputs.toList.map registerEntry) = .ok inputs := by
  rw [intoRegisters_ok, List.map_map]
  have hid : (fun entry : RegisterValueWire => (entry.register.intoRegister, entry.rawValues)) ∘ registerEntry = id := by
    funext entry
    exact Prod.ext (intoRegister_fromRegister entry.1) rfl
  rw [hid, List.map_id]

theorem intoI18Indexed_rawIndexed (values : Values ℕ) (label : String) :
    intoI18Indexed (rawIndexed values) label = .ok values := by
  rw [intoI18Indexed_ok, rawIndexed, List.map_map]
  have hid : (fun entry : IndexedValueWire => (entry.index, entry.rawValues)) ∘ (fun entry => ⟨entry.1, entry.2⟩) = id := rfl
  rw [hid, List.map_id]

theorem valueCount_tensors {κ : Type} [Ord κ] [Std.TransOrd κ] (values : Values κ) :
    valueCount (tensors values) = total List.length values := by
  rw [valueCount, tensors, List.map_map]
  rfl

theorem valueCount_append (xs ys : List (List I18)) : valueCount (xs ++ ys) = valueCount xs + valueCount ys := by
  rw [valueCount, List.map_append, List.sum_append, valueCount, valueCount]

theorem recordCount_le {inputs virtuals outputs count : ℕ} {limit : UInt64}
    (h : validateArtifactRecordCount inputs virtuals outputs limit = .ok count) :
    inputs + virtuals + outputs ≤ limit.toNat := by
  obtain ⟨_, -, h⟩ := bind_eq_ok.mp h
  obtain ⟨_, hlimit, -⟩ := bind_eq_ok.mp h
  exact Nat.not_lt.mp (refuseIf_ok.mp hlimit)

/-- The counts of the reader are those of the executor. -/
theorem artifact_validated (hb : Configured b) (h : Executed b supplied blake3 a) :
    validateTensorCollection (tensors a.inputs ++ tensors a.virtuals ++ tensors a.outputs) b.limits.tensorCount
      b.limits.valuesPerTensor b.limits.totalArtifactValues "CPU witness artifact" = .ok () := by
  apply validateTensorCollection_ok
  · have hrecords := recordCount_le h.records
    simp only [tensors, List.length_append, List.length_map, ExtTreeMap.length_toList]
    exact hrecords
  · exact fun t ht => artifact_sizes hb h ht
  · rw [valueCount_append, valueCount_append, valueCount_tensors, valueCount_tensors, valueCount_tensors]
    exact h.total

theorem decode_wireOf (hb : Configured b) (h : execute b supplied floats blake3 = .ok a) :
    decodeArtifactWire b floats blake3 (wireOf a) = .ok a := by
  have hexecuted := execute_executed hb.outputs h
  have hagain : execute b (suppliedOf a.inputs) floats blake3 = .ok a := by
    rw [suppliedOf_inputs hb hexecuted, h]
  have hidentity : ¬((wireOf a).schemaVersion ≠ artifactSchemaVersion ∨ (wireOf a).runIdentity ≠ b.runIdentity ∨
      (wireOf a).runIdentityDigest ≠ (wireOf a).runIdentity.canonicalDigest blake3 ∨
      (wireOf a).runIdentityDigest ≠ b.runIdentity.canonicalDigest blake3 ∨ (wireOf a).shardIdentity ≠ b.shardIdentity ∨
      (wireOf a).circuitDigest ≠ b.shardIdentity.circuitDigest) := by
    simp [wireOf, hexecuted.runIdentity, hexecuted.runIdentityDigest, hexecuted.shardIdentity]
  have hcoverage : ¬(a.inputs.keys ≠ (expectedArtifactInputs b).toList ∨
      a.virtuals.keys ≠ (ExtTreeSet.ofList (indices b.shard)).toList ∨ a.outputs.keys ≠ (requiredOutputs b).toList) := by
    rw [not_or, not_or, not_not, not_not, not_not]
    refine ⟨OrderedMap.keys_eq_toList.mpr fun r => ?_, OrderedMap.keys_eq_toList.mpr fun i => ?_,
      OrderedMap.keys_eq_toList.mpr hexecuted.required⟩
    · rw [mem_inputs hexecuted, mem_expectedArtifactInputs hb]
    · rw [hexecuted.virtuals, ExtTreeSet.mem_ofList, List.contains_iff_mem]
  have houtputs : a.outputs.toList.forM (checkOutputValue a.virtuals) = .ok () := by
    rw [forM_ok]
    intro entry hentry
    have hvalue := hexecuted.outputs entry.1 entry.2 (ExtTreeMap.mem_toList_iff_getElem?_eq_some.mp hentry)
    exact refuseIf_ok.mpr (not_not.mpr hvalue)
  rw [decodeArtifactWire]
  refine bind_eq_ok.mpr ⟨(), refuseIf_ok.mpr hidentity, bind_eq_ok.mpr ⟨a.inputs, intoRegisters_toList a.inputs, ?_⟩⟩
  refine bind_eq_ok.mpr ⟨a.virtuals, intoI18Indexed_rawIndexed a.virtuals "virtual", ?_⟩
  refine bind_eq_ok.mpr ⟨a.outputs, intoI18Indexed_rawIndexed a.outputs "output", ?_⟩
  refine bind_eq_ok.mpr ⟨b.artifactRecordCount, hexecuted.records, ?_⟩
  refine bind_eq_ok.mpr ⟨(), refuseIf_ok.mpr (not_not.mpr rfl), ?_⟩
  refine bind_eq_ok.mpr ⟨(), artifact_validated hb hexecuted, ?_⟩
  refine bind_eq_ok.mpr ⟨(), refuseIf_ok.mpr hcoverage, ?_⟩
  refine bind_eq_ok.mpr ⟨(), houtputs, ?_⟩
  refine bind_eq_ok.mpr ⟨a, hagain, ?_⟩
  refine bind_eq_ok.mpr ⟨(), refuseIf_ok.mpr (by simp), ?_⟩
  exact congrArg Except.ok (CpuWitnessArtifact.ext hexecuted.shard.symm rfl rfl rfl rfl rfl rfl hexecuted.recordLimit.symm)

/-- What is known of an artifact that was read: it is an execution of its own inputs, the weights in it are those of the
program, the file has one record for each of its registers, and the virtual ones are those of the shard. -/
structure Accepted (b : BackendParts) (floats : HostFloats) (blake3 : Blake3) (wire : CpuWitnessArtifactWire)
    (a : CpuWitnessArtifact) : Prop where
  executes : execute b (suppliedOf a.inputs) floats blake3 = .ok a
  weights : ∀ name : String, a.inputs[Register.weight name]? = b.weights[name]?
  registers : ∀ r, r ∈ a.inputs ↔ External b r
  inputs : a.inputs.toList.Perm (wire.inputs.map fun entry => (entry.register.intoRegister, entry.rawValues))
  virtuals : a.virtuals.toList.Perm (wire.virtuals.map fun entry => (entry.index, entry.rawValues))
  outputs : a.outputs.toList.Perm (wire.outputs.map fun entry => (entry.index, entry.rawValues))
  unique : (wire.inputs.map fun entry => entry.register).Nodup ∧ (wire.virtuals.map fun entry => entry.index).Nodup ∧
    (wire.outputs.map fun entry => entry.index).Nodup
  covered : ∀ i, i ∈ a.virtuals ↔ b.shard.range.Contains i

theorem weights_configured (hb : Configured b) (h : Executed b supplied blake3 a) (name : String) :
    a.inputs[Register.weight name]? = b.weights[name]? := by
  by_cases hname : name ∈ b.weights
  · exact getElem?_inputs h ⟨(hb.scanned.weights name).mp hname, id⟩
  · rw [ExtTreeMap.getElem?_eq_none hname]
    apply ExtTreeMap.getElem?_eq_none
    intro hmem
    exact hname ((hb.scanned.weights name).mpr ((mem_inputs h _).mp hmem).1)

/-- The keys of the entries that make a map are different. -/
theorem nodup_of_perm {κ α : Type} [Ord κ] [Std.TransOrd κ] {values : Values κ} {xs : List α} {f : α → κ × List I18}
    (h : values.toList.Perm (xs.map f)) : (xs.map fun x => (f x).1).Nodup := by
  have hkeys := (h.map Prod.fst).nodup_iff
  rw [ExtTreeMap.map_fst_toList_eq_keys, List.map_map] at hkeys
  exact hkeys.mp ExtTreeMap.nodup_keys

theorem decode_accepted (hb : Configured b) (h : decodeArtifactWire b floats blake3 wire = .ok a) :
    Accepted b floats blake3 wire a := by
  obtain ⟨_, hidentity, h⟩ := bind_eq_ok.mp h
  obtain ⟨inputs, hinputs, h⟩ := bind_eq_ok.mp h
  obtain ⟨virtuals, hvirtuals, h⟩ := bind_eq_ok.mp h
  obtain ⟨outputs, houtputs, h⟩ := bind_eq_ok.mp h
  obtain ⟨records, -, h⟩ := bind_eq_ok.mp h
  obtain ⟨_, -, h⟩ := bind_eq_ok.mp h
  obtain ⟨_, -, h⟩ := bind_eq_ok.mp h
  obtain ⟨_, -, h⟩ := bind_eq_ok.mp h
  obtain ⟨_, -, h⟩ := bind_eq_ok.mp h
  obtain ⟨recomputed, hagain, h⟩ := bind_eq_ok.mp h
  obtain ⟨_, hequal, h⟩ := bind_eq_ok.mp h
  cases h
  rw [refuseIf_ok] at hidentity hequal
  simp only [ne_eq, not_or, not_not] at hidentity hequal
  obtain ⟨-, hrun, -, hdigest, hshard, -⟩ := hidentity
  obtain ⟨heqInputs, heqVirtuals, heqOutputs⟩ := hequal
  have hexecuted := execute_executed hb.outputs hagain
  have hsame : recomputed = ⟨b.shard, wire.shardIdentity, wire.runIdentity, wire.runIdentityDigest, inputs, virtuals, outputs,
      b.limits.tensorCount⟩ := by
    apply CpuWitnessArtifact.ext hexecuted.shard _ _ _ (ExtTreeMap.ext_toList (heqInputs ▸ List.Perm.refl _))
      (ExtTreeMap.ext_toList (heqVirtuals ▸ List.Perm.refl _)) (ExtTreeMap.ext_toList (heqOutputs ▸ List.Perm.refl _))
      hexecuted.recordLimit
    · exact hexecuted.shardIdentity.trans hshard.symm
    · exact hexecuted.runIdentity.trans hrun.symm
    · exact hexecuted.runIdentityDigest.trans hdigest.symm
  rw [hsame] at hagain hexecuted
  rw [intoRegisters_ok] at hinputs
  rw [intoI18Indexed_ok] at hvirtuals houtputs
  refine ⟨hagain, weights_configured hb hexecuted, mem_inputs hexecuted, hinputs, hvirtuals, houtputs, ⟨?_, ?_, ?_⟩, fun i => ?_⟩
  · have hregisters : ((wire.inputs.map fun entry => entry.register).map RegisterWire.intoRegister).Nodup := by
      rw [List.map_map]
      exact nodup_of_perm hinputs
    exact hregisters.of_map _
  · exact nodup_of_perm hvirtuals
  · exact nodup_of_perm houtputs
  · exact (hexecuted.virtuals i).trans mem_indices

end RoundTrip

section Artifacts

variable {b : BackendParts} {floats : HostFloats} {blake3 : Blake3} {serde : SerdeJson} {disk : Disk} {files files' : Files}

theorem readBounded_ok {path : String} {maxBytes : UInt64} {bytes : List UInt8} :
    readBounded files path maxBytes = .ok bytes ↔ files path = some bytes ∧ bytes.length ≤ maxBytes.toNat := by
  rw [readBounded, bind_eq_ok]
  simp only [Onnx.orElse_eq_ok]
  constructor
  · rintro ⟨read, hread, h⟩
    obtain ⟨_, hlength, h⟩ := bind_eq_ok.mp h
    cases h
    exact ⟨hread, Nat.not_lt.mp (refuseIf_ok.mp hlength)⟩
  · rintro ⟨hread, hlength⟩
    exact ⟨bytes, hread, bind_eq_ok.mpr ⟨(), refuseIf_ok.mpr (Nat.not_lt.mpr hlength), rfl⟩⟩

theorem writeExclusiveAndHash_ok {path : String} {bytes : List UInt8} {maxBytes : UInt64} {digest : Digest32}
    (h : writeExclusiveAndHash blake3 disk files path bytes maxBytes = .ok (digest, files')) :
    digest = ⟨blake3 bytes⟩ ∧ bytes.length ≤ maxBytes.toNat ∧ files' path = some bytes := by
  obtain ⟨persisted, -, h⟩ := bind_eq_ok.mp h
  obtain ⟨_, hsame, h⟩ := bind_eq_ok.mp h
  obtain ⟨_, -, h⟩ := bind_eq_ok.mp h
  obtain ⟨_, -, h⟩ := bind_eq_ok.mp h
  cases h
  rw [refuseIf_ok, not_or, not_not, Nat.not_lt] at hsame
  obtain ⟨hlength, rfl⟩ := hsame
  exact ⟨rfl, hlength, Function.update_self path _ files⟩

theorem newWitnessArtifact_ok {path : String} {digest circuitDigest : Digest32} {shard : ShardIdentity}
    {artifact : WitnessArtifact} (h : newWitnessArtifact path digest shard circuitDigest = .ok artifact) :
    artifact.path = path ∧ artifact.digest = digest ∧ artifact.shard = shard ∧ artifact.circuitDigest = circuitDigest := by
  obtain ⟨_, -, h⟩ := bind_eq_ok.mp h
  split_ifs at h
  cases h
  exact ⟨rfl, rfl, rfl, rfl⟩

theorem generate_loads (hb : Configured b) (hserde : serde.Inverts) {job : WitnessJob} {output : String}
    {artifact : WitnessArtifact} (h : generate b floats blake3 serde disk files job output = .ok (artifact, files')) :
    ∃ bytes wire executed, files job.witnessInputPath = some bytes ∧ serde.inputFromSlice bytes = some wire ∧
      execute b ⟨wire.graphInputs, wire.virtualInputs⟩ floats blake3 = .ok executed ∧
        ∀ later : Files, later artifact.path = files' artifact.path →
          loadArtifact b floats blake3 serde later artifact = .ok executed := by
  obtain ⟨_, hjob, h⟩ := bind_eq_ok.mp h
  obtain ⟨bytes, hread, h⟩ := bind_eq_ok.mp h
  obtain ⟨wire, hwire, h⟩ := bind_eq_ok.mp h
  obtain ⟨_, -, h⟩ := bind_eq_ok.mp h
  obtain ⟨executed, hexecute, h⟩ := bind_eq_ok.mp h
  obtain ⟨encoded, hencoded, h⟩ := bind_eq_ok.mp h
  obtain ⟨_, -, h⟩ := bind_eq_ok.mp h
  obtain ⟨⟨digest, written⟩, hwrite, h⟩ := bind_eq_ok.mp h
  obtain ⟨made, hmade, h⟩ := bind_eq_ok.mp h
  cases h
  rw [validateJob, refuseIf_ok, not_or, not_or, not_not, not_not] at hjob
  obtain ⟨hdigest, hlength, hfile⟩ := writeExclusiveAndHash_ok hwrite
  obtain ⟨hpath, hhash, hshard, hcircuit⟩ := newWitnessArtifact_ok hmade
  obtain ⟨_, -, hencoded⟩ := bind_eq_ok.mp hencoded
  have hslice := hserde _ _ (Onnx.orElse_eq_ok.mp hencoded)
  refine ⟨bytes, wire, executed, (readBounded_ok.mp hread).1, Onnx.orElse_eq_ok.mp hwire, hexecute, fun later hlater => ?_⟩
  rw [hpath, hfile] at hlater
  rw [loadArtifact, hpath, hhash, hshard, hcircuit, hdigest]
  refine bind_eq_ok.mpr ⟨(), refuseIf_ok.mpr ?_, bind_eq_ok.mpr ⟨encoded, readBounded_ok.mpr ⟨hlater, hlength⟩,
    bind_eq_ok.mpr ⟨(), refuseIf_ok.mpr (not_not.mpr rfl), bind_eq_ok.mpr ⟨wireOf executed, Onnx.orElse_eq_ok.mpr hslice,
      decode_wireOf hb hexecute⟩⟩⟩⟩
  rw [not_or, not_not, not_not]
  exact ⟨hjob.2.1, rfl⟩

theorem load_accepted (hb : Configured b) {artifact : WitnessArtifact} {a : CpuWitnessArtifact}
    (h : loadArtifact b floats blake3 serde files artifact = .ok a) :
    ∃ bytes wire, files artifact.path = some bytes ∧ serde.artifactFromSlice bytes = some wire ∧
      Accepted b floats blake3 wire a := by
  obtain ⟨_, -, h⟩ := bind_eq_ok.mp h
  obtain ⟨bytes, hread, h⟩ := bind_eq_ok.mp h
  obtain ⟨_, -, h⟩ := bind_eq_ok.mp h
  obtain ⟨wire, hwire, h⟩ := bind_eq_ok.mp h
  exact ⟨bytes, wire, (readBounded_ok.mp hread).1, Onnx.orElse_eq_ok.mp hwire, decode_accepted hb h⟩

end Artifacts

section Sample

def textJson (value : String) : List UInt8 := string (utf8 value)

def intJson (n : ℤ) : List UInt8 := if n < 0 then 0x2D :: number n.natAbs else number n.natAbs

def rawJson (values : List I18) : List UInt8 := array (values.map fun value => intJson value.raw)

def digestJson (digest : Digest32) : List UInt8 := array (digest.bytes.toList.map fun b => number b.toNat)

def registerJson : RegisterWire → List UInt8
  | .graphInput name => object [(utf8 "kind", textJson "graph_input"), (utf8 "name", textJson name)]
  | .weight name => object [(utf8 "kind", textJson "weight"), (utf8 "name", textJson name)]
  | .virtual index => object [(utf8 "kind", textJson "virtual"), (utf8 "index", number index)]

def visibilityJson : AggregationDigest.ModelVisibility → List UInt8
  | .publicModel => textJson "public_model"
  | .privateModel => textJson "private_model"

def runJson (run : RunIdentity) : List UInt8 :=
  object
    [(utf8 "model_graph_digest", digestJson run.modelGraphDigest),
      (utf8 "weights_digest", digestJson run.weightsDigest),
      (utf8 "compiler_digest", digestJson run.compilerDigest),
      (utf8 "isa_digest", digestJson run.isaDigest),
      (utf8 "quantization_digest", digestJson run.quantizationDigest),
      (utf8 "partition_plan_digest", digestJson run.partitionPlanDigest),
      (utf8 "aggregation_plan_digest", digestJson run.aggregationPlanDigest),
      (utf8 "proof_flavor", textJson run.proofFlavor.text),
      (utf8 "model_visibility", visibilityJson run.modelVisibility),
      (utf8 "aggregation_fan_in", number run.aggregationFanIn.toNat),
      (utf8 "public_input_schema_version", number run.publicInputSchemaVersion.toNat)]

def shardJson (shard : ShardIdentity) : List UInt8 :=
  object
    [(utf8 "id", number shard.id.toNat),
      (utf8 "name", textJson shard.name),
      (utf8 "circuit_digest", digestJson shard.circuitDigest)]

def valueJson (entry : RegisterValueWire) : List UInt8 :=
  object [(utf8 "register", registerJson entry.register), (utf8 "raw_values", rawJson entry.rawValues)]

def indexedJson (entry : IndexedValueWire) : List UInt8 :=
  object [(utf8 "index", number entry.index), (utf8 "raw_values", rawJson entry.rawValues)]

/-- The text of an artifact without blanks. -/
def artifactJson (wire : CpuWitnessArtifactWire) : List UInt8 :=
  object
    [(utf8 "schema_version", number wire.schemaVersion.toNat),
      (utf8 "run_identity", runJson wire.runIdentity),
      (utf8 "run_identity_digest", digestJson wire.runIdentityDigest),
      (utf8 "shard_identity", shardJson wire.shardIdentity),
      (utf8 "circuit_digest", digestJson wire.circuitDigest),
      (utf8 "inputs", array (wire.inputs.map valueJson)),
      (utf8 "virtuals", array (wire.virtuals.map indexedJson)),
      (utf8 "outputs", array (wire.outputs.map indexedJson))]

theorem supported_nonempty : supportedProofFlavor ≠ "" := by
  decide

theorem supported_ascii : ∀ c ∈ supportedProofFlavor.toList, c.toNat < 128 := by
  simp [supportedProofFlavor]

def doublingRun : RunIdentity :=
  ⟨flatDigest, flatDigest, flatDigest, flatDigest, flatDigest, flatDigest, flatDigest,
    ⟨supportedProofFlavor, supported_nonempty, supported_ascii⟩, .publicModel, 2, 2⟩

def doublingProgram : CompiledProgram :=
  ⟨[⟨.eltwise .add, [.graphInput "x", .graphInput "x"], "y"⟩], [], ["x"], [("y", .virtual 0)]⟩

def doublingShard : Shard := ⟨0, "shard-0", ⟨0, 1⟩, [], [.virtual 0]⟩

def raw (n : ℤ) : I18 := (I18.ofInt? n).getD default

def noFloats : HostFloats where
  ofF32 _ := .error "value out of range"
  reciprocal _ := .error "value out of range"
  epsilon _ := .error "value out of range"
  rsqrt _ := .error "value out of range"
  validRange _ _ := false
  rangeDomain _ _ _ := none

def defaultLimits : CpuWitnessLimits :=
  ⟨2 ^ 20, 2 ^ 23, 2 ^ 16, 2 ^ 18, 2 ^ 20, 2 ^ 10, 2 ^ 16, 2 ^ 10, 2 ^ 14⟩

theorem oneValue_nonzero : (∀ entry ∈ ((∅ : ExtTreeMap String ℕ).insert "x" 1).toList, entry.2 ≠ 0) ∧
    ∀ entry ∈ (∅ : ExtTreeMap ℕ ℕ).toList, entry.2 ≠ 0 := by
  decide +kernel

def oneValue : BoundaryShapeManifest := ⟨_, _, oneValue_nonzero⟩

def doublingParts : Except BackendError BackendParts :=
  backendParts noFloats flatHash doublingProgram doublingShard [] doublingRun defaultLimits oneValue

theorem input_path : validText "input.json" = .ok () := by
  decide +kernel

theorem doubling_circuit : VerifyProof.sampleShard.circuitDigest = flatDigest := rfl

def doublingJob : WitnessJob :=
  ⟨doublingRun, VerifyProof.sampleShard, "input.json", flatDigest, input_path, doubling_circuit⟩

/-- What the library writes for the doubled value of the sample. -/
def doubledWire : CpuWitnessArtifactWire where
  schemaVersion := 1
  runIdentity := doublingRun
  runIdentityDigest := flatDigest
  shardIdentity := VerifyProof.sampleShard
  circuitDigest := flatDigest
  inputs := [⟨.graphInput "x", [raw 5]⟩]
  virtuals := [⟨0, [raw 10]⟩]
  outputs := [⟨0, [raw 10]⟩]

def inputJson : List UInt8 :=
  object
    [(utf8 "schema_version", number 1),
      (utf8 "graph_inputs", object [(utf8 "x", rawJson [raw 5])]),
      (utf8 "virtual_inputs", object [])]

/-- The library on the texts of the sample. -/
def printing : SerdeJson where
  toVec wire := if wire = doubledWire then some (artifactJson doubledWire) else none
  artifactFromSlice bytes := if bytes = artifactJson doubledWire then some doubledWire else none
  inputFromSlice bytes := if bytes = inputJson then some ⟨1, (∅ : Values String).insert "x" [raw 5], ∅⟩ else none

theorem printing_inverts : printing.Inverts := by
  intro wire bytes h
  have hwritten : printing.toVec wire = if wire = doubledWire then some (artifactJson doubledWire) else none := rfl
  rw [hwritten] at h
  split_ifs at h with hwire
  cases h
  rw [hwire]
  exact if_pos rfl

def plainDisk : Disk := ⟨.ok, .ok ()⟩

def inputOnly : Files := fun path => if path = "input.json" then some inputJson else none

def doubled : Except BackendError (WitnessArtifact × Files) := do
  let b ← doublingParts
  generate b noFloats flatHash printing plainDisk inputOnly doublingJob "artifact.json"

theorem doubled_ok : doubled.toBool = true := by
  decide +kernel

end Sample

/-- An artifact is what the executor has computed: a file that was written is read back as the execution it was written
for, and a file that is accepted has the values of the execution of its own inputs. -/
theorem artifacts_are_executions (b : ZkieIsaCpuWitnessBackend) (floats : HostFloats) (blake3 : Blake3) (serde : SerdeJson)
    (hserde : serde.Inverts) :
    (∀ (disk : Disk) (files files' : Files) (job : WitnessJob) (output : String) (artifact : WitnessArtifact),
      generate b.toBackendParts floats blake3 serde disk files job output = .ok (artifact, files') →
        ∃ bytes wire executed, files job.witnessInputPath = some bytes ∧ serde.inputFromSlice bytes = some wire ∧
          execute b.toBackendParts ⟨wire.graphInputs, wire.virtualInputs⟩ floats blake3 = .ok executed ∧
            ∀ later : Files, later artifact.path = files' artifact.path →
              loadArtifact b.toBackendParts floats blake3 serde later artifact = .ok executed) ∧
    ∀ (files : Files) (artifact : WitnessArtifact) (a : CpuWitnessArtifact),
      loadArtifact b.toBackendParts floats blake3 serde files artifact = .ok a →
        ∃ bytes wire, files artifact.path = some bytes ∧ serde.artifactFromSlice bytes = some wire ∧
          Accepted b.toBackendParts floats blake3 wire a :=
  ⟨fun _ _ _ _ _ _ => generate_loads b.configured hserde, fun _ _ _ => load_accepted b.configured⟩

theorem artifacts_are_executions_doubled : ∃ (b : ZkieIsaCpuWitnessBackend) (artifact : WitnessArtifact) (files : Files),
    generate b.toBackendParts noFloats flatHash printing plainDisk inputOnly doublingJob "artifact.json" =
      .ok (artifact, files) ∧
    ∃ executed wire, loadArtifact b.toBackendParts noFloats flatHash printing files artifact = .ok executed ∧
      Accepted b.toBackendParts noFloats flatHash wire executed := by
  cases h : doubled with
  | error e =>
      have hok := doubled_ok
      rw [h] at hok
      cases hok
  | ok made =>
      obtain ⟨parts, hparts, hmade⟩ := bind_eq_ok.mp h
      have hexact := artifacts_are_executions ⟨parts, backendParts_configured hparts⟩ noFloats flatHash printing printing_inverts
      obtain ⟨_, _, executed, -, -, -, hload⟩ := hexact.1 plainDisk inputOnly made.2 doublingJob "artifact.json" made.1 hmade
      have hloaded := hload made.2 rfl
      obtain ⟨_, wire, -, -, haccepted⟩ := hexact.2 made.2 made.1 executed hloaded
      exact ⟨⟨parts, backendParts_configured hparts⟩, made.1, made.2, hmade, executed, wire, hloaded, haccepted⟩

end Zkie.WitnessArtifact
