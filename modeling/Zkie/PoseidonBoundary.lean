import Zkie.FixedPoint
import Zkie.HostRun

namespace Zkie.PoseidonBoundary

open ScalarField FixedPoint Plonkish Synthesis Satisfaction HostRun

variable {ε : Type}

/-- The hash function, from bytes to 32 bytes. -/
abbrev Blake3 : Type := List UInt8 → Vector UInt8 32

/-- The round constants and the matrix of the permutation of width three. -/
structure PoseidonParameters where
  fullRounds : ℕ
  partialRounds : ℕ
  ark : ℕ → Fr
  mds : ℕ → ℕ → Fr

section Descriptor

inductive BoundaryRole where
  | input
  | output
  deriving DecidableEq, Repr

/-- A descriptor of a flat tensor of fixed-point numbers, the only type and shape there is. -/
structure BoundaryDescriptor where
  role : BoundaryRole
  registerId : String
  edgeIds : List String
  graphOutputNames : List String
  elementCount : UInt64
  quantizationScale : UInt64
  deriving DecidableEq, Repr

inductive BoundaryCommitmentError where
  | emptyTensor
  | tooManyElements
  | tooManyIdentities
  | invalidIdentity
  | nonCanonicalIdentities
  | lengthMismatch (expected actual : ℕ)
  deriving DecidableEq, Repr

def boundaryCommitmentSchemaVersion : UInt32 := 2

def maxBoundaryElements : ℕ := 2 ^ 13

def maxBoundaryIdentities : ℕ := 64

def maxBoundaryIdBytes : ℕ := 256

def validId (value : String) : Bool := value ≠ "" ∧ value.utf8ByteSize ≤ maxBoundaryIdBytes

def strictlySorted : List String → Bool
  | a :: b :: rest => a < b ∧ strictlySorted (b :: rest)
  | _ => true

namespace BoundaryDescriptor

def validate (d : BoundaryDescriptor) : Except BoundaryCommitmentError Unit :=
  if d.elementCount = 0 then .error .emptyTensor
  else if d.elementCount.toNat > maxBoundaryElements then .error .tooManyElements
  else if d.edgeIds.length + d.graphOutputNames.length > maxBoundaryIdentities then .error .tooManyIdentities
  else if ¬validId d.registerId ∨ ∃ id ∈ d.edgeIds ++ d.graphOutputNames, ¬validId id then .error .invalidIdentity
  else if ¬strictlySorted d.edgeIds ∨ ¬strictlySorted d.graphOutputNames then .error .nonCanonicalIdentities
  else .ok ()

end BoundaryDescriptor

theorem BoundaryDescriptor.validate_ok {d : BoundaryDescriptor} (h : d.validate = .ok ()) :
    d.elementCount ≠ 0 ∧ d.elementCount.toNat ≤ maxBoundaryElements ∧
      d.edgeIds.length + d.graphOutputNames.length ≤ maxBoundaryIdentities ∧
      (∀ id ∈ d.registerId :: d.edgeIds ++ d.graphOutputNames, validId id) := by
  unfold BoundaryDescriptor.validate at h
  split at h
  · cases h
  · split at h
    · cases h
    · split at h
      · cases h
      · split at h
        · cases h
        · rename_i hempty hmany hids hvalid
          simp only [not_or, not_exists, not_and, not_not] at hvalid
          refine ⟨hempty, not_lt.mp hmany, not_lt.mp hids, ?_⟩
          rw [List.cons_append, List.forall_mem_cons]
          exact hvalid

end Descriptor

section Fields

/-- The bytes of a 64-bit number, least significant first. -/
def leBytes (v : UInt64) : List UInt8 := (List.range 8).map fun i => (v >>> (8 * UInt64.ofNat i)).toUInt8

def utf8 (value : String) : List UInt8 := value.toUTF8.toList

def encodeIdentity (value : String) : List UInt8 := leBytes (UInt64.ofNat value.utf8ByteSize) ++ utf8 value

/-- A limb of little-endian bytes as a field element. -/
def limbToFr (bytes : List UInt8) : Fr := bytes.foldr (fun b acc => (b.toNat : Fr) + 256 * acc) 0

def digestFields (raw : Vector UInt8 32) : List Fr := [limbToFr (raw.toList.take 16), limbToFr (raw.toList.drop 16)]

def identityFields (blake3 : Blake3) (value : String) : List Fr :=
  digestFields (blake3 (utf8 "zkie.boundary-identity.v1\x00" ++ encodeIdentity value))

/-- The fields that are committed before the values. -/
def BoundaryDescriptor.canonicalFields (blake3 : Blake3) (d : BoundaryDescriptor) : List Fr :=
  [(boundaryCommitmentSchemaVersion.toNat : Fr), 1, 1, (d.elementCount.toNat : Fr), (d.quantizationScale.toNat : Fr)] ++
    identityFields blake3 d.registerId

def roleByte : BoundaryRole → UInt8
  | .input => 1
  | .output => 2

/-- Two limbs that bind the whole descriptor. -/
def BoundaryDescriptor.publicBindingFields (blake3 : Blake3) (d : BoundaryDescriptor) : List Fr :=
  digestFields (blake3 (utf8 "zkie.boundary-descriptor-binding.v2\x00" ++ [2, 0, 0, 0] ++ [roleByte d.role, 1, 1] ++
    leBytes d.elementCount ++ leBytes d.quantizationScale ++ encodeIdentity d.registerId ++
    leBytes (UInt64.ofNat d.edgeIds.length) ++ d.edgeIds.flatMap encodeIdentity ++
    leBytes (UInt64.ofNat d.graphOutputNames.length) ++ d.graphOutputNames.flatMap encodeIdentity))

end Fields

section Chip

structure PoseidonBoundaryConfig where
  state : ℕ → Column
  roundConstants : ℕ → Column
  constant : Column
  fullRound : ℕ
  partialRound : ℕ

def pow5 (e : Expression Fr) : Expression Fr := e * e * (e * e) * e

/-- What a round makes of the current row, in the row after it. -/
def roundGate (params : PoseidonParameters) (state roundConstants : ℕ → Column) (sboxed : List (Expression Fr) → List (Expression Fr)) :
    List (Expression Fr) :=
  let current := (List.range 3).map fun i => .query (state i) 0 + .query (roundConstants i) 0
  (List.range 3).map fun i => .query (state i) 1 -
    ((sboxed current).zipIdx.foldl (fun sum p => sum + p.1 * .constant (params.mds i p.2)) (.constant 0))

def fullSbox (current : List (Expression Fr)) : List (Expression Fr) := current.map pow5

def partialSbox (current : List (Expression Fr)) : List (Expression Fr) :=
  current.zipIdx.map fun p => if p.2 = 0 then pow5 p.1 else p.1

def configure (params : PoseidonParameters) : Configure Fr PoseidonBoundaryConfig := do
  let s₀ ← adviceColumn
  let s₁ ← adviceColumn
  let s₂ ← adviceColumn
  enableEquality s₀
  enableEquality s₁
  enableEquality s₂
  let r₀ ← fixedColumn
  let r₁ ← fixedColumn
  let r₂ ← fixedColumn
  let constant ← fixedColumn
  enableConstant constant
  let fullRound ← selector
  let partialRound ← selector
  let state := fun i => [s₀, s₁, s₂].getD i s₀
  let roundConstants := fun i => [r₀, r₁, r₂].getD i r₀
  createGate "poseidon boundary full round" fullRound (roundGate params state roundConstants fullSbox)
  createGate "poseidon boundary partial round" partialRound (roundGate params state roundConstants partialSbox)
  return ⟨state, roundConstants, constant, fullRound, partialRound⟩

namespace PoseidonBoundaryConfig

def valuePow5 (v : Option Fr) : Option Fr := v.map fun v => v ^ 2 * v ^ 2 * v

def isFull (params : PoseidonParameters) (round : ℕ) : Prop :=
  round < params.fullRounds / 2 ∨ params.fullRounds / 2 + params.partialRounds ≤ round

instance (params : PoseidonParameters) (round : ℕ) : Decidable (isFull params round) := inferInstanceAs (Decidable (_ ∨ _))

/-- The state after a round, unknown if a value of the state is. -/
def nextValue (params : PoseidonParameters) (round : ℕ) (cells : List (AssignedCell Fr)) (row : ℕ) : Option Fr := do
  let afterArk := cells.zipIdx.map fun p => p.1.value.map (· + params.ark (round * 3 + p.2))
  let sboxed := if isFull params round then afterArk.map valuePow5
    else afterArk.zipIdx.map fun p => if p.2 = 0 then valuePow5 p.1 else p.1
  sboxed.zipIdx.foldlM (fun sum p => p.1.map fun v => sum + v * params.mds row p.2) 0

def assignRound (config : PoseidonBoundaryConfig) (params : PoseidonParameters) (region : ℕ)
    (cells : List (AssignedCell Fr)) (round : ℕ) : Synth Fr ε (List (AssignedCell Fr)) := do
  Synth.enable (if isFull params round then config.fullRound else config.partialRound) region round
  let _ ← Synth.forEach (fun column => Synth.assignFixed region (config.roundConstants column) round
    (params.ark (round * 3 + column))) (List.range 3)
  Synth.forEach (fun row => Synth.assignAdvice region (config.state row) (round + 1) (nextValue params round cells row))
    (List.range 3)

/-- Two cells are copied into the state, and the state goes through all rounds. -/
def hashPair (config : PoseidonBoundaryConfig) (params : PoseidonParameters) (left right : AssignedCell Fr) :
    Synth Fr ε (AssignedCell Fr) :=
  Synth.assignRegion "constrained circom poseidon two-input compression" fun region => do
    let zero ← Synth.assignAdvice region (config.state 0) 0 (some 0)
    Synth.constrainConstant zero 0
    let leftCopy ← Synth.assignAdvice region (config.state 1) 0 left.value
    Synth.constrainEqual left leftCopy
    let rightCopy ← Synth.assignAdvice region (config.state 2) 0 right.value
    Synth.constrainEqual right rightCopy
    let cells ← Synth.foldEach (config.assignRound params region) [zero, leftCopy, rightCopy]
      (List.range (params.fullRounds + params.partialRounds))
    return cells.headD zero

def assignConstant (config : PoseidonBoundaryConfig) (value : Fr) : Synth Fr ε (AssignedCell Fr) :=
  Synth.assignRegion "poseidon constant" fun region => do
    let cell ← Synth.assignAdvice region (config.state 0) 0 (some value)
    Synth.constrainConstant cell value
    return cell

def assignPublicValue (config : PoseidonBoundaryConfig) (value : Fr) : Synth Fr ε (AssignedCell Fr) :=
  Synth.assignRegion "leaf public advice" fun region => Synth.assignAdvice region (config.state 0) 0 (some value)

def constrainEqualToConstant (config : PoseidonBoundaryConfig) (cell : AssignedCell Fr) (value : Fr) :
    Synth Fr ε Unit := do
  let constant ← config.assignConstant value
  Synth.linkCells "bind assigned cell to configured constant" [(cell, constant)]

/-- The commitment to the cells of a tensor. -/
def commitAssigned (config : PoseidonBoundaryConfig) (params : PoseidonParameters) (blake3 : Blake3) (e : ε)
    (descriptor : BoundaryDescriptor) (values : List (AssignedCell Fr)) : Synth Fr ε (AssignedCell Fr) := do
  Synth.ensure (descriptor.validate.isOk ∧ values.length = descriptor.elementCount.toNat) e
  let domain ← config.assignConstant ((identityFields blake3 "zkie.poseidon-boundary-fold.v1").headD 0)
  let described ← Synth.foldEach (fun state field => do
    let field ← config.assignConstant field
    config.hashPair params state field) domain (descriptor.canonicalFields blake3)
  let count ← config.assignConstant (values.length : Fr)
  let counted ← config.hashPair params described count
  Synth.foldEach (config.hashPair params) counted values

end PoseidonBoundaryConfig

end Chip

section Success

namespace PoseidonBoundaryConfig

variable {config : PoseidonBoundaryConfig} {params : PoseidonParameters}

theorem assignRound_succeeds (region : ℕ) (cells : List (AssignedCell Fr)) (round : ℕ) :
    Succeeds (config.assignRound (ε := ε) params region cells round) := by
  apply (Succeeds.emit _).bind
  intro _
  apply Succeeds.bind
  · apply Decides.forEach_always
    intro column _
    exact Succeeds.emit _
  · intro _
    apply Decides.forEach_always
    intro row _
    exact Succeeds.assignAdvice _ _ _ _

theorem hashPair_succeeds (left right : AssignedCell Fr) : Succeeds (config.hashPair (ε := ε) params left right) := by
  apply Succeeds.assignRegion
  intro region
  apply (Succeeds.assignAdvice _ _ _ _).bind
  intro zero
  apply (Succeeds.emit _).bind
  intro _
  apply (Succeeds.assignAdvice _ _ _ _).bind
  intro leftCopy
  apply (Succeeds.emit _).bind
  intro _
  apply (Succeeds.assignAdvice _ _ _ _).bind
  intro rightCopy
  apply (Succeeds.emit _).bind
  intro _
  apply (Succeeds.foldEach (assignRound_succeeds region) _ _).bind
  intro cells
  exact Succeeds.pure _

theorem assignConstant_succeeds (value : Fr) : Succeeds (config.assignConstant (ε := ε) value) := by
  apply Succeeds.assignRegion
  intro region
  apply (Succeeds.assignAdvice _ _ _ _).bind
  intro cell
  apply (Succeeds.emit _).bind
  intro _
  exact Succeeds.pure _

theorem assignPublicValue_succeeds (value : Fr) : Succeeds (config.assignPublicValue (ε := ε) value) :=
  Succeeds.assignRegion fun _ => Succeeds.assignAdvice _ _ _ _

theorem constrainEqualToConstant_succeeds (cell : AssignedCell Fr) (value : Fr) :
    Succeeds (config.constrainEqualToConstant (ε := ε) cell value) :=
  (assignConstant_succeeds value).bind fun _ => Decides.linkCells

theorem commitAssigned_decides (blake3 : Blake3) (e : ε) (descriptor : BoundaryDescriptor) (values : List (AssignedCell Fr)) :
    Decides (config.commitAssigned params blake3 e descriptor values)
      (descriptor.validate.isOk ∧ values.length = descriptor.elementCount.toNat) fun _ => True := by
  have hrest : Succeeds (do
      let domain ← config.assignConstant ((identityFields blake3 "zkie.poseidon-boundary-fold.v1").headD 0)
      let described ← Synth.foldEach (fun state field => do
        let field ← config.assignConstant field
        config.hashPair params state field) domain (descriptor.canonicalFields blake3)
      let count ← config.assignConstant (values.length : Fr)
      let counted ← config.hashPair params described count
      Synth.foldEach (config.hashPair (ε := ε) params) counted values) := by
    apply (assignConstant_succeeds _).bind
    intro domain
    apply Succeeds.bind
    · apply Succeeds.foldEach
      intro state field
      exact (assignConstant_succeeds field).bind fun _ => hashPair_succeeds _ _
    · intro described
      apply (assignConstant_succeeds _).bind
      intro count
      apply (hashPair_succeeds _ _).bind
      intro counted
      exact Succeeds.foldEach hashPair_succeeds _ _
  exact ((Decides.ensure).bind fun _ _ => hrest).iff (by simp) fun _ _ => id

end PoseidonBoundaryConfig

end Success

end Zkie.PoseidonBoundary
