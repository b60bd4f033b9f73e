import Zkie.ProgramCircuit
import Zkie.StatementInstances
import Zkie.WitnessExecution

namespace Zkie.Halo2Cpu

open Checked
open FixedPoint (I18)
open Isa (AssemblerProgram)
open PoseidonBoundary (Blake3 BoundaryCommitmentError BoundaryDescriptor commitBoundaryNative)
open RunDatabase (Digest32)
open ScalarField (Fr)
open Statement (BoundaryClaim LeafStatement LeafStatementError ProofFlavorId)
open WitnessExecution (BackendError BackendParts refuseIf refuseIf_ok)

section Model

theorem flavor_nonempty : "halo2-kzg-bn256-shplonk-v1" ≠ "" := by
  decide

theorem flavor_ascii : ∀ c ∈ "halo2-kzg-bn256-shplonk-v1".toList, c.toNat < 128 := by
  simp

def flavor : ProofFlavorId := ⟨"halo2-kzg-bn256-shplonk-v1", flavor_nonempty, flavor_ascii⟩

def commitmentText : BoundaryCommitmentError → String
  | .emptyTensor => "EmptyTensor"
  | .tooManyElements => "TooManyElements"
  | .tooManyIdentities => "TooManyIdentities"
  | .invalidIdentity => "InvalidIdentity"
  | .nonCanonicalIdentities => "NonCanonicalIdentities"
  | .lengthMismatch expected actual => s!"LengthMismatch \x7b expected: {expected}, actual: {actual} \x7d"

def statementText : LeafStatementError → String
  | .emptyOrOversizedText => "EmptyOrOversizedText"
  | .tooManyClaims => "TooManyClaims"
  | .wrongBoundaryRole => "WrongBoundaryRole"
  | .oversized => "Oversized"
  | .malformed => "Malformed"
  | .unsupportedVersion => "UnsupportedVersion"
  | .invalidField => "InvalidField"
  | .invalidDescriptor source => s!"InvalidDescriptor({commitmentText source})"

/-- What the backend makes its statements from. -/
structure Halo2KzgCpuBackend where
  witnessBackend : BackendParts
  boundaryInputs : Option (List BoundaryDescriptor)
  boundaryOutputs : Option (List (ℕ × BoundaryDescriptor))

variable (blake3 : Blake3) (compress : Fr → Fr → Fr)

def boundaryClaim (descriptor : BoundaryDescriptor) (values : List I18) : Except BackendError BoundaryClaim := do
  let commitment ← (commitBoundaryNative blake3 compress descriptor values).mapError fun error =>
    .invalidJob (commitmentText error)
  (BoundaryClaim.new descriptor commitment).mapError fun error => .invalidJob (statementText error)

/-- The outputs lie one behind the other in the public values. -/
def outputClaims (publicValues : List I18) : ℕ → List BoundaryDescriptor → Except BackendError (List BoundaryClaim)
  | _, [] => .ok []
  | offset, descriptor :: rest => do
      let stop := offset + descriptor.elementCount.toNat
      refuseIf (2 ^ 64 ≤ stop) (.resource "boundary output offset overflow")
      refuseIf (publicValues.length < stop) (.invalidJob "missing boundary output values")
      let claim ← boundaryClaim blake3 compress descriptor ((publicValues.drop offset).take descriptor.elementCount.toNat)
      let claims ← outputClaims publicValues stop rest
      return claim :: claims

def valueCount (tensors : List (List I18)) : ℕ := (tensors.map List.length).sum

def elementCounts (descriptors : List BoundaryDescriptor) : ℕ := (descriptors.map fun d => d.elementCount.toNat).sum

namespace Halo2KzgCpuBackend

/-- The statement about an executed program; of the key only its digest matters. -/
def leafStatement (backend : Halo2KzgCpuBackend) (keyDigest : Digest32) (program : AssemblerProgram)
    (publicValues : List I18) : Except BackendError LeafStatement := do
  match backend.boundaryInputs with
  | none => throw (.invalidJob "missing trusted boundary input layout")
  | some inputs =>
    match backend.boundaryOutputs with
    | none => throw (.invalidJob "missing trusted boundary output layout")
    | some outputs =>
      refuseIf (inputs.length ≠ program.inputValues.length) (.invalidJob "boundary input layout mismatch")
      let start := valueCount program.inputValues + valueCount program.weightValues
      let outputCount := elementCounts (outputs.map Prod.snd)
      refuseIf (2 ^ 64 ≤ outputCount) (.resource "boundary output count overflow")
      refuseIf (2 ^ 64 ≤ start + outputCount) (.resource "public statement value count overflow")
      refuseIf (publicValues.length ≠ start + outputCount) (.invalidJob "public boundary value layout mismatch")
      let inputClaims ← (inputs.zip program.inputValues).mapM fun entry => boundaryClaim blake3 compress entry.1 entry.2
      let outputClaims ← outputClaims blake3 compress publicValues start (outputs.map Prod.snd)
      let shard := backend.witnessBackend.shardIdentity
      let run := backend.witnessBackend.runIdentity
      (LeafStatement.new shard.id shard.name shard.circuitDigest run.partitionPlanDigest run.modelGraphDigest run.weightsDigest
        flavor keyDigest inputClaims outputClaims program.weightValues.flatten).mapError fun error =>
          .invalidJob (statementText error)

end Halo2KzgCpuBackend

end Model

end Zkie.Halo2Cpu
