import Zkie.PoseidonBoundary
import Zkie.RunDatabase
import Zkie.WireCodec

namespace Zkie.Statement

open ScalarField FixedPoint PoseidonBoundary WireCodec
open RunDatabase (Digest32)

section Bytes

theorem toList_loop (bs : ByteArray) (i : ℕ) (r : List UInt8) :
    ByteArray.toList.loop bs i r = r.reverse ++ bs.data.toList.drop i := by
  fun_induction ByteArray.toList.loop bs i r with
  | case1 i r h ih =>
      have hi : i < bs.data.toList.length := h
      rw [ih, List.drop_eq_getElem_cons hi, List.reverse_cons, List.append_assoc, List.singleton_append]
      congr 2
      exact getElem!_pos bs.data i h
  | case2 i r h =>
      rw [List.drop_eq_nil_of_le (Nat.le_of_not_lt h), List.append_nil]

theorem toByteArray_toList (bs : ByteArray) : bs.toList.toByteArray = bs := by
  have hlist : bs.toList = bs.data.toList := by
    rw [ByteArray.toList, toList_loop]
    rfl
  apply ByteArray.ext
  rw [hlist, List.data_toByteArray]

theorem toList_toByteArray (bytes : List UInt8) : bytes.toByteArray.toList = bytes := by
  rw [ByteArray.toList, toList_loop]
  simp [List.data_toByteArray]

theorem utf8_length (value : String) : (utf8 value).length = value.utf8ByteSize := by
  rw [utf8, ByteArray.toList, toList_loop]
  exact String.size_toByteArray

theorem utf8_injective : Function.Injective utf8 := by
  intro a b h
  apply String.toByteArray_inj.mp
  rw [← toByteArray_toList a.toByteArray, ← toByteArray_toList b.toByteArray]
  exact congrArg List.toByteArray h

end Bytes

section Statement

def magic : List UInt8 := utf8 "zkie.leaf-statement.v1\x00"

def leafStatementSchemaVersion : UInt32 := 2

def maxStatementBytes : ℕ := 2 ^ 20

def maxClaims : ℕ := 2 ^ 12

def maxTextBytes : ℕ := 2 ^ 12

inductive LeafStatementError where
  | emptyOrOversizedText
  | tooManyClaims
  | wrongBoundaryRole
  | oversized
  | malformed
  | unsupportedVersion
  | invalidField
  | invalidDescriptor (source : BoundaryCommitmentError)
  deriving DecidableEq, Repr

inductive IdentifierError where
  | empty
  | nonAscii
  deriving DecidableEq, Repr

@[ext]
structure ProofFlavorId where
  text : String
  nonempty : text ≠ ""
  ascii : ∀ c ∈ text.toList, c.toNat < 128
  deriving DecidableEq, Repr

def ProofFlavorId.parse (value : String) : Except IdentifierError ProofFlavorId :=
  if hempty : value = "" then .error .empty
  else if hascii : ∀ c ∈ value.toList, c.toNat < 128 then .ok ⟨value, hempty, hascii⟩
  else .error .nonAscii

def flatI18 (role : BoundaryRole) (registerId : String) (edgeIds graphOutputNames : List String)
    (elementCount quantizationScale : UInt64) : Except BoundaryCommitmentError BoundaryDescriptor := do
  let descriptor : BoundaryDescriptor := ⟨role, registerId, edgeIds, graphOutputNames, elementCount, quantizationScale⟩
  descriptor.validate
  return descriptor

/-- A valid endpoint with the commitment to its tensor. -/
@[ext]
structure BoundaryClaim where
  descriptor : BoundaryDescriptor
  commitment : Fr
  valid : descriptor.validate = .ok ()
  deriving DecidableEq

def BoundaryClaim.new (descriptor : BoundaryDescriptor) (commitment : Fr) : Except LeafStatementError BoundaryClaim :=
  match h : descriptor.validate with
  | .ok () => .ok ⟨descriptor, commitment, h⟩
  | .error e => .error (.invalidDescriptor e)

/-- The public statement of a leaf proof, within the bounds that its constructor checks. -/
@[ext]
structure LeafStatement where
  shardId : UInt64
  shardName : String
  circuitDigest : Digest32
  partitionDigest : Digest32
  modelDigest : Digest32
  weightsDigest : Digest32
  proofFlavor : ProofFlavorId
  verificationKeyDigest : Digest32
  inputClaims : List BoundaryClaim
  outputClaims : List BoundaryClaim
  publicWeights : List I18
  named : shardName ≠ "" ∧ shardName.utf8ByteSize ≤ maxTextBytes
  fewClaims : inputClaims.length + outputClaims.length ≤ maxClaims
  inputRoles : ∀ claim ∈ inputClaims, claim.descriptor.role = .input
  outputRoles : ∀ claim ∈ outputClaims, claim.descriptor.role = .output
  fewWeights : publicWeights.length ≤ maxClaims * 256
  deriving DecidableEq

namespace LeafStatement

def new (shardId : UInt64) (shardName : String) (circuitDigest partitionDigest modelDigest weightsDigest : Digest32)
    (proofFlavor : ProofFlavorId) (verificationKeyDigest : Digest32) (inputClaims outputClaims : List BoundaryClaim)
    (publicWeights : List I18) : Except LeafStatementError LeafStatement :=
  if named : ¬(shardName ≠ "" ∧ shardName.utf8ByteSize ≤ maxTextBytes) then .error .emptyOrOversizedText
  else if fewClaims : ¬inputClaims.length + outputClaims.length ≤ maxClaims then .error .tooManyClaims
  else if roles : ¬((∀ claim ∈ inputClaims, claim.descriptor.role = .input) ∧
      ∀ claim ∈ outputClaims, claim.descriptor.role = .output) then .error .wrongBoundaryRole
  else if fewWeights : ¬publicWeights.length ≤ maxClaims * 256 then .error .oversized
  else .ok ⟨shardId, shardName, circuitDigest, partitionDigest, modelDigest, weightsDigest, proofFlavor,
    verificationKeyDigest, inputClaims, outputClaims, publicWeights, not_not.mp named, not_not.mp fewClaims,
    (not_not.mp roles).1, (not_not.mp roles).2, not_not.mp fewWeights⟩

end LeafStatement

end Statement

section Encode

/-- The canonical little-endian representation of a field element. -/
def toRepr (value : Fr) : List UInt8 := LittleEndian.toBytes 32 value.val

def fromRepr (repr : List UInt8) : Option Fr :=
  if LittleEndian.ofBytes repr < modulus then some (LittleEndian.ofBytes repr : Fr) else none

/-- The bytes of an `i64` in two's complement. -/
def i64ToBytes (value : I18) : List UInt8 := LittleEndian.toBytes 8 (value.raw % 2 ^ 64).toNat

def i64OfBytes (bytes : List UInt8) : Option I18 :=
  let n := LittleEndian.ofBytes bytes
  I18.ofInt? (if n < 2 ^ 63 then n else n - 2 ^ 64)

def fromUtf8 (bytes : List UInt8) : Except LeafStatementError String :=
  match String.fromUTF8? bytes.toByteArray with
  | some value => .ok value
  | none => .error .malformed

def FitsText (value : String) : Prop := value ≠ "" ∧ value.utf8ByteSize ≤ maxTextBytes

instance (value : String) : Decidable (FitsText value) := inferInstanceAs (Decidable (_ ∧ _))

def putString (value : String) : Wire LeafStatementError Unit := do
  ensure (FitsText value) .emptyOrOversizedText
  putU32 (UInt32.ofNat value.utf8ByteSize)
  emit (utf8 value)

def putStrings (values : List String) : Wire LeafStatementError Unit := do
  putU32 (UInt32.ofNat values.length)
  putEach putString values

def putDigest (digest : Digest32) : Wire LeafStatementError Unit := emit digest.bytes.toList

def putClaim (claim : BoundaryClaim) : Wire LeafStatementError Unit := do
  emit [roleByte claim.descriptor.role]
  putString claim.descriptor.registerId
  putStrings claim.descriptor.edgeIds
  putStrings claim.descriptor.graphOutputNames
  putU64 claim.descriptor.elementCount
  putU64 claim.descriptor.quantizationScale
  emit (toRepr claim.commitment)

def putClaims (claims : List BoundaryClaim) : Wire LeafStatementError Unit := do
  putU32 (UInt32.ofNat claims.length)
  putEach putClaim claims

def putWeight (value : I18) : Wire LeafStatementError Unit := emit (i64ToBytes value)

def putWeights (values : List I18) : Wire LeafStatementError Unit := do
  putU32 (UInt32.ofNat values.length)
  putEach putWeight values

/-- `usize::checked_add` and `checked_mul`, by the exact result. -/
def checkedLen (n : ℕ) : Except LeafStatementError ℕ := if n < 2 ^ 64 then .ok n else .error .oversized

namespace LeafStatement

/-- Everything behind the magic bytes. -/
def putBody (s : LeafStatement) : Wire LeafStatementError Unit := do
  putU32 leafStatementSchemaVersion
  putU64 s.shardId
  putString s.shardName
  putDigest s.circuitDigest
  putDigest s.partitionDigest
  putDigest s.modelDigest
  putDigest s.weightsDigest
  putString s.proofFlavor.text
  putDigest s.verificationKeyDigest
  putClaims s.inputClaims
  putClaims s.outputClaims
  putWeights s.publicWeights

def claimLen (len : ℕ) (claim : BoundaryClaim) : Except LeafStatementError ℕ := do
  let len ← checkedLen (len + (1 + 4 + claim.descriptor.registerId.utf8ByteSize + 4 + 4 + 8 + 8 + 32))
  (claim.descriptor.edgeIds ++ claim.descriptor.graphOutputNames).foldlM
    (fun len value => checkedLen (len + (4 + value.utf8ByteSize))) len

def encodedLen (s : LeafStatement) : Except LeafStatementError ℕ := do
  let len := magic.length + 4 + 8 + 4 + s.shardName.utf8ByteSize + 4 * 32 + 4 + s.proofFlavor.text.utf8ByteSize +
    32 + 4 + 4 + 4
  let len ← (s.inputClaims ++ s.outputClaims).foldlM claimLen len
  let weights ← checkedLen (s.publicWeights.length * 8)
  checkedLen (len + weights)

def encode (s : LeafStatement) : Except LeafStatementError (List UInt8) := do
  let len ← s.encodedLen
  if len > maxStatementBytes then throw .oversized
  let (_, out) ← s.putBody magic
  if out.length > maxStatementBytes then throw .oversized
  return out

end LeafStatement

end Encode

section Decode

def role : Wire LeafStatementError BoundaryRole := do
  let bytes ← take .malformed 1
  lift (if bytes = [1] then .ok .input else if bytes = [2] then .ok .output else .error .malformed)

def string : Wire LeafStatementError String := do
  let len ← u32 .malformed
  ensure (len ≠ 0 ∧ len.toNat ≤ maxTextBytes) .emptyOrOversizedText
  let bytes ← take .malformed len.toNat
  lift (fromUtf8 bytes)

def strings : Wire LeafStatementError (List String) := do
  let count ← u32 .malformed
  ensure (count.toNat ≤ maxClaims) .tooManyClaims
  getEach string count.toNat

def digest : Wire LeafStatementError Digest32 := do
  let bytes ← take .malformed 32
  lift (if h : bytes.toArray.size = 32 then .ok ⟨⟨bytes.toArray, h⟩⟩ else .error .malformed)

def commitment : Wire LeafStatementError Fr := do
  let repr ← take .malformed 32
  lift (match fromRepr repr with
    | some value => .ok value
    | none => .error .invalidField)

def claim (expectedRole : BoundaryRole) : Wire LeafStatementError BoundaryClaim := do
  let role ← role
  ensure (role = expectedRole) .wrongBoundaryRole
  let register ← string
  let edges ← strings
  let outputs ← strings
  let count ← u64 .malformed
  let scale ← u64 .malformed
  let descriptor ← lift ((flatI18 role register edges outputs count scale).mapError .invalidDescriptor)
  let commitment ← commitment
  lift (BoundaryClaim.new descriptor commitment)

def claims (expectedRole : BoundaryRole) : Wire LeafStatementError (List BoundaryClaim) := do
  let count ← u32 .malformed
  ensure (count.toNat ≤ maxClaims) .tooManyClaims
  getEach (claim expectedRole) count.toNat

def weight : Wire LeafStatementError I18 := do
  let bytes ← take .malformed 8
  lift (match i64OfBytes bytes with
    | some value => .ok value
    | none => .error .malformed)

def weights : Wire LeafStatementError (List I18) := do
  let count ← u32 .malformed
  ensure (count.toNat ≤ maxClaims * 256) .oversized
  getEach weight count.toNat

def flavor : Wire LeafStatementError ProofFlavorId := do
  let text ← string
  lift ((ProofFlavorId.parse text).mapError fun _ => .malformed)

/-- Everything behind the magic bytes, which has to end the input. -/
def body : Wire LeafStatementError LeafStatement := do
  let version ← u32 .malformed
  ensure (version = leafStatementSchemaVersion) .unsupportedVersion
  let shardId ← u64 .malformed
  let shardName ← string
  let circuitDigest ← digest
  let partitionDigest ← digest
  let modelDigest ← digest
  let weightsDigest ← digest
  let proofFlavor ← flavor
  let verificationKeyDigest ← digest
  let inputClaims ← claims .input
  let outputClaims ← claims .output
  let publicWeights ← weights
  finish .malformed (LeafStatement.new shardId shardName circuitDigest partitionDigest modelDigest weightsDigest
    proofFlavor verificationKeyDigest inputClaims outputClaims publicWeights)

def LeafStatement.decode (bytes : List UInt8) : Except LeafStatementError LeafStatement := do
  if bytes.length > maxStatementBytes ∨ ¬magic <+: bytes then throw .malformed
  let (statement, _) ← body (bytes.drop magic.length)
  return statement

end Decode

end Zkie.Statement
