import Zkie.AggregationDigest

namespace Zkie.VerifyProof

open AggregationDigest Checked DigestBytes Encoding
open LittleEndian (toBytes)
open PoseidonBoundary (Blake3 utf8)
open RunDatabase (Digest32)
open Statement (ProofFlavorId)

section Model

def maxText : ℕ := 4096

def maxBytes : ℕ := 2 ^ 20

inductive BackendError where
  | invalidJob (message : String)
  deriving DecidableEq, Repr

def BackendError.toString : BackendError → String
  | invalidJob message => s!"invalid job: {message}"

inductive VerificationError where
  | proofFlavorMismatch
  | executionBackendMismatch
  | circuitDigestMismatch
  | verificationKeyDigestMismatch
  | publicStatementDigestMismatch
  | proofDigestMismatch
  | artifactDigestMismatch
  | runIdentityDigestMismatch
  | shardIdentityMismatch
  | unsupportedProofFlavor
  | invalidCapability (message : String)
  | cryptographicVerificationFailed (message : String)
  | receiptBindingMismatch
  | missingProofArtifact
  | missingArtifactManifest
  | malformedProofArtifact
  deriving DecidableEq, Repr

def validText (text : String) : Except BackendError Unit :=
  if text = "" ∨ maxText < text.utf8ByteSize then .error (.invalidJob "empty or oversized text") else .ok ()

def validBytes (bytes : List UInt8) : Except BackendError Unit :=
  if maxBytes < bytes.length then .error (.invalidJob "oversized byte field") else .ok ()

@[ext]
structure ShardIdentity where
  id : UInt64
  name : String
  circuitDigest : Digest32
  named : validText name = .ok ()

instance : DecidableEq ShardIdentity := fun _ _ => decidable_of_iff _ ShardIdentity.ext_iff.symm

@[ext]
structure KeyIdentity where
  proofFlavor : ProofFlavorId
  circuitDigest : Digest32
  keyDigest : Digest32
  deriving DecidableEq

@[ext]
structure CapabilityId where
  text : String
  valid : validText text = .ok ()
  ascii : ∀ c ∈ text.toList, c.toNat < 128

def CapabilityId.parse (value : String) : Except BackendError CapabilityId :=
  match h : validText value with
  | .error e => .error e
  | .ok () =>
      if hascii : ∀ c ∈ value.toList, c.toNat < 128 then .ok ⟨value, h, hascii⟩
      else .error (.invalidJob "non-ASCII capability")

structure BackendCapabilities where
  executionBackend : ExecutionBackendId
  proofFlavors : List ProofFlavorId
  capabilities : List CapabilityId

def BackendCapabilities.validate (caps : BackendCapabilities) : Except BackendError Unit :=
  if caps.proofFlavors = [] ∨ ¬caps.proofFlavors.Nodup then .error (.invalidJob "flavors must be nonempty and unique")
  else if caps.capabilities.any fun c => !(CapabilityId.parse c.text).toBool then .error (.invalidJob "invalid capability")
  else .ok ()

variable (blake3 : Blake3)

def digest (bytes : List UInt8) : Digest32 := ⟨blake3 bytes⟩

/-- A proof with its metadata. The digests of its statement and manifest are those of the bytes it carries. -/
@[ext]
structure UnverifiedProof where
  proofPath : String
  proofDigest : Digest32
  publicStatement : List UInt8
  publicStatementDigest : Digest32
  circuitDigest : Digest32
  verificationKeyDigest : Digest32
  proofFlavor : ProofFlavorId
  executionBackend : ExecutionBackendId
  shard : ShardIdentity
  artifactManifest : List UInt8
  artifactDigest : Digest32
  runIdentityDigest : Digest32
  path : validText proofPath = .ok ()
  statement : validBytes publicStatement = .ok ()
  manifest : validBytes artifactManifest = .ok () ∧ artifactManifest ≠ []
  circuit : shard.circuitDigest = circuitDigest
  statementDigest : publicStatementDigest = digest blake3 publicStatement
  manifestDigest : artifactDigest = digest blake3 artifactManifest

def UnverifiedProof.new (proofPath : String) (proofDigest : Digest32) (publicStatement : List UInt8)
    (circuitDigest verificationKeyDigest : Digest32) (proofFlavor : ProofFlavorId) (executionBackend : ExecutionBackendId)
    (shard : ShardIdentity) (artifactManifest : List UInt8) (runIdentityDigest : Digest32) :
    Except BackendError (UnverifiedProof blake3) :=
  match hpath : validText proofPath, hstatement : validBytes publicStatement, hmanifest : validBytes artifactManifest with
  | .error e, _, _ => .error e
  | .ok (), .error e, _ => .error e
  | .ok (), .ok (), .error e => .error e
  | .ok (), .ok (), .ok () =>
      if hempty : artifactManifest = [] then .error (.invalidJob "missing artifact manifest")
      else if hcircuit : shard.circuitDigest ≠ circuitDigest then .error (.invalidJob "proof shard circuit mismatch")
      else .ok
        { proofPath, proofDigest, publicStatement, circuitDigest, verificationKeyDigest, proofFlavor, executionBackend
          shard, artifactManifest, runIdentityDigest
          publicStatementDigest := digest blake3 publicStatement
          artifactDigest := digest blake3 artifactManifest
          path := hpath
          statement := hstatement
          manifest := ⟨hmanifest, hempty⟩
          circuit := not_not.mp hcircuit
          statementDigest := rfl
          manifestDigest := rfl }

structure WitnessArtifact where
  path : String
  digest : Digest32
  shard : ShardIdentity
  circuitDigest : Digest32
  circuit : shard.circuitDigest = circuitDigest

structure PreparedKeys where
  provingKey : KeyIdentity
  verificationKey : KeyIdentity
  flavors : provingKey.proofFlavor = verificationKey.proofFlavor
  circuits : provingKey.circuitDigest = verificationKey.circuitDigest

structure ProofJob where
  runIdentity : RunIdentity
  shard : ShardIdentity
  witness : WitnessArtifact
  preparedKeys : PreparedKeys
  witnessShard : witness.shard = shard
  circuit : preparedKeys.provingKey.circuitDigest = shard.circuitDigest
  flavor : runIdentity.proofFlavor = preparedKeys.provingKey.proofFlavor

structure VerificationExpectation where
  proofDigest : Digest32
  artifactDigest : Digest32
  runIdentityDigest : Digest32
  publicStatementDigest : Digest32
  circuitDigest : Digest32
  verificationKeyDigest : Digest32
  proofFlavor : ProofFlavorId
  executionBackend : ExecutionBackendId
  shard : ShardIdentity
  witnessArtifactDigest : Digest32

def VerificationExpectation.fromProofJob (job : ProofJob) (executionBackend : ExecutionBackendId) (statement : List UInt8)
    (proofDigest : Digest32) (manifest : List UInt8) : Except BackendError VerificationExpectation := do
  validBytes statement
  validBytes manifest
  if manifest = [] then throw (.invalidJob "missing artifact manifest")
  else return {
    proofDigest, executionBackend
    artifactDigest := digest blake3 manifest
    runIdentityDigest := job.runIdentity.canonicalDigest blake3
    publicStatementDigest := digest blake3 statement
    circuitDigest := job.shard.circuitDigest
    verificationKeyDigest := job.preparedKeys.verificationKey.keyDigest
    proofFlavor := job.runIdentity.proofFlavor
    shard := job.shard
    witnessArtifactDigest := job.witness.digest }

structure VerificationJob where
  expectation : VerificationExpectation
  proof : UnverifiedProof blake3
  proofBytes : List UInt8
  bytes : validBytes proofBytes = .ok () ∧ proofBytes ≠ []

def VerificationJob.new (expectation : VerificationExpectation) (proof : UnverifiedProof blake3) (proofBytes : List UInt8) :
    Except BackendError (VerificationJob blake3) :=
  match h : validBytes proofBytes with
  | .error e => .error e
  | .ok () =>
      if hempty : proofBytes = [] then .error (.invalidJob "missing proof artifact")
      else .ok ⟨expectation, proof, proofBytes, h, hempty⟩

@[ext]
structure CryptoVerificationRequest where
  proof : UnverifiedProof blake3
  proofBytes : List UInt8
  verificationKey : KeyIdentity
  expectedWitnessArtifactDigest : Digest32
  bytes : validBytes proofBytes = .ok () ∧ proofBytes ≠ []
  hashes : digest blake3 proofBytes = proof.proofDigest
  flavor : proof.proofFlavor = verificationKey.proofFlavor
  circuit : proof.circuitDigest = verificationKey.circuitDigest
  key : proof.verificationKeyDigest = verificationKey.keyDigest

def CryptoVerificationRequest.new (proof : UnverifiedProof blake3) (proofBytes : List UInt8) (verificationKey : KeyIdentity)
    (expectedWitnessArtifactDigest : Digest32) : Except BackendError (CryptoVerificationRequest blake3) :=
  match hbytes : validBytes proofBytes with
  | .error e => .error e
  | .ok () =>
      if h : proofBytes = [] ∨ digest blake3 proofBytes ≠ proof.proofDigest ∨
          proof.proofFlavor ≠ verificationKey.proofFlavor ∨ proof.circuitDigest ≠ verificationKey.circuitDigest ∨
          proof.verificationKeyDigest ≠ verificationKey.keyDigest then
        .error (.invalidJob "invalid crypto verification request")
      else .ok
        { proof, proofBytes, verificationKey, expectedWitnessArtifactDigest
          bytes := ⟨hbytes, fun hempty => h (.inl hempty)⟩
          hashes := by_contra fun hne => h (.inr (.inl hne))
          flavor := by_contra fun hne => h (.inr (.inr (.inl hne)))
          circuit := by_contra fun hne => h (.inr (.inr (.inr (.inl hne))))
          key := by_contra fun hne => h (.inr (.inr (.inr (.inr hne)))) }

/-- Bytes behind their length. -/
def sized (bytes : List UInt8) : List UInt8 := toBytes 8 bytes.length ++ bytes

variable {blake3} in
/-- The digests that are hashed one after the other. -/
def CryptoVerificationRequest.digests (request : CryptoVerificationRequest blake3) : List Digest32 :=
  [request.proof.proofDigest, request.proof.artifactDigest, request.proof.publicStatementDigest, request.proof.circuitDigest,
    request.proof.verificationKeyDigest, request.proof.runIdentityDigest, request.verificationKey.keyDigest,
    request.expectedWitnessArtifactDigest]

variable {blake3} in
/-- The byte string that `request_binding_digest` hashes. -/
def CryptoVerificationRequest.bindingBytes (request : CryptoVerificationRequest blake3) : List UInt8 :=
  utf8 "zkie.crypto-request.v1" ++ encodeText request.proof.proofFlavor.text ++
    encodeText request.proof.executionBackend.text ++ toBytes 8 request.proof.shard.id.toNat ++
    encodeText request.proof.shard.name ++ encodeDigest request.proof.shard.circuitDigest ++
    encodeText request.verificationKey.proofFlavor.text ++ encodeDigest request.verificationKey.circuitDigest ++
    request.digests.flatMap encodeDigest ++ sized request.proof.publicStatement ++ sized request.proof.artifactManifest ++
    sized request.proofBytes

variable {blake3} in
def CryptoVerificationRequest.requestBindingDigest (request : CryptoVerificationRequest blake3) : Digest32 :=
  digest blake3 request.bindingBytes

structure CryptoVerificationReceipt where
  requestBindingDigest : Digest32

structure VerifiedProof where
  proof : UnverifiedProof blake3

structure ProofBackend where
  capabilities : BackendCapabilities
  verifyCryptographically : CryptoVerificationRequest blake3 → Except VerificationError CryptoVerificationReceipt

def refuseIf (c : Prop) [Decidable c] (error : VerificationError) : Except VerificationError Unit :=
  if c then .error error else .ok ()

/-- A field of the proof against the expected one. -/
def ck {α : Type} [DecidableEq α] (expected actual : α) (error : VerificationError) : Except VerificationError Unit :=
  refuseIf (expected ≠ actual) error

variable {blake3} in
def verifyProof (backend : ProofBackend blake3) (job : VerificationJob blake3) :
    Except VerificationError (VerifiedProof blake3) := do
  backend.capabilities.validate.mapError fun e => .invalidCapability e.toString
  refuseIf (job.expectation.proofFlavor ∉ backend.capabilities.proofFlavors) .unsupportedProofFlavor
  ck job.expectation.proofFlavor job.proof.proofFlavor .proofFlavorMismatch
  ck job.expectation.executionBackend job.proof.executionBackend .executionBackendMismatch
  ck job.expectation.circuitDigest job.proof.circuitDigest .circuitDigestMismatch
  ck job.expectation.verificationKeyDigest job.proof.verificationKeyDigest .verificationKeyDigestMismatch
  ck job.expectation.runIdentityDigest job.proof.runIdentityDigest .runIdentityDigestMismatch
  ck job.expectation.shard job.proof.shard .shardIdentityMismatch
  ck job.expectation.publicStatementDigest job.proof.publicStatementDigest .publicStatementDigestMismatch
  ck job.expectation.artifactDigest job.proof.artifactDigest .artifactDigestMismatch
  refuseIf (job.proofBytes = []) .missingProofArtifact
  refuseIf (job.proof.artifactManifest = []) .missingArtifactManifest
  refuseIf (digest blake3 job.proofBytes ≠ job.proof.proofDigest ∨ job.expectation.proofDigest ≠ job.proof.proofDigest)
    .proofDigestMismatch
  let request ← (CryptoVerificationRequest.new blake3 job.proof job.proofBytes
    ⟨job.expectation.proofFlavor, job.expectation.circuitDigest, job.expectation.verificationKeyDigest⟩
    job.expectation.witnessArtifactDigest).mapError fun _ => .malformedProofArtifact
  let receipt ← backend.verifyCryptographically request
  refuseIf (receipt.requestBindingDigest ≠ request.requestBindingDigest) .receiptBindingMismatch
  return ⟨job.proof⟩

end Model

variable {blake3 : Blake3} {backend : ProofBackend blake3} {job : VerificationJob blake3} {v : VerifiedProof blake3}
  {request other : CryptoVerificationRequest blake3}

section Accepted

/-- The request that is sent for a job. -/
structure RequestFor (job : VerificationJob blake3) (request : CryptoVerificationRequest blake3) : Prop where
  proof : request.proof = job.proof
  proofBytes : request.proofBytes = job.proofBytes
  verificationKey : request.verificationKey =
    ⟨job.expectation.proofFlavor, job.expectation.circuitDigest, job.expectation.verificationKeyDigest⟩
  witness : request.expectedWitnessArtifactDigest = job.expectation.witnessArtifactDigest

/-- The proof is the one that was expected. -/
structure AsExpected (e : VerificationExpectation) (p : UnverifiedProof blake3) : Prop where
  proofDigest : p.proofDigest = e.proofDigest
  artifactDigest : p.artifactDigest = e.artifactDigest
  publicStatementDigest : p.publicStatementDigest = e.publicStatementDigest
  circuitDigest : p.circuitDigest = e.circuitDigest
  verificationKeyDigest : p.verificationKeyDigest = e.verificationKeyDigest
  runIdentityDigest : p.runIdentityDigest = e.runIdentityDigest
  proofFlavor : p.proofFlavor = e.proofFlavor
  executionBackend : p.executionBackend = e.executionBackend
  shard : p.shard = e.shard

theorem refuseIf_ok {c : Prop} [Decidable c] {error : VerificationError} : refuseIf c error = .ok () ↔ ¬c := by
  unfold refuseIf
  split <;> simp_all

theorem ck_ok {α : Type} [DecidableEq α] {expected actual : α} {error : VerificationError} :
    ck expected actual error = .ok () ↔ actual = expected := by
  rw [ck, refuseIf_ok, not_not, eq_comm]

theorem request_ok {proof : UnverifiedProof blake3} {proofBytes : List UInt8} {key : KeyIdentity} {witness : Digest32}
    (h : CryptoVerificationRequest.new blake3 proof proofBytes key witness = .ok request) :
    request.proof = proof ∧ request.proofBytes = proofBytes ∧ request.verificationKey = key ∧
      request.expectedWitnessArtifactDigest = witness := by
  unfold CryptoVerificationRequest.new at h
  split at h
  · cases h
  · split at h
    · cases h
    · cases h
      exact ⟨rfl, rfl, rfl, rfl⟩

/-- What is verified is the proof of the job, as expected, and the backend has signed the request for it. -/
theorem verifyProof_ok (h : verifyProof backend job = .ok v) :
    v.proof = job.proof ∧ AsExpected job.expectation v.proof ∧ digest blake3 job.proofBytes = v.proof.proofDigest ∧
      ∃ request receipt, RequestFor job request ∧ backend.verifyCryptographically request = .ok receipt ∧
        receipt.requestBindingDigest = request.requestBindingDigest := by
  unfold verifyProof at h
  simp only [bind_eq_ok] at h
  obtain ⟨_, -, _, -, _, hflavor, _, hbackend, _, hcircuit, _, hkey, _, hrun, _, hshard, _, hstatement, _, hartifact, _, -,
    _, -, _, hdigest, request, hrequest, receipt, hreceipt, _, hbinding, h⟩ := h
  cases h
  obtain ⟨hhash, hproof⟩ := not_or.mp (refuseIf_ok.mp hdigest)
  obtain ⟨hp, hbytes, hverification, hwitness⟩ := request_ok (FixedPoint.mapError_eq_ok.mp hrequest)
  refine ⟨rfl, ?_, not_not.mp hhash, request, receipt, ⟨hp, hbytes, hverification, hwitness⟩, hreceipt,
    not_not.mp (refuseIf_ok.mp hbinding)⟩
  exact ⟨(not_not.mp hproof).symm, ck_ok.mp hartifact, ck_ok.mp hstatement, ck_ok.mp hcircuit, ck_ok.mp hkey, ck_ok.mp hrun,
    ck_ok.mp hflavor, ck_ok.mp hbackend, ck_ok.mp hshard⟩

end Accepted

section Binding

/-- Two proofs that differ at most in their paths. -/
structure SameProof (p q : UnverifiedProof blake3) : Prop where
  proofDigest : p.proofDigest = q.proofDigest
  publicStatement : p.publicStatement = q.publicStatement
  publicStatementDigest : p.publicStatementDigest = q.publicStatementDigest
  circuitDigest : p.circuitDigest = q.circuitDigest
  verificationKeyDigest : p.verificationKeyDigest = q.verificationKeyDigest
  proofFlavor : p.proofFlavor = q.proofFlavor
  executionBackend : p.executionBackend = q.executionBackend
  shard : p.shard = q.shard
  artifactManifest : p.artifactManifest = q.artifactManifest
  artifactDigest : p.artifactDigest = q.artifactDigest
  runIdentityDigest : p.runIdentityDigest = q.runIdentityDigest

/-- Two requests that differ at most in the paths of their proofs. -/
structure SameRequest (a b : CryptoVerificationRequest blake3) : Prop where
  proof : SameProof a.proof b.proof
  proofBytes : a.proofBytes = b.proofBytes
  verificationKey : a.verificationKey = b.verificationKey
  witness : a.expectedWitnessArtifactDigest = b.expectedWitnessArtifactDigest

/-- The texts of the request are strings of the machine. -/
structure RequestFits (request : CryptoVerificationRequest blake3) : Prop where
  proofFlavor : TextFits request.proof.proofFlavor.text
  executionBackend : TextFits request.proof.executionBackend.text

theorem validBytes_ok {bytes : List UInt8} (h : validBytes bytes = .ok ()) : Machine bytes.length := by
  unfold validBytes at h
  split at h
  · cases h
  · rename_i hle
    exact (not_lt.mp hle).trans_lt (by decide)

theorem validText_ok {text : String} (h : validText text = .ok ()) : TextFits text := by
  unfold validText at h
  split at h
  · cases h
  · rename_i hle
    exact (not_lt.mp fun hlt => hle (.inr hlt)).trans_lt (by decide)

theorem prefixFree_sizedBytes : PrefixFree (fun bytes : List UInt8 => Machine bytes.length) sized :=
  prefixFree_sized 8 id (fun _ _ _ _ h => h) fun _ h => h

theorem reveals_digests : Reveals RequestFits (fun request : CryptoVerificationRequest blake3 =>
    request.digests.flatMap encodeDigest) fun a b => a.digests = b.digests :=
  fun _ _ _ _ _ _ h => prefixFree_encodeDigest.flatMap (fun _ _ => trivial) (fun _ _ => trivial) rfl h

theorem reveals_bindingBytes : Reveals RequestFits (fun request : CryptoVerificationRequest blake3 => request.bindingBytes) SameRequest := by
  have hdomain : Reveals RequestFits (fun _ : CryptoVerificationRequest blake3 => utf8 "zkie.crypto-request.v1") _ :=
    reveals_const _
  have hflavor := hdomain.append (prefixFree_encodeText.comp (fun r => r.proof.proofFlavor.text) fun _ h => h.proofFlavor)
  have hbackend := hflavor.append
    (prefixFree_encodeText.comp (fun r => r.proof.executionBackend.text) fun _ h => h.executionBackend)
  have hid := hbackend.append (prefixFree_word64.field fun r => r.proof.shard.id)
  have hname := hid.append (prefixFree_encodeText.comp (fun r => r.proof.shard.name) fun r _ => validText_ok r.proof.shard.named)
  have hshard := hname.append (prefixFree_encodeDigest.field fun r => r.proof.shard.circuitDigest)
  have hkey := hshard.append (prefixFree_encodeText.comp (fun r => r.verificationKey.proofFlavor.text)
    fun r h => r.flavor ▸ h.proofFlavor)
  have hcircuit := hkey.append (prefixFree_encodeDigest.field fun r => r.verificationKey.circuitDigest)
  have hdigests := hcircuit.append reveals_digests
  have hstatement := hdigests.append
    (prefixFree_sizedBytes.comp (fun r => r.proof.publicStatement) fun r _ => validBytes_ok r.proof.statement)
  have hmanifest := hstatement.append
    (prefixFree_sizedBytes.comp (fun r => r.proof.artifactManifest) fun r _ => validBytes_ok r.proof.manifest.1)
  have hbytes := hmanifest.append (prefixFree_sizedBytes.comp (fun r => r.proofBytes) fun r _ => validBytes_ok r.bytes.1)
  apply hbytes.imp
  rintro a b - - ⟨⟨⟨⟨⟨⟨⟨⟨⟨⟨⟨-, hf⟩, he⟩, hi⟩, hn⟩, hs⟩, hk⟩, hkc⟩, hds⟩, hp⟩, ha⟩, hb⟩
  simp only [CryptoVerificationRequest.digests, List.cons.injEq, and_true] at hds
  obtain ⟨hproof, hartifact, hpublic, hc, hvk, hrun, hkd, hwitness⟩ := hds
  exact
    { proof :=
        { proofDigest := hproof
          publicStatement := hp
          publicStatementDigest := hpublic
          circuitDigest := hc
          verificationKeyDigest := hvk
          proofFlavor := ProofFlavorId.ext hf
          executionBackend := ExecutionBackendId.ext he
          shard := ShardIdentity.ext hi hn hs
          artifactManifest := ha
          artifactDigest := hartifact
          runIdentityDigest := hrun }
      proofBytes := hb
      verificationKey := KeyIdentity.ext (ProofFlavorId.ext hk) hkc hkd
      witness := hwitness }

/-- The bound bytes say everything about a request but the path of its proof. -/
theorem bindingBytes_eq_iff (h : RequestFits request) (h' : RequestFits other) :
    request.bindingBytes = other.bindingBytes ↔ SameRequest request other := by
  constructor
  · exact reveals_bindingBytes.of_eq h h'
  · rintro ⟨hproof, hbytes, hkey, hwitness⟩
    unfold CryptoVerificationRequest.bindingBytes CryptoVerificationRequest.digests
    rw [hproof.proofFlavor, hproof.executionBackend, hproof.shard, hproof.publicStatement, hproof.artifactManifest,
      hproof.proofDigest, hproof.artifactDigest, hproof.publicStatementDigest, hproof.circuitDigest,
      hproof.verificationKeyDigest, hproof.runIdentityDigest, hbytes, hkey, hwitness]

/-- A receipt for another request is accepted only if the two byte strings collide. -/
theorem replay_collides (h : RequestFits request) (h' : RequestFits other) (hother : ¬SameRequest request other)
    (hsame : request.requestBindingDigest = other.requestBindingDigest) :
    request.bindingBytes ≠ other.bindingBytes ∧ blake3 request.bindingBytes = blake3 other.bindingBytes :=
  ⟨fun heq => hother ((bindingBytes_eq_iff h h').mp heq), (Digest32.mk.injEq _ _).mp hsame⟩

/-- What a verified proof stands for. -/
structure Verified (backend : ProofBackend blake3) (job : VerificationJob blake3) (v : VerifiedProof blake3) : Prop where
  proof : v.proof = job.proof
  expected : AsExpected job.expectation v.proof
  hashes : digest blake3 job.proofBytes = v.proof.proofDigest
  signed : ∃ request receipt, RequestFor job request ∧ backend.verifyCryptographically request = .ok receipt ∧
    receipt.requestBindingDigest = request.requestBindingDigest ∧
    ∀ other, RequestFits request → RequestFits other → receipt.requestBindingDigest = other.requestBindingDigest →
      SameRequest request other ∨
        request.bindingBytes ≠ other.bindingBytes ∧ blake3 request.bindingBytes = blake3 other.bindingBytes

/-- What is verified is as expected and signed for its own request, and the signed bytes determine the request up to
the path of the proof. -/
theorem verifyProof_binds (blake3 : Blake3) :
    (∀ (backend : ProofBackend blake3) (job : VerificationJob blake3) (v : VerifiedProof blake3),
      verifyProof backend job = .ok v → Verified backend job v) ∧
    ∀ request other : CryptoVerificationRequest blake3, RequestFits request → RequestFits other →
      (request.bindingBytes = other.bindingBytes ↔ SameRequest request other) := by
  refine ⟨fun backend job v h => ?_, fun _ _ => bindingBytes_eq_iff⟩
  obtain ⟨hproof, hexpected, hhash, request, receipt, hfor, hreceipt, hbinding⟩ := verifyProof_ok h
  refine ⟨hproof, hexpected, hhash, request, receipt, hfor, hreceipt, hbinding, fun other hfits hother hdigest => ?_⟩
  by_cases hsame : SameRequest request other
  · exact .inl hsame
  · exact .inr (replay_collides hfits hother hsame (hbinding.symm.trans hdigest))

/-- With the expectation of a proof job, it is that job's shard, run, keys, statement and manifest that were proved. -/
theorem Verified.of_proofJob {proofJob : ProofJob} {executionBackend : ExecutionBackendId} {statement manifest : List UInt8}
    {proofDigest : Digest32} (h : Verified backend job v)
    (he : .ok job.expectation = VerificationExpectation.fromProofJob blake3 proofJob executionBackend statement proofDigest manifest) :
    v.proof.shard = proofJob.shard ∧ v.proof.proofFlavor = proofJob.runIdentity.proofFlavor ∧
      v.proof.runIdentityDigest = proofJob.runIdentity.canonicalDigest blake3 ∧
      v.proof.verificationKeyDigest = proofJob.preparedKeys.verificationKey.keyDigest ∧
      blake3 v.proof.publicStatement = blake3 statement ∧ blake3 v.proof.artifactManifest = blake3 manifest := by
  unfold VerificationExpectation.fromProofJob at he
  obtain ⟨_, -, he⟩ := bind_eq_ok.mp he.symm
  obtain ⟨_, -, he⟩ := bind_eq_ok.mp he
  split at he
  · cases he
  have hexpected := h.expected
  rw [← Except.ok.inj he] at hexpected
  refine ⟨hexpected.shard, hexpected.proofFlavor, hexpected.runIdentityDigest, hexpected.verificationKeyDigest, ?_, ?_⟩
  · exact (Digest32.mk.injEq _ _).mp (v.proof.statementDigest.symm.trans hexpected.publicStatementDigest)
  · exact (Digest32.mk.injEq _ _).mp (v.proof.manifestDigest.symm.trans hexpected.artifactDigest)

/-- A hash function without any strength. -/
def flatHash : Blake3 := fun _ => Vector.replicate 32 0

def flatDigest : Digest32 := ⟨Vector.replicate 32 0⟩

theorem kzg_nonempty : "kzg" ≠ "" := by
  decide

theorem kzg_ascii : ∀ c ∈ "kzg".toList, c.toNat < 128 := by
  simp

theorem cpu_nonempty : "cpu" ≠ "" := by
  decide

theorem cpu_ascii : ∀ c ∈ "cpu".toList, c.toNat < 128 := by
  simp

def kzg : ProofFlavorId := ⟨"kzg", kzg_nonempty, kzg_ascii⟩

def cpu : ExecutionBackendId := ⟨"cpu", cpu_nonempty, cpu_ascii⟩

def sampleShard : ShardIdentity := ⟨0, "shard-0", flatDigest, by decide +kernel⟩

def sampleProof (path : String) (hpath : validText path = .ok ()) : UnverifiedProof flatHash where
  proofPath := path
  proofDigest := flatDigest
  publicStatement := []
  publicStatementDigest := flatDigest
  circuitDigest := flatDigest
  verificationKeyDigest := flatDigest
  proofFlavor := kzg
  executionBackend := cpu
  shard := sampleShard
  artifactManifest := [1]
  artifactDigest := flatDigest
  runIdentityDigest := flatDigest
  path := hpath
  statement := rfl
  manifest := ⟨rfl, by decide⟩
  circuit := rfl
  statementDigest := rfl
  manifestDigest := rfl

def sampleRequest (path : String) (hpath : validText path = .ok ()) : CryptoVerificationRequest flatHash where
  proof := sampleProof path hpath
  proofBytes := [2]
  verificationKey := ⟨kzg, flatDigest, flatDigest⟩
  expectedWitnessArtifactDigest := flatDigest
  bytes := ⟨rfl, by decide⟩
  hashes := rfl
  flavor := rfl
  circuit := rfl
  key := rfl

def sampleExpectation : VerificationExpectation :=
  ⟨flatDigest, flatDigest, flatDigest, flatDigest, flatDigest, flatDigest, kzg, cpu, sampleShard, flatDigest⟩

def sampleJob : VerificationJob flatHash :=
  ⟨sampleExpectation, sampleProof "proof" (by decide +kernel), [2], rfl, by decide⟩

/-- A backend that signs every request. -/
def signing : ProofBackend flatHash where
  capabilities := ⟨cpu, [kzg], []⟩
  verifyCryptographically request := .ok ⟨request.requestBindingDigest⟩

theorem sampleRequest_fits (path : String) (hpath : validText path = .ok ()) : RequestFits (sampleRequest path hpath) :=
  ⟨show TextFits kzg.text by decide +kernel, show TextFits cpu.text by decide +kernel⟩

theorem verifyProof_binds_sample : (∃ v, verifyProof signing sampleJob = .ok v ∧ Verified signing sampleJob v) ∧
    SameRequest (sampleRequest "proof" (by decide +kernel)) (sampleRequest "other" (by decide +kernel)) := by
  constructor
  · have hok : (verifyProof signing sampleJob).toBool = true := by decide +kernel
    cases h : verifyProof signing sampleJob with
    | error e =>
      rw [h] at hok
      cases hok
    | ok v => exact ⟨v, rfl, (verifyProof_binds flatHash).1 signing sampleJob v h⟩
  · exact ((verifyProof_binds flatHash).2 _ _ (sampleRequest_fits ..) (sampleRequest_fits ..)).mp rfl

/-- The path of the proof is not among the bound bytes. -/
theorem bindingBytes_forgets_path : ¬∀ (blake3 : Blake3) (a b : CryptoVerificationRequest blake3),
    a.bindingBytes = b.bindingBytes → a = b := by
  intro h
  have hsame := h flatHash (sampleRequest "proof" (by decide +kernel)) (sampleRequest "other" (by decide +kernel)) rfl
  have hpath := congrArg (fun request => request.proof.proofPath) hsame
  exact absurd hpath (by decide)

end Binding

end Zkie.VerifyProof
