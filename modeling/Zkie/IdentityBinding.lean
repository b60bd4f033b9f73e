import Zkie.StoreMetadata
import Zkie.DigestBytes

namespace Zkie.RunDatabase

open PoseidonBoundary (utf8)
open RunState
open StoreMetadata (StoreError putDigest writeString)
open WireCodec

section Model

def ArtifactRole.tag : ArtifactRole → UInt8
  | .witness => 1
  | .preparedMaterial => 2
  | .leafProof => 3
  | .nativeVerifiedManifest => 4

def jobKindText : JobKind → String
  | .witness => "witness"
  | .prepare => "prepare"
  | .leafProof => "leaf-proof"
  | .leafVerification => "leaf-verification"
  | .nativeAggregate => "native-aggregate"

def AggregationArity.encodeInto : AggregationArity → Wire StoreError Unit
  | .notApplicable => emit [0]
  | .actual arity => do
      ensure (2 ≤ arity.toNat) .invalidMetadata
      emit [1]
      putU32 arity

theorem ArtifactRole.tag_injective : Function.Injective ArtifactRole.tag := by
  intro a b h
  cases a <;> cases b <;> first | rfl | exact absurd h (by decide)

theorem jobKindText_injective : Function.Injective jobKindText := by
  intro a b h
  cases a <;> cases b <;> first | rfl | exact absurd h (by decide)

def proofIdentityDomain : List UInt8 := utf8 "zkie-proof-identity-v1" ++ [0]

namespace TrustedProofIdentity

def digests (identity : TrustedProofIdentity) : List Digest32 :=
  [identity.proofContentDigest, identity.artifactManifestDigest, identity.runIdentityDigest, identity.publicStatementDigest,
    identity.circuitDigest, identity.verifyingKeyDigest, identity.srsSourceDigest, identity.shardIdentityDigest,
    identity.witnessArtifactDigest]

def putFields (identity : TrustedProofIdentity) : Wire StoreError Unit := do
  emit [identity.artifactRole.tag]
  writeString (jobKindText identity.jobKind)
  putU32 identity.k
  identity.aggregationArity.encodeInto
  writeString identity.runId
  writeString identity.job.text
  writeString identity.attempt.text
  putEach putDigest identity.digests
  writeString identity.proofFlavor
  writeString identity.executionBackend

def put (identity : TrustedProofIdentity) : Wire StoreError Unit := do
  emit proofIdentityDomain
  identity.putFields

def canonicalBytes (identity : TrustedProofIdentity) : Except StoreError (List UInt8) := do
  let (_, bytes) ← identity.put []
  return bytes

/-- The arity is checked where it is encoded. -/
def new (artifactRole : ArtifactRole) (jobKind : JobKind) (k : UInt32) (aggregationArity : AggregationArity) (runId : String)
    (job : JobId) (attempt : AttemptId) (proofContentDigest artifactManifestDigest runIdentityDigest publicStatementDigest
    circuitDigest verifyingKeyDigest srsSourceDigest shardIdentityDigest witnessArtifactDigest : Digest32)
    (proofFlavor executionBackend : String) : Except StoreError TrustedProofIdentity :=
  if h : IsIdentifier proofFlavor ∧ IsIdentifier executionBackend ∧ IsIdentifier runId ∧
      RoleMatches artifactRole jobKind aggregationArity then do
    let identity : TrustedProofIdentity :=
      ⟨artifactRole, jobKind, k, aggregationArity, runId, job, attempt, proofContentDigest, artifactManifestDigest,
        runIdentityDigest, publicStatementDigest, circuitDigest, verifyingKeyDigest, srsSourceDigest, shardIdentityDigest,
        witnessArtifactDigest, proofFlavor, executionBackend, h.2.2.2⟩
    let _ ← identity.canonicalBytes
    return identity
  else throw .invalidMetadata

/-- The identities that the constructor returns. -/
def Accepted (identity : TrustedProofIdentity) : Prop :=
  new identity.artifactRole identity.jobKind identity.k identity.aggregationArity identity.runId identity.job identity.attempt
    identity.proofContentDigest identity.artifactManifestDigest identity.runIdentityDigest identity.publicStatementDigest
    identity.circuitDigest identity.verifyingKeyDigest identity.srsSourceDigest identity.shardIdentityDigest
    identity.witnessArtifactDigest identity.proofFlavor identity.executionBackend = .ok identity

/-- `none` is the panic of an identity that cannot be encoded. -/
def digest (blake3 : List UInt8 → Digest32) (identity : TrustedProofIdentity) : Option Digest32 :=
  identity.canonicalBytes.toOption.map blake3

end TrustedProofIdentity

end Model

end Zkie.RunDatabase

namespace Zkie.StoreMetadata

open PoseidonBoundary (utf8)
open RunDatabase (Digest32 jobKindText)
open RunState
open WireCodec

section KeyIdentity

inductive KeyRole where
  | provingAndVerifyingKey
  deriving DecidableEq, Repr

def KeyRole.tag : KeyRole → UInt8
  | .provingAndVerifyingKey => 1

theorem KeyRole.tag_injective : Function.Injective KeyRole.tag := fun _ _ _ => rfl

@[ext]
structure TrustedKeyIdentity where
  role : KeyRole
  jobKind : JobKind
  runId : String
  job : JobId
  attempt : AttemptId
  metadata : KeyMetadata
  prepares : jobKind = .prepare

def keyIdentityDomain : List UInt8 := utf8 "zkie-key-identity-v1" ++ [0]

namespace TrustedKeyIdentity

def putFields (identity : TrustedKeyIdentity) : Wire StoreError Unit := do
  emit [identity.role.tag]
  writeString (jobKindText identity.jobKind)
  writeString identity.runId
  writeString identity.job.text
  writeString identity.attempt.text
  putDigest identity.metadata.contentDigest
  putU64 identity.metadata.size
  putDigest identity.metadata.srsSourceDigest
  writeString identity.metadata.proofFlavor.text
  putDigest identity.metadata.circuitDigest
  putU32 identity.metadata.k
  putU32 identity.metadata.aggregationArity

def put (identity : TrustedKeyIdentity) : Wire StoreError Unit := do
  emit keyIdentityDomain
  identity.putFields

def canonicalBytes (identity : TrustedKeyIdentity) : Except StoreError (List UInt8) := do
  let (_, bytes) ← identity.put []
  return bytes

def new (role : KeyRole) (jobKind : JobKind) (runId : String) (job : JobId) (attempt : AttemptId) (metadata : KeyMetadata) :
    Except StoreError TrustedKeyIdentity :=
  if h : IsIdentifier runId ∧ jobKind = .prepare then do
    let identity : TrustedKeyIdentity := ⟨role, jobKind, runId, job, attempt, metadata, h.2⟩
    let _ ← identity.canonicalBytes
    return identity
  else throw .invalidMetadata

def Accepted (identity : TrustedKeyIdentity) : Prop :=
  new identity.role identity.jobKind identity.runId identity.job identity.attempt identity.metadata = .ok identity

def digest (blake3 : List UInt8 → Digest32) (identity : TrustedKeyIdentity) : Option Digest32 :=
  identity.canonicalBytes.toOption.map blake3

/-- The same identity, whichever digest its metadata are bound to. -/
def SameUnbound (a b : TrustedKeyIdentity) : Prop :=
  ∃ keyIdentityDigest, b = { a with metadata := { a.metadata with keyIdentityDigest } }

end TrustedKeyIdentity

end KeyIdentity

end Zkie.StoreMetadata

namespace Zkie.IdentityBinding

open DigestBytes
open Encoding
open LittleEndian (toBytes)
open PoseidonBoundary (utf8)
open RunDatabase (AggregationArity ArtifactRole Digest32 RoleMatches TrustedProofIdentity jobKindText jobKindText_injective
  proofIdentityDomain)
open RunState (Identifier IsIdentifier JobKind)
open StoreMetadata (KeyRole StoreError TrustedKeyIdentity keyIdentityDomain measured_digest measured_string putDigest
  writeString)
open WireCodec

section Components

theorem agreement_tag {α : Type} {tag : α → UInt8} (h : Function.Injective tag) (a b : α) :
    Agreement (emit [tag a] : Wire ε Unit) (emit [tag b]) (a = b) :=
  .of_reveals (prefixFree_tag h) trivial trivial

theorem agreement_u32 (m n : UInt32) : Agreement (putU32 m : Wire ε Unit) (putU32 n) (m = n) :=
  .of_reveals prefixFree_word32 trivial trivial

theorem agreement_u64 (m n : UInt64) : Agreement (putU64 m : Wire ε Unit) (putU64 n) (m = n) :=
  .of_reveals prefixFree_word64 trivial trivial

theorem agreement_digest (a b : Digest32) : Agreement (putDigest a) (putDigest b) (a = b) :=
  .of_reveals prefixFree_digest trivial trivial

theorem emit_emit (bytes more : List UInt8) : (emit bytes >>= fun _ => emit more : Wire ε Unit) = emit (bytes ++ more) := by
  funext out
  exact congrArg (fun b => Except.ok ((), b)) (List.append_assoc ..)

/-- A text behind its length. -/
theorem prefixFree_sizedText : PrefixFree (fun value : String => value.utf8ByteSize < 2 ^ 32)
    fun value => toBytes 4 (UInt32.ofNat value.utf8ByteSize).toNat ++ utf8 value := by
  have h := prefixFree_sized (P := fun value : String => value.utf8ByteSize < 2 ^ 32) 4 utf8
    (fun _ _ _ _ heq => Statement.utf8_injective heq) fun value hvalue => by rwa [Statement.utf8_length]
  intro a b s t ha hb heq
  apply h ha hb
  simp only [Statement.utf8_length]
  beta_reduce at heq
  rwa [UInt32.toNat_ofNat_of_lt' ha, UInt32.toNat_ofNat_of_lt' hb] at heq

theorem agreement_string (a b : String) : Agreement (writeString a) (writeString b) (a = b) := by
  apply Agreement.checked
  intro _ _
  apply Agreement.checked
  intro ha hb
  simp only [putU32, emit_emit]
  exact .of_reveals prefixFree_sizedText ha hb

def arityBytes : AggregationArity → List UInt8
  | .notApplicable => [0]
  | .actual arity => [1] ++ toBytes 4 arity.toNat

theorem prefixFree_arity : PrefixFree (fun _ => True) arityBytes := by
  rintro (_ | a) (_ | b) s t _ _ heq
  · exact ⟨rfl, (List.cons.inj heq).2⟩
  · exact absurd (List.cons.inj heq).1 (by decide)
  · exact absurd (List.cons.inj heq).1 (by decide)
  · obtain ⟨rfl, hst⟩ := prefixFree_word32 trivial trivial (List.cons.inj heq).2
    exact ⟨rfl, hst⟩

theorem agreement_arity (a b : AggregationArity) : Agreement a.encodeInto b.encodeInto (a = b) := by
  have hbytes : Agreement (emit (arityBytes a) : Wire StoreError Unit) (emit (arityBytes b)) (a = b) :=
    .of_reveals prefixFree_arity trivial trivial
  have hencode : ∀ arity : AggregationArity, arity.encodeInto = emit (arityBytes arity) ∨
      ∃ n : UInt32, arity.encodeInto = ensure (2 ≤ n.toNat) .invalidMetadata >>= fun _ => emit (arityBytes arity) := by
    intro arity
    cases arity with
    | notApplicable => exact .inl rfl
    | actual n =>
        refine .inr ⟨n, ?_⟩
        rw [arityBytes, ← emit_emit]
        rfl
  rcases hencode a with ha | ⟨m, ha⟩ <;> rcases hencode b with hb | ⟨n, hb⟩ <;> rw [ha, hb]
  · exact hbytes
  · exact (Agreement.checked_left fun _ => hbytes.symm).symm
  · exact .checked_left fun _ => hbytes
  · exact .checked fun _ _ => hbytes

theorem agreement_domain : Agreement (emit proofIdentityDomain : Wire ε Unit) (emit keyIdentityDomain) False := by
  intro out out' e f hx hy
  cases hx
  cases hy
  refine ⟨_, _, rfl, rfl, fun s t heq => ?_⟩
  -- the two domains part at the name of the kind of identity
  have hbyte := congrArg (fun bytes => bytes[5]?) heq
  simp only [List.getElem?_append_left (show 5 < proofIdentityDomain.length by decide +kernel),
    List.getElem?_append_left (show 5 < keyIdentityDomain.length by decide +kernel)] at hbyte
  exact absurd hbyte (by decide +kernel)

end Components

attribute [ext] TrustedProofIdentity

section Encodings

variable {p q : TrustedProofIdentity} {a b : TrustedKeyIdentity}

theorem agreement_digests (p q : TrustedProofIdentity) :
    Agreement (putEach putDigest p.digests) (putEach putDigest q.digests) (p.digests = q.digests) :=
  .each agreement_digest rfl

theorem agreement_proof (p q : TrustedProofIdentity) : Agreement p.putFields q.putFields (p = q) := by
  have hbackend := agreement_string p.executionBackend q.executionBackend
  have hflavor := (agreement_string p.proofFlavor q.proofFlavor).bind hbackend
  have hdigests := (agreement_digests p q).bind hflavor
  have hattempt := (agreement_string p.attempt.text q.attempt.text).bind hdigests
  have hjob := (agreement_string p.job.text q.job.text).bind hattempt
  have hrun := (agreement_string p.runId q.runId).bind hjob
  have harity := (agreement_arity p.aggregationArity q.aggregationArity).bind hrun
  have hk := (agreement_u32 p.k q.k).bind harity
  have hkind := (agreement_string (jobKindText p.jobKind) (jobKindText q.jobKind)).bind hk
  have hrole := (agreement_tag ArtifactRole.tag_injective p.artifactRole q.artifactRole).bind hkind
  apply hrole.imp
  rintro ⟨hrole, hkind, hk, harity, hrun, hjob, hattempt, hdigests, hflavor, hbackend⟩
  simp only [TrustedProofIdentity.digests, List.cons.injEq, and_true] at hdigests
  obtain ⟨hcontent, hmanifest, hidentity, hstatement, hcircuit, hkey, hsrs, hshard, hwitness⟩ := hdigests
  ext1 <;> first | assumption | exact jobKindText_injective hkind | exact Identifier.ext ‹_›

theorem agreement_key (a b : TrustedKeyIdentity) : Agreement a.putFields b.putFields (a.SameUnbound b) := by
  have harity := agreement_u32 (ε := StoreError) a.metadata.aggregationArity b.metadata.aggregationArity
  have hk := (agreement_u32 a.metadata.k b.metadata.k).bind harity
  have hcircuit := (agreement_digest a.metadata.circuitDigest b.metadata.circuitDigest).bind hk
  have hflavor := (agreement_string a.metadata.proofFlavor.text b.metadata.proofFlavor.text).bind hcircuit
  have hsrs := (agreement_digest a.metadata.srsSourceDigest b.metadata.srsSourceDigest).bind hflavor
  have hsize := (agreement_u64 a.metadata.size b.metadata.size).bind hsrs
  have hcontent := (agreement_digest a.metadata.contentDigest b.metadata.contentDigest).bind hsize
  have hattempt := (agreement_string a.attempt.text b.attempt.text).bind hcontent
  have hjob := (agreement_string a.job.text b.job.text).bind hattempt
  have hrun := (agreement_string a.runId b.runId).bind hjob
  have hkind := (agreement_string (jobKindText a.jobKind) (jobKindText b.jobKind)).bind hrun
  have hrole := (agreement_tag KeyRole.tag_injective a.role b.role).bind hkind
  apply hrole.imp
  rintro ⟨hrole, hkind, hrun, hjob, hattempt, hcontent, hsize, hsrs, hflavor, hcircuit, hk, harity⟩
  refine ⟨b.metadata.keyIdentityDigest, ?_⟩
  ext1
  · exact hrole.symm
  · exact jobKindText_injective hkind.symm
  · exact hrun.symm
  · exact Identifier.ext hjob.symm
  · exact Identifier.ext hattempt.symm
  · ext1
    · exact hcontent.symm
    · exact hsize.symm
    · exact hsrs.symm
    · exact Statement.ProofFlavorId.ext hflavor.symm
    · exact hcircuit.symm
    · exact hk.symm
    · exact harity.symm
    · rfl

theorem written_ok {x : Wire StoreError Unit} {bytes : List UInt8} :
    (do let (_, output) ← x []; return output : Except StoreError (List UInt8)) = .ok bytes ↔ x [] = .ok ((), bytes) := by
  rw [Checked.bind_eq_ok]
  constructor
  · rintro ⟨⟨_, output⟩, hput, h⟩
    cases h
    exact hput
  · intro hput
    exact ⟨((), bytes), hput, rfl⟩

theorem canonicalBytes_ok {bytes : List UInt8} : p.canonicalBytes = .ok bytes ↔ p.put [] = .ok ((), bytes) := written_ok

theorem keyBytes_ok {bytes : List UInt8} : a.canonicalBytes = .ok bytes ↔ a.put [] = .ok ((), bytes) := written_ok

theorem kind_valid (kind : JobKind) : IsIdentifier (jobKindText kind) := by
  cases kind <;> decide

theorem measured_arity (arity : AggregationArity) :
    Measured arity.encodeInto (arityBytes arity).length (∀ n, arity = .actual n → 2 ≤ n.toNat) := by
  cases arity with
  | notApplicable => exact (Measured.emit [0]).of_eq rfl (iff_of_true trivial (by simp))
  | actual n =>
      apply (Measured.ensure.bind ((Measured.emit [1]).bind (Measured.u32 n))).of_eq
      · simp [arityBytes, LittleEndian.toBytes_length]
      · simp

theorem matches_arity (p : TrustedProofIdentity) : ∀ n, p.aggregationArity = .actual n → 2 ≤ n.toNat := by
  intro n harity
  have h := p.roleMatches
  rw [harity] at h
  unfold RoleMatches at h
  split at h
  all_goals simp_all

/-- Nothing of an identity but its texts can keep it from being encoded. -/
theorem canonicalBytes_succeeds (hrun : IsIdentifier p.runId) (hflavor : IsIdentifier p.proofFlavor)
    (hbackend : IsIdentifier p.executionBackend) : ∃ bytes, p.canonicalBytes = .ok bytes := by
  have htexts := (Measured.each measured_digest p.digests).bind
    ((measured_string p.proofFlavor).bind (measured_string p.executionBackend))
  have hnames := (measured_string p.runId).bind ((measured_string p.job.text).bind ((measured_string p.attempt.text).bind htexts))
  have hhead := (Measured.u32 p.k).bind ((measured_arity p.aggregationArity).bind hnames)
  have hmeasured := (Measured.emit proofIdentityDomain).bind ((Measured.emit [p.artifactRole.tag]).bind
    ((measured_string (jobKindText p.jobKind)).bind hhead))
  obtain ⟨bytes, hput, -⟩ := hmeasured.writes ⟨trivial, trivial, kind_valid p.jobKind, trivial, matches_arity p, hrun,
    p.job.valid, p.attempt.valid, fun _ _ => trivial, hflavor, hbackend⟩ []
  exact ⟨bytes, canonicalBytes_ok.mpr hput⟩

theorem keyBytes_succeeds (hrun : IsIdentifier a.runId) : ∃ bytes, a.canonicalBytes = .ok bytes := by
  have hparameters := (measured_digest a.metadata.circuitDigest).bind ((Measured.u32 a.metadata.k).bind
    (Measured.u32 a.metadata.aggregationArity))
  have hmetadata := (measured_digest a.metadata.contentDigest).bind ((Measured.u64 a.metadata.size).bind
    ((measured_digest a.metadata.srsSourceDigest).bind ((measured_string a.metadata.proofFlavor.text).bind hparameters)))
  have hnames := (measured_string a.runId).bind ((measured_string a.job.text).bind ((measured_string a.attempt.text).bind hmetadata))
  have hmeasured := (Measured.emit keyIdentityDomain).bind ((Measured.emit [a.role.tag]).bind
    ((measured_string (jobKindText a.jobKind)).bind hnames))
  obtain ⟨bytes, hput, -⟩ := hmeasured.writes ⟨trivial, trivial, kind_valid a.jobKind, hrun, a.job.valid, a.attempt.valid,
    trivial, trivial, trivial, a.metadata.named, trivial, trivial, trivial⟩ []
  exact ⟨bytes, keyBytes_ok.mpr hput⟩

theorem accepted_iff :
    p.Accepted ↔ IsIdentifier p.proofFlavor ∧ IsIdentifier p.executionBackend ∧ IsIdentifier p.runId := by
  unfold TrustedProofIdentity.Accepted TrustedProofIdentity.new
  constructor
  · intro h
    split at h
    · rename_i hvalid
      exact ⟨hvalid.1, hvalid.2.1, hvalid.2.2.1⟩
    · cases h
  · rintro ⟨hflavor, hbackend, hrun⟩
    obtain ⟨bytes, hbytes⟩ := canonicalBytes_succeeds hrun hflavor hbackend
    rw [dif_pos ⟨hflavor, hbackend, hrun, p.roleMatches⟩]
    exact Checked.bind_eq_ok.mpr ⟨bytes, hbytes, rfl⟩

theorem key_accepted_iff : a.Accepted ↔ IsIdentifier a.runId := by
  unfold TrustedKeyIdentity.Accepted TrustedKeyIdentity.new
  constructor
  · intro h
    split at h
    · rename_i hvalid
      exact hvalid.1
    · cases h
  · intro hrun
    obtain ⟨bytes, hbytes⟩ := keyBytes_succeeds hrun
    rw [dif_pos ⟨hrun, a.prepares⟩]
    exact Checked.bind_eq_ok.mpr ⟨bytes, hbytes, rfl⟩

theorem putFields_sameUnbound (h : a.SameUnbound b) : a.putFields = b.putFields := by
  obtain ⟨keyIdentityDigest, rfl⟩ := h
  rfl

theorem proof_put (p q : TrustedProofIdentity) : Agreement p.put q.put (p = q) :=
  ((Agreement.const proofIdentityDomain).bind (agreement_proof p q)).imp And.right

theorem key_put (a b : TrustedKeyIdentity) : Agreement a.put b.put (a.SameUnbound b) :=
  ((Agreement.const keyIdentityDomain).bind (agreement_key a b)).imp And.right

theorem proof_key_put (p : TrustedProofIdentity) (a : TrustedKeyIdentity) : Agreement p.put a.put False :=
  agreement_domain.apart (agreement_proof p p) (agreement_key a a)

/-- An identity that was accepted has a digest. -/
theorem accepted_encodes (hp : p.Accepted) : ∃ bytes, p.canonicalBytes = .ok bytes ∧ ∀ blake3, p.digest blake3 = some (blake3 bytes) := by
  obtain ⟨hflavor, hbackend, hrun⟩ := accepted_iff.mp hp
  obtain ⟨bytes, hbytes⟩ := canonicalBytes_succeeds hrun hflavor hbackend
  refine ⟨bytes, hbytes, fun blake3 => ?_⟩
  rw [TrustedProofIdentity.digest, hbytes]
  rfl

theorem key_accepted_encodes (ha : a.Accepted) :
    ∃ bytes, a.canonicalBytes = .ok bytes ∧ ∀ blake3, a.digest blake3 = some (blake3 bytes) := by
  obtain ⟨bytes, hbytes⟩ := keyBytes_succeeds (key_accepted_iff.mp ha)
  refine ⟨bytes, hbytes, fun blake3 => ?_⟩
  rw [TrustedKeyIdentity.digest, hbytes]
  rfl

/-- What a digest is taken of tells the identities apart, keys up to the digest that is bound into
their metadata afterwards. -/
theorem identities_bound (hp : p.Accepted) (ha : a.Accepted) :
    (p.canonicalBytes = q.canonicalBytes ↔ p = q) ∧ (a.canonicalBytes = b.canonicalBytes ↔ a.SameUnbound b) ∧
      p.canonicalBytes ≠ a.canonicalBytes := by
  obtain ⟨bytes, hbytes, -⟩ := accepted_encodes hp
  obtain ⟨keyBytes, hkeyBytes, -⟩ := key_accepted_encodes ha
  have hput := canonicalBytes_ok.mp hbytes
  have hkeyPut := keyBytes_ok.mp hkeyBytes
  refine ⟨⟨fun heq => ?_, congrArg _⟩, ⟨fun heq => ?_, fun hsame => ?_⟩, fun heq => ?_⟩
  · exact (proof_put p q).of_eq hput (canonicalBytes_ok.mp (heq.symm.trans hbytes))
  · exact (key_put a b).of_eq hkeyPut (keyBytes_ok.mp (heq.symm.trans hkeyBytes))
  · rw [TrustedKeyIdentity.canonicalBytes, TrustedKeyIdentity.put, putFields_sameUnbound hsame]
    rfl
  · exact (proof_key_put p a).of_eq hput (keyBytes_ok.mp (heq.symm.trans hbytes))

theorem sample_valid : IsIdentifier "sample" := by decide

def sampleId : Identifier := ⟨"sample", sample_valid⟩

def noDigest : Digest32 := ⟨Vector.replicate 32 0⟩

def sampleProof : TrustedProofIdentity :=
  ⟨.witness, .witness, 1, .notApplicable, "sample", sampleId, sampleId, noDigest, noDigest, noDigest, noDigest, noDigest,
    noDigest, noDigest, noDigest, noDigest, "sample", "sample", trivial⟩

theorem sample_ascii : ∀ c ∈ "sample".toList, c.toNat < 128 := fun c hc => (sample_valid.2.2 c hc).1

theorem one_aggregates : (1 : UInt32) ≠ 0 := by decide

/-- The identity of one key, with what its metadata are bound to. -/
def sampleKey (keyIdentityDigest : Option Digest32) : TrustedKeyIdentity where
  role := .provingAndVerifyingKey
  jobKind := .prepare
  runId := "sample"
  job := sampleId
  attempt := sampleId
  metadata :=
    { contentDigest := noDigest
      size := 1
      srsSourceDigest := noDigest
      proofFlavor := ⟨"sample", sample_valid.1, sample_ascii⟩
      circuitDigest := noDigest
      k := 1
      aggregationArity := 1
      keyIdentityDigest
      named := sample_valid
      aggregates := one_aggregates }
  prepares := rfl

theorem identities_bound_sample :
    (sampleProof.canonicalBytes = sampleProof.canonicalBytes ↔ sampleProof = sampleProof) ∧
      ((sampleKey none).canonicalBytes = (sampleKey (some noDigest)).canonicalBytes ↔
        (sampleKey none).SameUnbound (sampleKey (some noDigest))) ∧
      sampleProof.canonicalBytes ≠ (sampleKey none).canonicalBytes :=
  identities_bound (accepted_iff.mpr ⟨sample_valid, sample_valid, sample_valid⟩) (key_accepted_iff.mpr sample_valid)

/-- Metadata that are bound already give the identity of the key no other bytes. -/
theorem bound_key_collides : ∃ a b : TrustedKeyIdentity, a.Accepted ∧ b.Accepted ∧ a.canonicalBytes = b.canonicalBytes ∧ a ≠ b := by
  refine ⟨sampleKey none, sampleKey (some noDigest), key_accepted_iff.mpr sample_valid, key_accepted_iff.mpr sample_valid, ?_, ?_⟩
  · rfl
  · intro h
    cases congrArg (fun identity : TrustedKeyIdentity => identity.metadata.keyIdentityDigest) h

end Encodings

end Zkie.IdentityBinding
