import Zkie.StatementWire

namespace Zkie.StoreMetadata

open PoseidonBoundary (utf8)
open RunDatabase (Digest32)
open RunState (IsIdentifier)
open Statement (ProofFlavorId)
open WireCodec

section Model

inductive StoreError where
  | invalidMetadata
  | metadataMismatch
  deriving DecidableEq, Repr

def maxMetadataBytes : ℕ := 4096

/-- An artifact, of a proof if it has the digest of an identity. -/
@[ext]
structure ArtifactMetadata where
  artifactId : String
  contentDigest : Digest32
  size : UInt64
  proofIdentityDigest : Option Digest32
  named : IsIdentifier artifactId

def ArtifactMetadata.new (artifactId : String) (contentDigest : Digest32) (size : UInt64) :
    Except StoreError ArtifactMetadata :=
  if h : IsIdentifier artifactId then .ok ⟨artifactId, contentDigest, size, none, h⟩ else .error .invalidMetadata

def ArtifactMetadata.newProof (artifactId : String) (contentDigest : Digest32) (size : UInt64)
    (proofIdentityDigest : Digest32) : Except StoreError ArtifactMetadata :=
  (ArtifactMetadata.new artifactId contentDigest size).map fun metadata =>
    { metadata with proofIdentityDigest := some proofIdentityDigest }

@[ext]
structure KeyMetadata where
  contentDigest : Digest32
  size : UInt64
  srsSourceDigest : Digest32
  proofFlavor : ProofFlavorId
  circuitDigest : Digest32
  k : UInt32
  aggregationArity : UInt32
  keyIdentityDigest : Option Digest32
  named : IsIdentifier proofFlavor.text
  aggregates : aggregationArity ≠ 0

def KeyMetadata.new (contentDigest : Digest32) (size : UInt64) (srsSourceDigest : Digest32) (proofFlavor : ProofFlavorId)
    (circuitDigest : Digest32) (k aggregationArity : UInt32) : Except StoreError KeyMetadata :=
  if h : IsIdentifier proofFlavor.text ∧ aggregationArity ≠ 0 then
    .ok ⟨contentDigest, size, srsSourceDigest, proofFlavor, circuitDigest, k, aggregationArity, none, h.1, h.2⟩
  else .error .invalidMetadata

def KeyMetadata.bindIdentity (metadata : KeyMetadata) (keyIdentityDigest : Digest32) : KeyMetadata :=
  { metadata with keyIdentityDigest := some keyIdentityDigest }

inductive ObjectMetadata where
  | artifact (value : ArtifactMetadata)
  | key (value : KeyMetadata)

def ObjectMetadata.contentDigest : ObjectMetadata → Digest32
  | .artifact value => value.contentDigest
  | .key value => value.contentDigest

def ObjectMetadata.size : ObjectMetadata → UInt64
  | .artifact value => value.size
  | .key value => value.size

end Model

section Encoder

def putDigest (digest : Digest32) : Wire StoreError Unit := emit digest.bytes.toList

def writeString (value : String) : Wire StoreError Unit := do
  ensure (IsIdentifier value) .invalidMetadata
  ensure (value.utf8ByteSize < 2 ^ 32) .invalidMetadata
  putU32 (UInt32.ofNat value.utf8ByteSize)
  emit (utf8 value)

def optionTag : Option Digest32 → UInt8
  | none => 0
  | some _ => 1

def putOption (digest : Option Digest32) : Wire StoreError Unit := do
  emit [optionTag digest]
  digest.elim (pure ()) putDigest

def ObjectMetadata.tag : ObjectMetadata → UInt8
  | .artifact _ => 1
  | .key _ => 2

def ObjectMetadata.putBody : ObjectMetadata → Wire StoreError Unit
  | .artifact value => do
      writeString value.artifactId
      putOption value.proofIdentityDigest
  | .key value => do
      putDigest value.srsSourceDigest
      writeString value.proofFlavor.text
      putDigest value.circuitDigest
      putU32 value.k
      putU32 value.aggregationArity
      putOption value.keyIdentityDigest

def ObjectMetadata.put (metadata : ObjectMetadata) : Wire StoreError Unit := do
  emit [metadata.tag]
  putDigest metadata.contentDigest
  putU64 metadata.size
  metadata.putBody

def encodeMetadata (metadata : ObjectMetadata) : Except StoreError (List UInt8) := do
  let (_, output) ← metadata.put []
  if maxMetadataBytes < output.length then throw .invalidMetadata else return output

end Encoder

section Decoder

def byte : Wire StoreError UInt8 := do
  let bytes ← take .metadataMismatch 1
  return bytes.headD 0

def digest : Wire StoreError Digest32 := do
  let bytes ← take .metadataMismatch 32
  lift (if h : bytes.toArray.size = 32 then .ok ⟨⟨bytes.toArray, h⟩⟩ else .error .metadataMismatch)

def fromUtf8 (bytes : List UInt8) : Except StoreError String := (Statement.fromUtf8 bytes).mapError fun _ => .metadataMismatch

def validated (value : String) : Except StoreError String :=
  if IsIdentifier value then .ok value else .error .metadataMismatch

def string : Wire StoreError String := do
  let len ← u32 .metadataMismatch
  let bytes ← take .metadataMismatch len.toNat
  lift (fromUtf8 bytes >>= validated)

def optionalDigest : Wire StoreError (Option Digest32) := do
  let tag ← byte
  if tag = 0 then lift (.ok none)
  else if tag = 1 then digest >>= fun value => pure (some value)
  else lift (.error .metadataMismatch)

def flavor : Wire StoreError ProofFlavorId := do
  let text ← string
  lift ((ProofFlavorId.parse text).mapError fun _ => .metadataMismatch)

def artifact (contentDigest : Digest32) (size : UInt64) : Wire StoreError ArtifactMetadata := do
  let artifactId ← string
  let identityDigest ← optionalDigest
  lift (identityDigest.elim (ArtifactMetadata.new artifactId contentDigest size)
    (ArtifactMetadata.newProof artifactId contentDigest size))

def key (contentDigest : Digest32) (size : UInt64) : Wire StoreError KeyMetadata := do
  let srsSourceDigest ← digest
  let proofFlavor ← flavor
  let circuitDigest ← digest
  let k ← u32 .metadataMismatch
  let aggregationArity ← u32 .metadataMismatch
  let metadata ← lift (KeyMetadata.new contentDigest size srsSourceDigest proofFlavor circuitDigest k aggregationArity)
  let identityDigest ← optionalDigest
  lift (.ok { metadata with keyIdentityDigest := identityDigest })

def body (tag : UInt8) (contentDigest : Digest32) (size : UInt64) : Wire StoreError ObjectMetadata :=
  if tag = 1 then artifact contentDigest size >>= fun value => pure (.artifact value)
  else if tag = 2 then key contentDigest size >>= fun value => pure (.key value)
  else lift (.error .metadataMismatch)

def metadata : Wire StoreError ObjectMetadata := do
  let tag ← byte
  let contentDigest ← digest
  let size ← u64 .metadataMismatch
  let result ← body tag contentDigest size
  finish .metadataMismatch (.ok result)

def decodeMetadata (bytes : List UInt8) : Except StoreError ObjectMetadata := (metadata bytes).map Prod.fst

end Decoder

section Components

theorem exact_byte : Exact AnyRest (fun _ => True) (fun b => emit [b]) byte := by
  apply Exact.fixed (d := fun bytes => .ok (bytes.headD 0))
  · intro b _
    exact ⟨rfl, rfl⟩
  · intro b bytes hlength h
    cases h
    obtain ⟨b, rfl⟩ := List.length_eq_one_iff.mp hlength
    exact ⟨trivial, rfl⟩

theorem exact_digest : Exact AnyRest (fun _ => True) putDigest digest := by
  apply Exact.fixed
  · intro d _
    refine ⟨by simp, ?_⟩
    simp
    cases d
    rfl
  · intro d bytes hlength h
    split at h
    · cases h
      exact ⟨trivial, by simp⟩
    · cases h

theorem identifier_size {value : String} (h : IsIdentifier value) : value.utf8ByteSize < 2 ^ 32 :=
  lt_of_le_of_lt h.2.1 (by decide)

theorem validated_ok {bytes : List UInt8} {value : String} :
    (fromUtf8 bytes >>= validated) = .ok value ↔ utf8 value = bytes ∧ IsIdentifier value := by
  rw [Checked.bind_eq_ok]
  simp only [fromUtf8, FixedPoint.mapError_eq_ok, validated]
  constructor
  · rintro ⟨text, htext, h⟩
    split_ifs at h with hid
    cases h
    exact ⟨Statement.fromUtf8_ok htext, hid⟩
  · rintro ⟨rfl, hid⟩
    exact ⟨value, Statement.fromUtf8_utf8 value, if_pos hid⟩

theorem exact_string : Exact AnyRest (fun _ => True) writeString string := by
  apply Exact.checked
  apply Exact.checked
  apply (exact_u32 _).bind (f := fun value : String => UInt32.ofNat value.utf8ByteSize)
  · intro len _
    apply Exact.fixed
    · rintro value ⟨⟨⟨-, hid⟩, hsize⟩, rfl⟩
      rw [UInt32.toNat_ofNat_of_lt' hsize]
      exact ⟨Statement.utf8_length value, validated_ok.mpr ⟨rfl, hid⟩⟩
    · intro value bytes hlength hread
      obtain ⟨hbytes, hid⟩ := validated_ok.mp hread
      have hsize : value.utf8ByteSize = len.toNat := by
        rw [← Statement.utf8_length, hbytes, hlength]
      exact ⟨⟨⟨⟨trivial, hid⟩, identifier_size hid⟩, by rw [hsize, UInt32.ofNat_toNat]⟩, hbytes⟩
  · intro value _
    trivial

theorem exact_option : Exact AnyRest (fun _ => True) putOption optionalDigest := by
  apply exact_byte.field (f := optionTag)
  intro tag
  by_cases hnone : tag = 0
  · subst hnone
    rw [if_pos rfl]
    refine Exact.congr (?_ : Exact AnyRest _ (fun _ => pure ()) _) ?_
    · apply Exact.lift.iff
      intro o
      cases o <;> simp [optionTag]
    · intro o ho
      cases o with
      | none => rfl
      | some d => simp [optionTag] at ho
  · rw [if_neg hnone]
    by_cases hsome : tag = 1
    · subst hsome
      rw [if_pos rfl]
      apply (Exact.image (g := some) exact_digest fun d _ => rfl).iff
      intro o
      cases o <;> simp [optionTag]
    · rw [if_neg hsome]
      apply Exact.never
      rintro (_ | d) ⟨-, rfl⟩
      · exact hnone rfl
      · exact hsome rfl

theorem exact_flavor : Exact AnyRest (fun _ => True) (fun f : ProofFlavorId => writeString f.text) flavor := by
  apply exact_string.last (f := ProofFlavorId.text)
  · intro text _
    apply Exact.lift.iff
    intro f
    unfold ProofFlavorId.parse
    constructor
    · intro h
      split at h
      · cases h
      · split at h
        · cases h
          exact ⟨trivial, rfl⟩
        · cases h
    · rintro ⟨-, rfl⟩
      rw [dif_neg f.nonempty, dif_pos f.ascii]
      rfl
  · intro f _
    trivial

end Components

section Exact

variable {contentDigest : Digest32} {size : UInt64}

theorem artifact_ok {artifactId : String} {identityDigest : Option Digest32} {a : ArtifactMetadata} :
    identityDigest.elim (ArtifactMetadata.new artifactId contentDigest size)
        (ArtifactMetadata.newProof artifactId contentDigest size) = .ok a ↔
      a.contentDigest = contentDigest ∧ a.size = size ∧ a.artifactId = artifactId ∧ a.proofIdentityDigest = identityDigest := by
  constructor
  · intro h
    cases identityDigest with
    | none =>
        rw [Option.elim_none, ArtifactMetadata.new] at h
        split_ifs at h
        cases h
        exact ⟨rfl, rfl, rfl, rfl⟩
    | some identity =>
        rw [Option.elim_some, ArtifactMetadata.newProof, ArtifactMetadata.new] at h
        split_ifs at h
        · cases h
          exact ⟨rfl, rfl, rfl, rfl⟩
        · cases h
  · rintro ⟨rfl, rfl, rfl, rfl⟩
    obtain ⟨artifactId, digest, size, _ | identity, hnamed⟩ := a
    · exact dif_pos hnamed
    · simp [ArtifactMetadata.newProof, ArtifactMetadata.new, hnamed, Except.map]

theorem exact_artifact (contentDigest : Digest32) (size : UInt64) :
    Exact AnyRest (fun a => a.contentDigest = contentDigest ∧ a.size = size)
      (fun a => (ObjectMetadata.artifact a).putBody) (artifact contentDigest size) := by
  apply exact_string.field (f := ArtifactMetadata.artifactId)
  intro artifactId
  apply exact_option.last (f := ArtifactMetadata.proofIdentityDigest)
  swap
  · intro a _
    trivial
  intro identityDigest _
  apply Exact.lift.iff
  intro a
  rw [artifact_ok]
  tauto

theorem key_new_ok {srsSourceDigest circuitDigest : Digest32} {proofFlavor : ProofFlavorId} {k aggregationArity : UInt32}
    {m : KeyMetadata} :
    KeyMetadata.new contentDigest size srsSourceDigest proofFlavor circuitDigest k aggregationArity = .ok m ↔
      m.contentDigest = contentDigest ∧ m.size = size ∧ m.srsSourceDigest = srsSourceDigest ∧ m.proofFlavor = proofFlavor ∧
        m.circuitDigest = circuitDigest ∧ m.k = k ∧ m.aggregationArity = aggregationArity ∧ m.keyIdentityDigest = none := by
  rw [KeyMetadata.new]
  constructor
  · intro h
    split_ifs at h
    cases h
    exact ⟨rfl, rfl, rfl, rfl, rfl, rfl, rfl, rfl⟩
  · rintro ⟨rfl, rfl, rfl, rfl, rfl, rfl, rfl, hnone⟩
    rw [dif_pos ⟨m.named, m.aggregates⟩]
    exact congrArg Except.ok (KeyMetadata.ext rfl rfl rfl rfl rfl rfl rfl hnone.symm)

theorem exact_key (contentDigest : Digest32) (size : UInt64) :
    Exact AnyRest (fun m => m.contentDigest = contentDigest ∧ m.size = size)
      (fun m => (ObjectMetadata.key m).putBody) (key contentDigest size) := by
  apply exact_digest.field (f := KeyMetadata.srsSourceDigest)
  intro srsSourceDigest
  apply exact_flavor.field (f := KeyMetadata.proofFlavor)
  intro proofFlavor
  apply exact_digest.field (f := KeyMetadata.circuitDigest)
  intro circuitDigest
  apply (exact_u32 _).field (f := KeyMetadata.k)
  intro k
  apply (exact_u32 _).field (f := KeyMetadata.aggregationArity)
  intro aggregationArity
  apply Exact.settle
  · rintro m ⟨⟨⟨⟨⟨⟨rfl, rfl⟩, rfl⟩, rfl⟩, rfl⟩, rfl⟩, rfl⟩
    exact ⟨{ m with keyIdentityDigest := none }, key_new_ok.mpr ⟨rfl, rfl, rfl, rfl, rfl, rfl, rfl, rfl⟩⟩
  intro unbound hnew
  obtain ⟨rfl, rfl, rfl, rfl, rfl, rfl, rfl, -⟩ := key_new_ok.mp hnew
  apply exact_option.last (f := KeyMetadata.keyIdentityDigest)
  swap
  · intro m _
    trivial
  intro identityDigest _
  apply Exact.lift.iff
  intro m
  constructor
  · intro h
    cases h
    exact ⟨⟨⟨⟨⟨⟨⟨rfl, rfl⟩, rfl⟩, rfl⟩, rfl⟩, rfl⟩, rfl⟩, rfl⟩
  · rintro ⟨⟨⟨⟨⟨⟨⟨hcontent, hsize⟩, hsrs⟩, hflavor⟩, hcircuit⟩, hk⟩, harity⟩, rfl⟩
    exact congrArg Except.ok (KeyMetadata.ext hcontent.symm hsize.symm hsrs.symm hflavor.symm hcircuit.symm hk.symm
      harity.symm rfl)

theorem exact_body (tag : UInt8) (contentDigest : Digest32) (size : UInt64) :
    Exact AnyRest (fun m => ((True ∧ m.tag = tag) ∧ m.contentDigest = contentDigest) ∧ m.size = size)
      ObjectMetadata.putBody (body tag contentDigest size) := by
  rw [body]
  by_cases hartifact : tag = 1
  · subst hartifact
    rw [if_pos rfl]
    apply (Exact.image (g := ObjectMetadata.artifact) (exact_artifact contentDigest size) fun _ _ => rfl).iff
    rintro (a | k) <;> simp [ObjectMetadata.tag, ObjectMetadata.contentDigest, ObjectMetadata.size]
  · rw [if_neg hartifact]
    by_cases hkey : tag = 2
    · subst hkey
      rw [if_pos rfl]
      apply (Exact.image (g := ObjectMetadata.key) (exact_key contentDigest size) fun _ _ => rfl).iff
      rintro (a | k) <;> simp [ObjectMetadata.tag, ObjectMetadata.contentDigest, ObjectMetadata.size]
    · rw [if_neg hkey]
      apply Exact.never
      rintro (a | k) ⟨⟨⟨-, rfl⟩, -⟩, -⟩
      · exact hartifact rfl
      · exact hkey rfl

theorem exact_metadata : Exact NoRest (fun _ => True) ObjectMetadata.put metadata := by
  have hopen : Exact AnyRest (fun _ => True) ObjectMetadata.put (do
      let tag ← byte
      let contentDigest ← digest
      let size ← u64 .metadataMismatch
      body tag contentDigest size) := by
    apply exact_byte.field (f := ObjectMetadata.tag)
    intro tag
    apply exact_digest.field (f := ObjectMetadata.contentDigest)
    intro contentDigest
    apply (exact_u64 _).field (f := ObjectMetadata.size)
    intro size
    exact exact_body tag contentDigest size
  have hends := Exact.ends (e := StoreError.metadataMismatch) hopen
  simp only [bind_assoc] at hends
  exact hends

end Exact

section Size

theorem measured_digest (d : Digest32) : Measured (putDigest d) 32 True :=
  (Measured.emit _).of_eq (by simp) Iff.rfl

theorem measured_string (value : String) : Measured (writeString value) (4 + value.utf8ByteSize) (IsIdentifier value) := by
  apply (Measured.ensure.bind (Measured.ensure.bind ((Measured.u32 _).bind (Measured.emit _)))).of_eq
  · rw [Statement.utf8_length, Nat.zero_add, Nat.zero_add]
  · constructor
    · exact fun h => h.1
    · exact fun h => ⟨h, identifier_size h, trivial, trivial⟩

def optionSize (digest : Option Digest32) : ℕ := 1 + digest.elim 0 fun _ => 32

theorem measured_option (digest : Option Digest32) : Measured (putOption digest) (optionSize digest) True := by
  have htag : Measured (emit [optionTag digest] : Wire StoreError Unit) 1 True := Measured.emit _
  cases digest with
  | none =>
      have hnothing : Measured (pure () : Wire StoreError Unit) 0 True :=
        ⟨fun _ out => ⟨out, rfl, rfl⟩, fun h => absurd trivial h⟩
      exact (htag.bind hnothing).of_eq rfl and_self_iff
  | some d => exact (htag.bind (measured_digest d)).of_eq rfl and_self_iff

theorem optionSize_le (digest : Option Digest32) : optionSize digest ≤ 33 := by
  cases digest <;> simp [optionSize]

def bodySize : ObjectMetadata → ℕ
  | .artifact value => 4 + value.artifactId.utf8ByteSize + optionSize value.proofIdentityDigest
  | .key value => 32 + (4 + value.proofFlavor.text.utf8ByteSize + (32 + (4 + (4 + optionSize value.keyIdentityDigest))))

theorem measured_body (m : ObjectMetadata) : Measured m.putBody (bodySize m) True := by
  cases m with
  | artifact value =>
      exact ((measured_string _).bind (measured_option _)).of_eq rfl (by simp [value.named])
  | key value =>
      exact ((measured_digest _).bind ((measured_string _).bind ((measured_digest _).bind ((Measured.u32 _).bind
        ((Measured.u32 _).bind (measured_option _)))))).of_eq rfl (by simp [value.named])

theorem bodySize_le (m : ObjectMetadata) : bodySize m ≤ 400 := by
  cases m with
  | artifact value =>
      have hname : value.artifactId.utf8ByteSize ≤ 256 := value.named.2.1
      have hoption := optionSize_le value.proofIdentityDigest
      rw [bodySize]
      omega
  | key value =>
      have hname : value.proofFlavor.text.utf8ByteSize ≤ 256 := value.named.2.1
      have hoption := optionSize_le value.keyIdentityDigest
      rw [bodySize]
      omega

theorem encodeMetadata_ok {m : ObjectMetadata} {bytes : List UInt8} :
    encodeMetadata m = .ok bytes ↔ m.put [] = .ok ((), bytes) ∧ bytes.length ≤ maxMetadataBytes := by
  rw [encodeMetadata, Checked.bind_eq_ok]
  constructor
  · rintro ⟨⟨_, output⟩, hput, h⟩
    dsimp only at h
    split_ifs at h with hlength
    cases h
    exact ⟨hput, Nat.not_lt.mp hlength⟩
  · rintro ⟨hput, hlength⟩
    exact ⟨((), bytes), hput, if_neg (Nat.not_lt.mpr hlength)⟩

theorem put_succeeds (m : ObjectMetadata) : ∃ bytes, m.put [] = .ok ((), bytes) ∧ bytes.length ≤ maxMetadataBytes := by
  have hmeasured := (Measured.emit [m.tag]).bind ((measured_digest m.contentDigest).bind ((Measured.u64 m.size).bind (measured_body m)))
  obtain ⟨bytes, hput, hlength⟩ := hmeasured.writes ⟨trivial, trivial, trivial, trivial⟩ []
  refine ⟨bytes, hput, ?_⟩
  have hbody := bodySize_le m
  simp only [List.length_nil, List.length_singleton] at hlength
  rw [maxMetadataBytes]
  omega

theorem decodeMetadata_ok {bytes : List UInt8} {m : ObjectMetadata} :
    decodeMetadata bytes = .ok m ↔ m.put [] = .ok ((), bytes) := by
  constructor
  · intro h
    cases hread : metadata bytes with
    | error e =>
        rw [decodeMetadata, hread] at h
        cases h
    | ok r =>
        rw [decodeMetadata, hread] at h
        cases h
        obtain ⟨-, hrest, used, hbytes, hput⟩ := exact_metadata.spells hread
        rw [hrest, List.append_nil] at hbytes
        rw [hbytes, ← List.nil_append used]
        exact hput []
  · intro h
    obtain ⟨used, hused, hread⟩ := exact_metadata.reads trivial h
    have hall := hread [] rfl
    rw [List.append_nil, ← List.nil_append used, ← hused] at hall
    rw [decodeMetadata, hall]
    rfl

end Size

/-- The metadata of an object has exactly one spelling, and every metadata has one. -/
theorem metadata_codec_exact :
    (∀ m : ObjectMetadata, ∃ bytes, encodeMetadata m = .ok bytes ∧ decodeMetadata bytes = .ok m) ∧
    (∀ (bytes : List UInt8) (m : ObjectMetadata), decodeMetadata bytes = .ok m → encodeMetadata m = .ok bytes) ∧
    ∀ (b b' : List UInt8) (m : ObjectMetadata), decodeMetadata b = .ok m → decodeMetadata b' = .ok m → b = b' := by
  have hspell : ∀ (bytes : List UInt8) (m : ObjectMetadata), decodeMetadata bytes = .ok m → encodeMetadata m = .ok bytes := by
    intro bytes m h
    obtain ⟨written, hput, hlength⟩ := put_succeeds m
    have hwritten := decodeMetadata_ok.mp h
    rw [hput] at hwritten
    cases hwritten
    exact encodeMetadata_ok.mpr ⟨hput, hlength⟩
  refine ⟨fun m => ?_, hspell, fun b b' m hb hb' => ?_⟩
  · obtain ⟨bytes, hput, hlength⟩ := put_succeeds m
    exact ⟨bytes, encodeMetadata_ok.mpr ⟨hput, hlength⟩, decodeMetadata_ok.mpr hput⟩
  · have hsame := (hspell b m hb).symm.trans (hspell b' m hb')
    exact Except.ok.inj hsame

end Zkie.StoreMetadata
