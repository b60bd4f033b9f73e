import Zkie.Statement

namespace Zkie.Statement

open ScalarField FixedPoint PoseidonBoundary WireCodec
open RunDatabase (Digest32)

section Components

theorem fromUtf8_utf8 (value : String) : fromUtf8 (utf8 value) = .ok value := by
  rw [fromUtf8, utf8, toByteArray_toList]
  simp [String.fromUTF8?, value.isValidUTF8]
  rfl

theorem fromUtf8_ok {bytes : List UInt8} {value : String} (h : fromUtf8 bytes = .ok value) : utf8 value = bytes := by
  unfold fromUtf8 String.fromUTF8? at h
  split at h
  · rename_i heq
    cases h
    split at heq
    · cases heq
      exact toList_toByteArray bytes
    · cases heq
  · cases h

theorem exact_string : Exact AnyRest (fun _ => True) putString string := by
  apply Exact.checked
  apply (exact_u32 _).bind (f := fun value : String => UInt32.ofNat value.utf8ByteSize)
  · intro len _
    have hlen : ∀ value : String, FitsText value → UInt32.ofNat value.utf8ByteSize = len → value.utf8ByteSize = len.toNat := by
      rintro value hfits rfl
      rw [UInt32.toNat_ofNat_of_lt' (lt_of_le_of_lt hfits.2 (by decide))]
    apply Exact.guard
    · rintro value ⟨⟨-, hfits⟩, heq⟩
      rw [← hlen value hfits heq]
      refine ⟨?_, hfits.2⟩
      rintro rfl
      exact hfits.1 (String.utf8ByteSize_eq_zero_iff.mp (hlen value hfits heq))
    · rintro ⟨hne, hle⟩
      apply Exact.fixed
      · rintro value ⟨⟨-, hfits⟩, heq⟩
        exact ⟨(utf8_length value).trans (hlen value hfits heq), fromUtf8_utf8 value⟩
      · intro value bytes hlength hread
        have hbytes := fromUtf8_ok hread
        have hsize : value.utf8ByteSize = len.toNat := by rw [← utf8_length, hbytes, hlength]
        refine ⟨⟨⟨trivial, ?_, hsize ▸ hle⟩, by rw [hsize, UInt32.ofNat_toNat]⟩, hbytes⟩
        rintro rfl
        exact hne (UInt32.toNat_inj.mp hsize.symm)
  · intro value _
    trivial

theorem exact_strings : Exact AnyRest (fun values => values.length ≤ maxClaims) putStrings strings := by
  apply (Exact.counted (by decide) exact_string).iff
  intro values
  simp

theorem exact_digest : Exact AnyRest (fun _ => True) putDigest digest := by
  apply Exact.fixed
  · intro d _
    refine ⟨by simp, ?_⟩
    simp
    cases d
    rfl
  · intro d bytes hlength h
    split at h
    · cases h
      exact ⟨trivial, by simp⟩
    · cases h

theorem val_lt (value : Fr) : value.val < 256 ^ 32 :=
  (ZMod.val_lt value).trans (by norm_num [modulus])

theorem exact_commitment : Exact AnyRest (fun _ => True) (fun value => emit (toRepr value)) commitment := by
  apply Exact.fixed
  · intro value _
    refine ⟨LittleEndian.toBytes_length .., ?_⟩
    rw [fromRepr, toRepr, LittleEndian.ofBytes_toBytes (val_lt value), if_pos (ZMod.val_lt value), ZMod.natCast_val,
      ZMod.cast_id]
  · intro value bytes hlength h
    refine ⟨trivial, ?_⟩
    unfold fromRepr at h
    split at h
    · rename_i heq
      cases h
      split at heq
      · rename_i hlt
        cases heq
        rw [toRepr, ZMod.val_natCast_of_lt hlt, ← hlength, LittleEndian.toBytes_ofBytes]
      · cases heq
    · cases h

theorem exact_role : Exact AnyRest (fun _ => True) (fun role => emit [roleByte role]) role := by
  apply Exact.fixed
  · intro role _
    cases role <;> exact ⟨rfl, rfl⟩
  · intro role bytes _ h
    split at h
    · cases h
      rename_i hbytes
      exact ⟨trivial, hbytes.symm⟩
    · split at h
      · cases h
        rename_i hbytes
        exact ⟨trivial, hbytes.symm⟩
      · cases h

theorem exact_weight : Exact AnyRest (fun _ => True) putWeight weight := by
  apply Exact.fixed
  · intro value _
    have hlower := value.lower
    have hupper := value.upper
    simp only [signedShift] at hlower hupper
    refine ⟨LittleEndian.toBytes_length .., ?_⟩
    have hlt : (value.raw % 2 ^ 64).toNat < 256 ^ 8 := by omega
    have hread : i64OfBytes (i64ToBytes value) = some value := by
      simp only [i64OfBytes, i64ToBytes, LittleEndian.ofBytes_toBytes hlt]
      rw [ofInt?_eq_some]
      split <;> omega
    rw [hread]
  · intro value bytes hlength h
    refine ⟨trivial, ?_⟩
    split at h
    · rename_i heq
      cases h
      have hlt := LittleEndian.ofBytes_lt bytes
      rw [hlength] at hlt
      rw [i64OfBytes, ofInt?_eq_some] at heq
      have hraw : (value.raw % 2 ^ 64).toNat = LittleEndian.ofBytes bytes := by
        rw [heq]
        split <;> omega
      rw [i64ToBytes, hraw, ← hlength, LittleEndian.toBytes_ofBytes]
    · cases h

theorem exact_weights : Exact AnyRest (fun values => values.length ≤ maxClaims * 256) putWeights weights := by
  apply (Exact.counted (by decide) exact_weight).iff
  intro values
  simp

theorem exact_flavor : Exact AnyRest (fun _ => True) (fun f => putString f.text) flavor := by
  apply exact_string.last (f := ProofFlavorId.text)
  · intro text _
    apply Exact.lift.iff
    intro f
    unfold ProofFlavorId.parse
    constructor
    · intro h
      split at h
      · cases h
      · split at h
        · cases h
          exact ⟨trivial, rfl⟩
        · cases h
    · rintro ⟨-, rfl⟩
      rw [dif_neg f.nonempty, dif_pos f.ascii]
      rfl
  · intro f _
    trivial

end Components

section Claims

theorem flatI18_ok {role : BoundaryRole} {registerId : String} {edgeIds graphOutputNames : List String}
    {elementCount quantizationScale : UInt64} {d : BoundaryDescriptor} :
    flatI18 role registerId edgeIds graphOutputNames elementCount quantizationScale = .ok d ↔
      d = ⟨role, registerId, edgeIds, graphOutputNames, elementCount, quantizationScale⟩ ∧ d.validate = .ok () := by
  simp only [flatI18, bind, Except.bind, pure, Except.pure]
  constructor
  · intro h
    split at h
    · cases h
    · rename_i hvalid
      cases h
      exact ⟨rfl, hvalid⟩
  · rintro ⟨rfl, hvalid⟩
    rw [hvalid]

theorem claim_new_ok {d : BoundaryDescriptor} {commitment : Fr} {claim : BoundaryClaim} :
    BoundaryClaim.new d commitment = .ok claim ↔ claim.descriptor = d ∧ claim.commitment = commitment := by
  unfold BoundaryClaim.new
  constructor
  · intro h
    split at h
    · cases h
      exact ⟨rfl, rfl⟩
    · cases h
  · rintro ⟨rfl, rfl⟩
    split
    · rfl
    · rename_i e h
      rw [claim.valid] at h
      cases h

theorem exact_claim (expectedRole : BoundaryRole) :
    Exact AnyRest (fun c => c.descriptor.role = expectedRole) putClaim (claim expectedRole) := by
  have hfew : ∀ c : BoundaryClaim, c.descriptor.edgeIds.length ≤ maxClaims ∧ c.descriptor.graphOutputNames.length ≤ maxClaims := by
    intro c
    have hids := (BoundaryDescriptor.validate_ok c.valid).2.2.1
    have hmax : maxBoundaryIdentities ≤ maxClaims := by decide
    constructor <;> omega
  apply exact_role.field (f := fun c : BoundaryClaim => c.descriptor.role)
  intro role
  apply Exact.guard
  · rintro c ⟨hexpected, rfl⟩
    exact hexpected
  intro hexpected
  apply exact_string.field (f := fun c : BoundaryClaim => c.descriptor.registerId)
  intro register
  apply exact_strings.bind (f := fun c : BoundaryClaim => c.descriptor.edgeIds)
  swap
  · intro c _
    exact (hfew c).1
  intro edges _
  apply exact_strings.bind (f := fun c : BoundaryClaim => c.descriptor.graphOutputNames)
  swap
  · intro c _
    exact (hfew c).2
  intro outputs _
  apply (exact_u64 _).field (f := fun c : BoundaryClaim => c.descriptor.elementCount)
  intro count
  apply (exact_u64 _).field (f := fun c : BoundaryClaim => c.descriptor.quantizationScale)
  intro scale
  apply Exact.settle
  · rintro c ⟨⟨⟨⟨⟨⟨-, rfl⟩, rfl⟩, rfl⟩, rfl⟩, rfl⟩, rfl⟩
    exact ⟨c.descriptor, mapError_eq_ok.mpr (flatI18_ok.mpr ⟨rfl, c.valid⟩)⟩
  intro d hd
  obtain ⟨rfl, hvalid⟩ := flatI18_ok.mp (mapError_eq_ok.mp hd)
  apply exact_commitment.last (f := BoundaryClaim.commitment)
  swap
  · intro c _
    trivial
  intro value _
  apply Exact.lift.iff
  intro c
  rw [claim_new_ok]
  constructor
  · rintro ⟨hdescriptor, rfl⟩
    simp [hdescriptor, hexpected]
  · rintro ⟨⟨⟨⟨⟨⟨⟨-, rfl⟩, rfl⟩, rfl⟩, rfl⟩, rfl⟩, rfl⟩, rfl⟩
    exact ⟨rfl, rfl⟩

theorem exact_claims (expectedRole : BoundaryRole) :
    Exact AnyRest (fun cs => (∀ c ∈ cs, c.descriptor.role = expectedRole) ∧ cs.length ≤ maxClaims) putClaims
      (claims expectedRole) :=
  Exact.counted (by decide) (exact_claim expectedRole)

end Claims

section Body

namespace LeafStatement

theorem new_ok {shardId : UInt64} {shardName : String}
    {circuitDigest partitionDigest modelDigest weightsDigest verificationKeyDigest : Digest32} {proofFlavor : ProofFlavorId}
    {inputClaims outputClaims : List BoundaryClaim} {publicWeights : List I18} {s : LeafStatement} :
    new shardId shardName circuitDigest partitionDigest modelDigest weightsDigest proofFlavor verificationKeyDigest
        inputClaims outputClaims publicWeights = .ok s ↔
      s.shardId = shardId ∧ s.shardName = shardName ∧ s.circuitDigest = circuitDigest ∧
        s.partitionDigest = partitionDigest ∧ s.modelDigest = modelDigest ∧ s.weightsDigest = weightsDigest ∧
        s.proofFlavor = proofFlavor ∧ s.verificationKeyDigest = verificationKeyDigest ∧ s.inputClaims = inputClaims ∧
        s.outputClaims = outputClaims ∧ s.publicWeights = publicWeights := by
  unfold new
  constructor
  · intro h
    split at h
    · cases h
    · split at h
      · cases h
      · split at h
        · cases h
        · split at h
          · cases h
          · cases h
            simp
  · rintro ⟨rfl, rfl, rfl, rfl, rfl, rfl, rfl, rfl, rfl, rfl, rfl⟩
    rw [dif_neg (not_not.mpr s.named), dif_neg (not_not.mpr s.fewClaims),
      dif_neg (not_not.mpr ⟨s.inputRoles, s.outputRoles⟩), dif_neg (not_not.mpr s.fewWeights)]

theorem exact_body : Exact NoRest (fun _ => True) putBody body := by
  apply (exact_u32 _).field (f := fun _ : LeafStatement => leafStatementSchemaVersion)
  intro version
  apply Exact.guard
  · rintro s ⟨-, rfl⟩
    rfl
  rintro rfl
  apply (exact_u64 _).field (f := shardId)
  intro id
  apply exact_string.field (f := shardName)
  intro name
  apply exact_digest.field (f := circuitDigest)
  intro circuit
  apply exact_digest.field (f := partitionDigest)
  intro partition'
  apply exact_digest.field (f := modelDigest)
  intro model
  apply exact_digest.field (f := weightsDigest)
  intro weights'
  apply exact_flavor.field (f := proofFlavor)
  intro flavor'
  apply exact_digest.field (f := verificationKeyDigest)
  intro key
  apply (exact_claims .input).bind (f := inputClaims)
  swap
  · intro s _
    exact ⟨s.inputRoles, by have := s.fewClaims; omega⟩
  intro inputs _
  apply (exact_claims .output).bind (f := outputClaims)
  swap
  · intro s _
    exact ⟨s.outputRoles, by have := s.fewClaims; omega⟩
  intro outputs _
  apply exact_weights.last (f := publicWeights)
  swap
  · intro s _
    exact s.fewWeights
  intro values _
  apply Exact.finish.iff
  intro s
  rw [new_ok]
  tauto

end LeafStatement

end Body

section Size

def claimSize (claim : BoundaryClaim) : ℕ :=
  1 + 4 + claim.descriptor.registerId.utf8ByteSize + 4 + 4 + 8 + 8 + 32 +
    ((claim.descriptor.edgeIds ++ claim.descriptor.graphOutputNames).map fun value => 4 + value.utf8ByteSize).sum

def claimTexts (claim : BoundaryClaim) : List String :=
  claim.descriptor.registerId :: claim.descriptor.edgeIds ++ claim.descriptor.graphOutputNames

theorem measured_string (value : String) : Measured (putString value) (4 + value.utf8ByteSize) (FitsText value) :=
  (Measured.ensure.bind ((Measured.u32 _).bind (Measured.emit _))).of_eq (by rw [utf8_length, Nat.zero_add]) (by simp)

theorem measured_strings (values : List String) :
    Measured (putStrings values) (4 + (values.map fun value => 4 + value.utf8ByteSize).sum) (∀ value ∈ values, FitsText value) :=
  ((Measured.u32 _).bind (Measured.each measured_string values)).of_eq rfl (by simp)

theorem measured_digest (d : Digest32) : Measured (putDigest d) 32 True :=
  (Measured.emit _).of_eq (by simp) Iff.rfl

theorem measured_claim (c : BoundaryClaim) : Measured (putClaim c) (claimSize c) (∀ text ∈ claimTexts c, FitsText text) := by
  have h := (@Measured.emit LeafStatementError [roleByte c.descriptor.role]).bind
    ((measured_string c.descriptor.registerId).bind ((measured_strings c.descriptor.edgeIds).bind
      ((measured_strings c.descriptor.graphOutputNames).bind ((Measured.u64 c.descriptor.elementCount).bind
        ((Measured.u64 c.descriptor.quantizationScale).bind (Measured.emit (toRepr c.commitment)))))))
  apply h.of_eq
  · simp only [claimSize, toRepr, LittleEndian.toBytes_length, List.map_append, List.sum_append, List.length_singleton]
    omega
  · simp only [claimTexts, List.cons_append, List.forall_mem_cons, List.forall_mem_append]
    tauto

theorem measured_claims (cs : List BoundaryClaim) :
    Measured (putClaims cs) (4 + (cs.map claimSize).sum) (∀ c ∈ cs, ∀ text ∈ claimTexts c, FitsText text) :=
  ((Measured.u32 _).bind (Measured.each measured_claim cs)).of_eq rfl (by simp)

theorem measured_weights (values : List I18) : Measured (putWeights values) (4 + values.length * 8) True := by
  have hweight : ∀ v, Measured (putWeight v) 8 True := fun v =>
    (Measured.emit (i64ToBytes v)).of_eq (LittleEndian.toBytes_length ..) Iff.rfl
  exact ((Measured.u32 _).bind (Measured.each hweight values)).of_eq (by simp) (by simp)

namespace LeafStatement

def texts (s : LeafStatement) : List String :=
  s.shardName :: s.proofFlavor.text :: (s.inputClaims ++ s.outputClaims).flatMap claimTexts

def size (s : LeafStatement) : ℕ :=
  magic.length + 4 + 8 + 4 + s.shardName.utf8ByteSize + 4 * 32 + 4 + s.proofFlavor.text.utf8ByteSize + 32 + 4 + 4 + 4 +
    ((s.inputClaims ++ s.outputClaims).map claimSize).sum + s.publicWeights.length * 8

theorem measured_body (s : LeafStatement) :
    Measured s.putBody (s.size - magic.length) (∀ text ∈ s.texts, FitsText text) := by
  have h := (@Measured.u32 LeafStatementError leafStatementSchemaVersion).bind ((Measured.u64 s.shardId).bind
    ((measured_string s.shardName).bind ((measured_digest s.circuitDigest).bind ((measured_digest s.partitionDigest).bind
      ((measured_digest s.modelDigest).bind ((measured_digest s.weightsDigest).bind
        ((measured_string s.proofFlavor.text).bind ((measured_digest s.verificationKeyDigest).bind
          ((measured_claims s.inputClaims).bind ((measured_claims s.outputClaims).bind
            (measured_weights s.publicWeights)))))))))))
  apply h.of_eq
  · simp only [size, List.map_append, List.sum_append]
    omega
  · simp only [texts, List.forall_mem_cons, List.forall_mem_flatMap, List.forall_mem_append]
    tauto

/-- A checked sum is the exact one, or the exact one does not fit. -/
def Totals (r : Except LeafStatementError ℕ) (n : ℕ) : Prop := r = .ok n ∨ (∃ e, r = .error e) ∧ 2 ^ 64 ≤ n

theorem totals_checkedLen (n : ℕ) : Totals (checkedLen n) n := by
  by_cases h : n < 2 ^ 64
  · exact Or.inl (if_pos h)
  · exact Or.inr ⟨⟨.oversized, if_neg h⟩, not_lt.mp h⟩

theorem Totals.bind {r : Except LeafStatementError ℕ} {f : ℕ → Except LeafStatementError ℕ} {m n : ℕ} (h : Totals r m)
    (hf : Totals (f m) n) (hle : m ≤ n) : Totals (r >>= f) n := by
  rcases h with rfl | ⟨⟨e, rfl⟩, hlarge⟩
  · exact hf
  · exact Or.inr ⟨⟨e, rfl⟩, hlarge.trans hle⟩

theorem totals_foldlM {α : Type} {f : ℕ → α → Except LeafStatementError ℕ} {size : α → ℕ}
    (hf : ∀ len x, Totals (f len x) (len + size x)) (xs : List α) (len : ℕ) :
    Totals (xs.foldlM f len) (len + (xs.map size).sum) := by
  induction xs generalizing len with
  | nil => exact Or.inl rfl
  | cons x xs ih =>
      rw [List.foldlM_cons, List.map_cons, List.sum_cons, ← add_assoc]
      exact (hf len x).bind (ih _) (Nat.le_add_right _ _)

theorem totals_claimLen (len : ℕ) (c : BoundaryClaim) : Totals (claimLen len c) (len + claimSize c) := by
  unfold claimSize
  rw [← add_assoc]
  apply (totals_checkedLen _).bind _ (Nat.le_add_right _ _)
  exact totals_foldlM (fun len value => totals_checkedLen _) _ _

theorem totals_encodedLen (s : LeafStatement) : Totals s.encodedLen s.size := by
  apply (totals_foldlM totals_claimLen _ _).bind _ (Nat.le_add_right _ _)
  rcases totals_checkedLen (s.publicWeights.length * 8) with hweights | ⟨⟨e, he⟩, hlarge⟩
  · rw [hweights]
    exact totals_checkedLen _
  · rw [he]
    exact Or.inr ⟨⟨e, rfl⟩, hlarge.trans (Nat.le_add_left _ _)⟩

theorem magic_le_size (s : LeafStatement) : magic.length ≤ s.size := by
  unfold size
  omega

theorem encodedLen_of_le (s : LeafStatement) (h : s.size ≤ maxStatementBytes) : s.encodedLen = .ok s.size := by
  rcases s.totals_encodedLen with hlen | ⟨-, hlarge⟩
  · exact hlen
  · have hmax : maxStatementBytes < 2 ^ 64 := by decide
    omega

theorem size_of_encodedLen (s : LeafStatement) {len : ℕ} (h : s.encodedLen = .ok len) : len = s.size := by
  rcases s.totals_encodedLen with hlen | ⟨⟨e, he⟩, -⟩
  · cases h.symm.trans hlen
    rfl
  · cases h.symm.trans he

theorem size_of_putBody (s : LeafStatement) {out : List UInt8} (h : s.putBody magic = .ok ((), out)) :
    out.length = s.size := by
  by_cases htexts : ∀ text ∈ s.texts, FitsText text
  · obtain ⟨out', hout, hsize⟩ := s.measured_body.writes htexts magic
    cases h.symm.trans hout
    rw [hsize, Nat.add_sub_cancel' s.magic_le_size]
  · obtain ⟨e, he⟩ := s.measured_body.fails htexts magic
    cases h.symm.trans he

theorem encode_eq (s : LeafStatement) {len : ℕ} (hlen : s.encodedLen = .ok len) (hfits : len ≤ maxStatementBytes)
    {out : List UInt8} (hput : s.putBody magic = .ok ((), out)) (hout : out.length ≤ maxStatementBytes) :
    s.encode = .ok out := by
  simp [encode, hlen, hput, bind, Except.bind, not_lt.mpr hfits, not_lt.mpr hout, pure, Except.pure]

theorem encode_ok {s : LeafStatement} {out : List UInt8} (h : s.encode = .ok out) :
    s.encodedLen = .ok s.size ∧ s.size ≤ maxStatementBytes ∧ s.putBody magic = .ok ((), out) ∧
      out.length ≤ maxStatementBytes := by
  rcases s.totals_encodedLen with hlen | ⟨⟨e, he⟩, -⟩
  · by_cases hfits : s.size ≤ maxStatementBytes
    · cases hput : s.putBody magic with
      | error e => simp [encode, hlen, hput, bind, Except.bind, not_lt.mpr hfits] at h
      | ok r =>
          by_cases hout : r.2.length ≤ maxStatementBytes
          · rw [encode_eq s hlen hfits hput hout] at h
            cases h
            exact ⟨hlen, hfits, rfl, hout⟩
          · simp [encode, hlen, hput, bind, Except.bind, not_lt.mpr hfits, not_le.mp hout, throw, throwThe,
              MonadExceptOf.throw] at h
    · simp [encode, hlen, bind, Except.bind, not_le.mp hfits, throw, throwThe, MonadExceptOf.throw] at h
  · simp [encode, he, bind, Except.bind] at h

theorem decode_ok {bytes : List UInt8} {s : LeafStatement} : decode bytes = .ok s ↔
    bytes.length ≤ maxStatementBytes ∧ ∃ tail, bytes = magic ++ tail ∧ ∃ rest, body tail = .ok (s, rest) := by
  unfold decode
  constructor
  · intro h
    by_cases hbytes : bytes.length > maxStatementBytes ∨ ¬magic <+: bytes
    · simp [hbytes, bind, Except.bind, throw, throwThe, MonadExceptOf.throw] at h
    · rw [if_neg hbytes] at h
      rw [not_or, not_not, not_lt] at hbytes
      obtain ⟨hlength, tail, rfl⟩ := hbytes
      rw [List.drop_left] at h
      cases hbody : body tail with
      | error e => simp [hbody, bind, Except.bind] at h
      | ok r =>
          simp only [hbody, bind, Except.bind, pure, Except.pure, Except.ok.injEq] at h
          subst h
          exact ⟨hlength, tail, rfl, r.2, hbody⟩
  · rintro ⟨hlength, tail, rfl, rest, hbody⟩
    have hbytes : ¬((magic ++ tail).length > maxStatementBytes ∨ ¬magic <+: magic ++ tail) :=
      not_or.mpr ⟨not_lt.mpr hlength, not_not.mpr (List.prefix_append _ _)⟩
    rw [if_neg hbytes, List.drop_left]
    simp [hbody, bind, Except.bind, pure, Except.pure]

/-- What is written is read back. -/
theorem decode_put {s : LeafStatement} {out : List UInt8} (hput : s.putBody magic = .ok ((), out))
    (hlength : out.length ≤ maxStatementBytes) : decode out = .ok s := by
  obtain ⟨tail, rfl, hread⟩ := exact_body.reads trivial hput
  have hbody := hread [] rfl
  rw [List.append_nil] at hbody
  exact decode_ok.mpr ⟨hlength, tail, rfl, [], hbody⟩

/-- The wire format has one spelling for every statement: what is encoded has the announced length
and is decoded to the statement, and what is decoded is the encoding of the result. Only the size
limit and the limit of a text make encoding fail. -/
theorem wire_exact (s : LeafStatement) :
    (∀ bytes, s.encode = .ok bytes → s.encodedLen = .ok bytes.length ∧ decode bytes = .ok s) ∧
    (∀ bytes, decode bytes = .ok s → s.encode = .ok bytes) ∧
    (∀ e, s.encode = .error e →
      (∀ len, s.encodedLen = .ok len → maxStatementBytes < len) ∨ ∃ text ∈ s.texts, ¬FitsText text) := by
  refine ⟨?_, ?_, ?_⟩
  · intro bytes h
    obtain ⟨hlen, -, hput, hlength⟩ := encode_ok h
    constructor
    · rw [hlen, s.size_of_putBody hput]
    · exact decode_put hput hlength
  · intro bytes h
    obtain ⟨hlength, tail, rfl, rest, hbody⟩ := decode_ok.mp h
    obtain ⟨-, rfl, used, rfl, hput⟩ := exact_body.spells hbody
    rw [List.append_nil] at hlength ⊢
    have hsize := s.size_of_putBody (hput magic)
    exact encode_eq s (s.encodedLen_of_le (hsize ▸ hlength)) (hsize ▸ hlength) (hput magic) hlength
  · intro e h
    by_cases htexts : ∀ text ∈ s.texts, FitsText text
    · refine Or.inl fun len hlen => ?_
      by_contra hle
      rw [not_lt] at hle
      obtain rfl := s.size_of_encodedLen hlen
      obtain ⟨out, hput, hout⟩ := s.measured_body.writes htexts magic
      rw [Nat.add_sub_cancel' s.magic_le_size] at hout
      rw [encode_eq s hlen hle hput (hout ▸ hle)] at h
      cases h
    · push Not at htexts
      exact Or.inr htexts

end LeafStatement

end Size

end Zkie.Statement
