import Zkie.BoundaryCommitment
import Zkie.Statement

namespace Zkie.Statement

open ScalarField FixedPoint PoseidonBoundary
open RunDatabase (Digest32)

section Instances

def digestLimbs (d : Digest32) : List Fr := [limbToFr (d.bytes.toList.take 16), limbToFr (d.bytes.toList.drop 16)]

def stringPreimage (domain value : String) : List UInt8 :=
  utf8 "zkie.leaf-string.v1\x00" ++ leBytes (UInt64.ofNat domain.utf8ByteSize) ++ utf8 domain ++
    leBytes (UInt64.ofNat value.utf8ByteSize) ++ utf8 value

def stringLimbs (blake3 : Blake3) (domain value : String) : List Fr := digestLimbs ⟨blake3 (stringPreimage domain value)⟩

def claimInstances (blake3 : Blake3) (claim : BoundaryClaim) : List Fr :=
  claim.descriptor.publicBindingFields blake3 ++ [claim.commitment]

namespace LeafStatement

def instancePrefix (blake3 : Blake3) (s : LeafStatement) : List Fr :=
  [(leafStatementSchemaVersion.toNat : Fr), (s.shardId.toNat : Fr)] ++ stringLimbs blake3 "shard" s.shardName ++
    [s.circuitDigest, s.partitionDigest, s.modelDigest, s.weightsDigest].flatMap digestLimbs ++
    stringLimbs blake3 "proof-flavor" s.proofFlavor.text ++ digestLimbs s.verificationKeyDigest ++
    [(s.inputClaims.length : Fr)]

/-- The public instances, in the order of the circuit. -/
def instances (blake3 : Blake3) (s : LeafStatement) : List Fr :=
  s.instancePrefix blake3 ++ s.inputClaims.flatMap (claimInstances blake3) ++ [(s.outputClaims.length : Fr)] ++
    s.outputClaims.flatMap (claimInstances blake3) ++ [(s.publicWeights.length : Fr)] ++ s.publicWeights.map i64ToFr

end LeafStatement

end Instances

section Preimages

theorem leBytes_eq (v : UInt64) : leBytes v = LittleEndian.toBytes 8 v.toNat := by
  have hbyte : ∀ i, i < 8 → (v >>> (8 * UInt64.ofNat i)).toUInt8 = UInt8.ofNat (v.toNat / 256 ^ i) := by
    intro i hi
    apply UInt8.toNat_inj.mp
    interval_cases i <;> simp [Nat.shiftRight_eq_div_pow]
  simp only [leBytes, List.range, List.range.loop, List.map_cons, List.map_nil, LittleEndian.toBytes, Nat.div_div_eq_div_mul]
  simp only [hbyte 0 (by decide), hbyte 1 (by decide), hbyte 2 (by decide), hbyte 3 (by decide), hbyte 4 (by decide),
    hbyte 5 (by decide), hbyte 6 (by decide), hbyte 7 (by decide)]
  norm_num

theorem leBytes_length (v : UInt64) : (leBytes v).length = 8 := by
  rw [leBytes_eq, LittleEndian.toBytes_length]

theorem leBytes_inj {v w : UInt64} (h : leBytes v = leBytes w) : v = w := by
  rw [leBytes_eq, leBytes_eq] at h
  exact UInt64.toNat_inj.mp (LittleEndian.toBytes_inj v.toNat_lt w.toNat_lt h)

theorem leBytes_append_inj {v w : UInt64} {r r' : List UInt8} (h : leBytes v ++ r = leBytes w ++ r') : v = w ∧ r = r' := by
  obtain ⟨hhead, hrest⟩ := List.append_inj h (by rw [leBytes_length, leBytes_length])
  exact ⟨leBytes_inj hhead, hrest⟩

/-- A length below `2 ^ 64` can be read back. -/
theorem leBytes_ofNat_append_inj {m n : ℕ} (hm : m < 2 ^ 64) (hn : n < 2 ^ 64) {r r' : List UInt8}
    (h : leBytes (UInt64.ofNat m) ++ r = leBytes (UInt64.ofNat n) ++ r') : m = n ∧ r = r' := by
  obtain ⟨hlength, hrest⟩ := leBytes_append_inj h
  refine ⟨?_, hrest⟩
  rw [← UInt64.toNat_ofNat_of_lt' hm, hlength, UInt64.toNat_ofNat_of_lt' hn]

theorem stringPreimage_inj {domain value value' : String} (h : stringPreimage domain value = stringPreimage domain value') :
    value = value' := by
  simp only [stringPreimage, List.append_assoc, List.append_cancel_left_eq] at h
  exact utf8_injective (leBytes_append_inj h).2

theorem encodeIdentity_append_inj {a b : String} (ha : validId a) (hb : validId b) {r r' : List UInt8}
    (h : encodeIdentity a ++ r = encodeIdentity b ++ r') : a = b ∧ r = r' := by
  have hbound : ∀ id : String, validId id → id.utf8ByteSize < 2 ^ 64 := by
    intro id hid
    simp only [validId, decide_eq_true_eq] at hid
    exact lt_of_le_of_lt hid.2 (by decide)
  simp only [encodeIdentity, List.append_assoc] at h
  obtain ⟨hlength, h⟩ := leBytes_ofNat_append_inj (hbound a ha) (hbound b hb) h
  obtain ⟨htext, hrest⟩ := List.append_inj h (by rw [utf8_length, utf8_length, hlength])
  exact ⟨utf8_injective htext, hrest⟩

theorem identities_append_inj {as bs : List String} (ha : ∀ id ∈ as, validId id) (hb : ∀ id ∈ bs, validId id)
    (hlength : as.length = bs.length) {r r' : List UInt8}
    (h : as.flatMap encodeIdentity ++ r = bs.flatMap encodeIdentity ++ r') : as = bs ∧ r = r' := by
  induction as generalizing bs with
  | nil =>
      obtain rfl := List.length_eq_zero_iff.mp hlength.symm
      exact ⟨rfl, h⟩
  | cons a as ih =>
      obtain ⟨b, bs, rfl⟩ := List.exists_cons_of_length_eq_add_one hlength.symm
      rw [List.forall_mem_cons] at ha hb
      simp only [List.flatMap_cons, List.append_assoc] at h
      obtain ⟨hhead, htail⟩ := encodeIdentity_append_inj ha.1 hb.1 h
      obtain ⟨hids, hrest⟩ := ih ha.2 hb.2 (by simpa using hlength) htail
      exact ⟨by rw [hhead, hids], hrest⟩

/-- The bytes that bind a descriptor. -/
def bindingPreimage (d : BoundaryDescriptor) : List UInt8 :=
  utf8 "zkie.boundary-descriptor-binding.v2\x00" ++ [2, 0, 0, 0] ++ [roleByte d.role, 1, 1] ++
    leBytes d.elementCount ++ leBytes d.quantizationScale ++ encodeIdentity d.registerId ++
    leBytes (UInt64.ofNat d.edgeIds.length) ++ d.edgeIds.flatMap encodeIdentity ++
    leBytes (UInt64.ofNat d.graphOutputNames.length) ++ d.graphOutputNames.flatMap encodeIdentity

theorem publicBindingFields_eq (blake3 : Blake3) (d : BoundaryDescriptor) :
    d.publicBindingFields blake3 = digestFields (blake3 (bindingPreimage d)) := rfl

theorem bindingPreimage_inj {d d' : BoundaryDescriptor} (hd : d.validate = .ok ()) (hd' : d'.validate = .ok ())
    (h : bindingPreimage d = bindingPreimage d') : d = d' := by
  obtain ⟨-, -, hids, hvalid⟩ := BoundaryDescriptor.validate_ok hd
  obtain ⟨-, -, hids', hvalid'⟩ := BoundaryDescriptor.validate_ok hd'
  rw [List.cons_append, List.forall_mem_cons, List.forall_mem_append] at hvalid hvalid'
  have hmax : maxBoundaryIdentities < 2 ^ 64 := by decide
  simp only [bindingPreimage, List.append_assoc, List.append_cancel_left_eq] at h
  obtain ⟨hrole, h⟩ := List.append_inj h rfl
  obtain ⟨hcount, h⟩ := leBytes_append_inj h
  obtain ⟨hscale, h⟩ := leBytes_append_inj h
  obtain ⟨hregister, h⟩ := encodeIdentity_append_inj hvalid.1 hvalid'.1 h
  obtain ⟨hedgeCount, h⟩ := leBytes_ofNat_append_inj (by omega) (by omega) h
  obtain ⟨hedges, h⟩ := identities_append_inj hvalid.2.1 hvalid'.2.1 hedgeCount h
  obtain ⟨hnameCount, h⟩ := leBytes_ofNat_append_inj (by omega) (by omega) h
  have hnames : d.graphOutputNames = d'.graphOutputNames := by
    have happend := congrArg (· ++ []) h
    exact (identities_append_inj hvalid.2.2 hvalid'.2.2 hnameCount happend).1
  have hroles : d.role = d'.role := by
    have hbyte : roleByte d.role = roleByte d'.role := (List.cons.inj hrole).1
    cases hr : d.role <;> cases hr' : d'.role <;> rw [hr, hr'] at hbyte <;> simp [roleByte] at hbyte
  cases d
  cases d'
  simp only [BoundaryDescriptor.mk.injEq]
  exact ⟨hroles, hregister, hedges, hnames, hcount, hscale⟩

end Preimages

section Limbs

theorem limbToFr_eq (bytes : List UInt8) : limbToFr bytes = (LittleEndian.ofBytes bytes : Fr) := by
  induction bytes with
  | nil => simp [limbToFr, LittleEndian.ofBytes]
  | cons b bytes ih =>
      rw [LittleEndian.ofBytes, Nat.cast_add, Nat.cast_mul, ← ih]
      rfl

theorem limbToFr_inj {bytes bytes' : List UInt8} (hlength : bytes.length = 16) (hlength' : bytes'.length = 16)
    (h : limbToFr bytes = limbToFr bytes') : bytes = bytes' := by
  have hlt := LittleEndian.ofBytes_lt bytes
  have hlt' := LittleEndian.ofBytes_lt bytes'
  rw [hlength] at hlt
  rw [hlength'] at hlt'
  rw [limbToFr_eq, limbToFr_eq] at h
  exact LittleEndian.ofBytes_inj (hlength.trans hlength'.symm) (natCast_inj (by omega) (by omega) h)

theorem digestFields_inj {raw raw' : Vector UInt8 32} (h : digestFields raw = digestFields raw') : raw = raw' := by
  simp only [digestFields, List.cons.injEq, and_true] at h
  have hlow := limbToFr_inj (by simp) (by simp) h.1
  have hhigh := limbToFr_inj (by simp) (by simp) h.2
  apply Vector.toList_inj.mp
  rw [← List.take_append_drop 16 raw.toList, hlow, hhigh, List.take_append_drop]

theorem digestLimbs_inj {d d' : Digest32} (h : digestLimbs d = digestLimbs d') : d = d' := by
  cases d
  cases d'
  exact congrArg Digest32.mk (digestFields_inj h)

end Limbs

section Binding

namespace LeafStatement

/-- The byte strings whose hashes stand in the instances. -/
def preimages (s : LeafStatement) : List (List UInt8) :=
  stringPreimage "shard" s.shardName :: stringPreimage "proof-flavor" s.proofFlavor.text ::
    (s.inputClaims ++ s.outputClaims).map fun claim => bindingPreimage claim.descriptor

end LeafStatement

variable {blake3 : Blake3}

theorem claimInstances_inj {c c' : BoundaryClaim}
    (hash : blake3 (bindingPreimage c.descriptor) = blake3 (bindingPreimage c'.descriptor) →
      bindingPreimage c.descriptor = bindingPreimage c'.descriptor)
    (h : claimInstances blake3 c = claimInstances blake3 c') : c = c' := by
  obtain ⟨hbinding, hcommitment⟩ := List.append_inj h rfl
  rw [publicBindingFields_eq, publicBindingFields_eq] at hbinding
  have hdescriptor := bindingPreimage_inj c.valid c'.valid (hash (digestFields_inj hbinding))
  exact BoundaryClaim.ext hdescriptor (List.cons.inj hcommitment).1

theorem claims_append_inj {cs cs' : List BoundaryClaim}
    (hash : ∀ c ∈ cs, ∀ c' ∈ cs', blake3 (bindingPreimage c.descriptor) = blake3 (bindingPreimage c'.descriptor) →
      bindingPreimage c.descriptor = bindingPreimage c'.descriptor)
    (hlength : cs.length = cs'.length) {r r' : List Fr}
    (h : cs.flatMap (claimInstances blake3) ++ r = cs'.flatMap (claimInstances blake3) ++ r') : cs = cs' ∧ r = r' := by
  induction cs generalizing cs' with
  | nil =>
      obtain rfl := List.length_eq_zero_iff.mp hlength.symm
      exact ⟨rfl, h⟩
  | cons c cs ih =>
      obtain ⟨c', cs', rfl⟩ := List.exists_cons_of_length_eq_add_one hlength.symm
      simp only [List.flatMap_cons, List.append_assoc] at h
      obtain ⟨hhead, htail⟩ := List.append_inj h rfl
      have hclaim := claimInstances_inj (hash c (List.mem_cons_self ..) c' (List.mem_cons_self ..)) hhead
      obtain ⟨hclaims, hrest⟩ := ih (fun c hc c' hc' => hash c (List.mem_cons_of_mem _ hc) c' (List.mem_cons_of_mem _ hc'))
        (by simpa using hlength) htail
      exact ⟨by rw [hclaim, hclaims], hrest⟩

/-- A count in front of its group, in both lists at one place. -/
theorem count_append_inj {m n : ℕ} (hm : m < 2 ^ 128) (hn : n < 2 ^ 128) {r r' : List Fr}
    (h : [(m : Fr)] ++ r = [(n : Fr)] ++ r') : m = n ∧ r = r' := by
  obtain ⟨hcount, hrest⟩ := List.cons.inj h
  exact ⟨natCast_inj hm hn hcount, hrest⟩

namespace LeafStatement

theorem instancePrefix_append_inj {s t : LeafStatement}
    (hash : ∀ x ∈ s.preimages, ∀ y ∈ t.preimages, blake3 x = blake3 y → x = y) {r r' : List Fr}
    (h : s.instancePrefix blake3 ++ r = t.instancePrefix blake3 ++ r') :
    s.shardId = t.shardId ∧ s.shardName = t.shardName ∧ s.circuitDigest = t.circuitDigest ∧
      s.partitionDigest = t.partitionDigest ∧ s.modelDigest = t.modelDigest ∧ s.weightsDigest = t.weightsDigest ∧
      s.proofFlavor = t.proofFlavor ∧ s.verificationKeyDigest = t.verificationKeyDigest ∧
      s.inputClaims.length = t.inputClaims.length ∧ r = r' := by
  have hcount : ∀ s : LeafStatement, s.inputClaims.length < 2 ^ 128 := by
    intro s
    have hfew := s.fewClaims
    have hmax : maxClaims < 2 ^ 128 := by decide
    omega
  simp only [instancePrefix, List.flatMap_cons, List.flatMap_nil, List.append_nil, List.append_assoc] at h
  obtain ⟨hids, h⟩ := List.append_inj h rfl
  obtain ⟨hname, h⟩ := List.append_inj h rfl
  obtain ⟨hcircuit, h⟩ := List.append_inj h rfl
  obtain ⟨hpartition, h⟩ := List.append_inj h rfl
  obtain ⟨hmodel, h⟩ := List.append_inj h rfl
  obtain ⟨hweights, h⟩ := List.append_inj h rfl
  obtain ⟨hflavor, h⟩ := List.append_inj h rfl
  obtain ⟨hkey, h⟩ := List.append_inj h rfl
  obtain ⟨hinputs, hrest⟩ := count_append_inj (hcount s) (hcount t) h
  have hid : s.shardId = t.shardId := uint64Cast_inj (List.cons.inj (List.cons.inj hids).2).1
  have hshard : s.shardName = t.shardName := by
    have hbytes : blake3 (stringPreimage "shard" s.shardName) = blake3 (stringPreimage "shard" t.shardName) :=
      congrArg Digest32.bytes (digestLimbs_inj hname)
    exact stringPreimage_inj (hash _ (by simp [preimages]) _ (by simp [preimages]) hbytes)
  have htext : s.proofFlavor.text = t.proofFlavor.text := by
    have hbytes : blake3 (stringPreimage "proof-flavor" s.proofFlavor.text) =
        blake3 (stringPreimage "proof-flavor" t.proofFlavor.text) := congrArg Digest32.bytes (digestLimbs_inj hflavor)
    exact stringPreimage_inj (hash _ (by simp [preimages]) _ (by simp [preimages]) hbytes)
  exact ⟨hid, hshard, digestLimbs_inj hcircuit, digestLimbs_inj hpartition, digestLimbs_inj hmodel,
    digestLimbs_inj hweights, ProofFlavorId.ext htext, digestLimbs_inj hkey, hinputs, hrest⟩

/-- The instances, padded with zeros, determine the statement, unless two of the hashed byte strings
collide: each group is preceded by its count, so equal lists are read alike from the front. -/
theorem instances_binding (blake3 : Blake3) (s t : LeafStatement) (m n : ℕ)
    (h : s.instances blake3 ++ List.replicate m 0 = t.instances blake3 ++ List.replicate n 0) :
    s = t ∨ ∃ x ∈ s.preimages, ∃ y ∈ t.preimages, x ≠ y ∧ blake3 x = blake3 y := by
  by_cases hcollision : ∃ x ∈ s.preimages, ∃ y ∈ t.preimages, x ≠ y ∧ blake3 x = blake3 y
  · exact Or.inr hcollision
  · left
    have hash : ∀ x ∈ s.preimages, ∀ y ∈ t.preimages, blake3 x = blake3 y → x = y := by
      intro x hx y hy heq
      by_contra hne
      exact hcollision ⟨x, hx, y, hy, hne, heq⟩
    have hashClaims : ∀ c ∈ s.inputClaims ++ s.outputClaims, ∀ c' ∈ t.inputClaims ++ t.outputClaims,
        blake3 (bindingPreimage c.descriptor) = blake3 (bindingPreimage c'.descriptor) →
          bindingPreimage c.descriptor = bindingPreimage c'.descriptor := by
      intro c hc c' hc'
      apply hash
      · exact List.mem_cons_of_mem _ (List.mem_cons_of_mem _ (List.mem_map_of_mem hc))
      · exact List.mem_cons_of_mem _ (List.mem_cons_of_mem _ (List.mem_map_of_mem hc'))
    have hmax : maxClaims * 256 < 2 ^ 128 := by decide
    have houtputs : ∀ s : LeafStatement, s.outputClaims.length < 2 ^ 128 := by
      intro s
      have hfew := s.fewClaims
      omega
    have hweights : ∀ s : LeafStatement, s.publicWeights.length < 2 ^ 128 := by
      intro s
      have hfew := s.fewWeights
      omega
    simp only [instances, List.append_assoc] at h
    obtain ⟨hid, hname, hcircuit, hpartition, hmodel, hweightsDigest, hflavor, hkey, hcount, h⟩ :=
      instancePrefix_append_inj hash h
    obtain ⟨hinputs, h⟩ := claims_append_inj
      (fun c hc c' hc' => hashClaims c (List.mem_append_left _ hc) c' (List.mem_append_left _ hc')) hcount h
    obtain ⟨hcount, h⟩ := count_append_inj (houtputs s) (houtputs t) h
    obtain ⟨houtputs, h⟩ := claims_append_inj
      (fun c hc c' hc' => hashClaims c (List.mem_append_right _ hc) c' (List.mem_append_right _ hc')) hcount h
    obtain ⟨hcount, h⟩ := count_append_inj (hweights s) (hweights t) h
    obtain ⟨hvalues, -⟩ := List.append_inj h (by rw [List.length_map, List.length_map, hcount])
    have hweights := i64ToFr_injective.list_map hvalues
    apply LeafStatement.ext <;> assumption

def exampleStatement (name : String) (named : name ≠ "" ∧ name.utf8ByteSize ≤ maxTextBytes) : LeafStatement :=
  ⟨3, name, ⟨Vector.replicate 32 1⟩, ⟨Vector.replicate 32 2⟩, ⟨Vector.replicate 32 3⟩, ⟨Vector.replicate 32 4⟩,
    ⟨"halo2", by decide, by simp⟩, ⟨Vector.replicate 32 5⟩, [], [], [default], named, by decide, by simp, by simp, by decide⟩

/-- A hash that maps everything to zero confuses the names, and the collision is found. -/
theorem instances_binding_constant :
    exampleStatement "a" (by decide) = exampleStatement "b" (by decide) ∨
      ∃ x ∈ (exampleStatement "a" (by decide)).preimages, ∃ y ∈ (exampleStatement "b" (by decide)).preimages,
        x ≠ y ∧ Vector.replicate 32 (0 : UInt8) = Vector.replicate 32 0 :=
  instances_binding (fun _ => Vector.replicate 32 0) _ _ 1 1 (by simp only [instances, instancePrefix, exampleStatement, stringLimbs])

end LeafStatement

end Binding

end Zkie.Statement
