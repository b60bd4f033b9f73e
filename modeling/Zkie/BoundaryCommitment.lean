import Zkie.FoldHash
import Zkie.PoseidonBoundary

namespace Zkie.PoseidonBoundary

open ScalarField FixedPoint FoldHash

section Native

def protocolDomain (blake3 : Blake3) : Fr := (identityFields blake3 "zkie.poseidon-boundary-fold.v1").headD 0

/-- The commitment to a tensor. The compression function comes from a hashing library. -/
def commitBoundaryNative (blake3 : Blake3) (compress : Fr → Fr → Fr) (descriptor : BoundaryDescriptor) (values : List I18) :
    Except BoundaryCommitmentError Fr := do
  descriptor.validate
  if values.length ≠ descriptor.elementCount.toNat then
    throw (.lengthMismatch descriptor.elementCount.toNat values.length)
  let described := (descriptor.canonicalFields blake3).foldl compress (protocolDomain blake3)
  let counted := compress described (values.length : Fr)
  return values.foldl (fun state value => compress state (i64ToFr value)) counted

/-- Everything that a commitment absorbs, in order. -/
def absorbed (blake3 : Blake3) (d : BoundaryDescriptor) (values : List I18) : List Fr :=
  d.canonicalFields blake3 ++ [(values.length : Fr)] ++ values.map i64ToFr

theorem commitBoundaryNative_ok {blake3 : Blake3} {compress : Fr → Fr → Fr} {d : BoundaryDescriptor} {values : List I18}
    {c : Fr} (h : commitBoundaryNative blake3 compress d values = .ok c) :
    values.length = d.elementCount.toNat ∧ (absorbed blake3 d values).foldl compress (protocolDomain blake3) = c := by
  simp only [commitBoundaryNative, bind, Except.bind] at h
  split at h
  · cases h
  · by_cases hlen : values.length = d.elementCount.toNat
    · simp only [hlen, ne_eq, not_true_eq_false, if_false, pure, Except.pure, Except.ok.injEq] at h
      refine ⟨hlen, ?_⟩
      rw [absorbed, List.foldl_append, List.foldl_append, List.foldl_map, hlen]
      exact h
    · simp [hlen, throw, throwThe, MonadExceptOf.throw] at h

end Native

section Binding

/-- The tensors that two descriptors name: the same register, as many elements, one scale. -/
structure SameTensor (d d' : BoundaryDescriptor) : Prop where
  registerId : d.registerId = d'.registerId
  elementCount : d.elementCount = d'.elementCount
  quantizationScale : d.quantizationScale = d'.quantizationScale

theorem natCast_inj {a b : ℕ} (ha : a < 2 ^ 128) (hb : b < 2 ^ 128) (h : (a : Fr) = b) : a = b := by
  have hint : ((a : ℤ) : Fr) = ((b : ℤ) : Fr) := by simpa using h
  have := intCast_inj (by rw [abs_of_nonneg] <;> omega) (by rw [abs_of_nonneg] <;> omega) hint
  omega

theorem uint64Cast_inj {a b : UInt64} (h : (a.toNat : Fr) = b.toNat) : a = b :=
  UInt64.toNat_inj.mp (natCast_inj (a.toNat_lt.trans (by decide)) (b.toNat_lt.trans (by decide)) h)

theorem i64ToFr_injective : Function.Injective i64ToFr := by
  intro a b h
  rw [i64ToFr_cast, i64ToFr_cast] at h
  have hbound : ∀ v : I18, |v.raw| < 2 ^ 250 := by
    intro v
    have hl := v.lower
    have hu := v.upper
    rw [abs_lt]
    constructor <;> norm_num [signedShift] at * <;> omega
  exact I18.ext (intCast_inj (hbound a) (hbound b) h)

/-- Seven fields describe a tensor, so equal absorbed lists split at the same place. -/
theorem absorbed_inj {blake3 : Blake3} {d d' : BoundaryDescriptor} {v v' : List I18}
    (h : absorbed blake3 d v = absorbed blake3 d' v') :
    d.elementCount = d'.elementCount ∧ d.quantizationScale = d'.quantizationScale ∧
      identityFields blake3 d.registerId = identityFields blake3 d'.registerId ∧ v = v' := by
  simp only [absorbed, BoundaryDescriptor.canonicalFields, List.append_assoc, List.cons_append, List.nil_append,
    List.cons.injEq, true_and] at h
  obtain ⟨hcount, hscale, hrest⟩ := h
  obtain ⟨hid, hvalues⟩ := List.append_inj hrest rfl
  obtain ⟨-, hvalues⟩ := List.cons.inj hvalues
  exact ⟨uint64Cast_inj hcount, uint64Cast_inj hscale, hid, i64ToFr_injective.list_map hvalues⟩

theorem SameTensor.canonicalFields {d d' : BoundaryDescriptor} (h : SameTensor d d') (blake3 : Blake3) :
    d.canonicalFields blake3 = d'.canonicalFields blake3 := by
  simp only [BoundaryDescriptor.canonicalFields, h.registerId, h.elementCount, h.quantizationScale]

/-- Equal commitments are to one tensor with one list of values, unless the two folds give away a
collision, a preimage of the domain or two register ids of one digest. The role, the edges and the
output names of a descriptor do not enter. -/
theorem commitBoundaryNative_binding (blake3 : Blake3) (compress : Fr → Fr → Fr) (d d' : BoundaryDescriptor) :
    (∀ v v' c, commitBoundaryNative blake3 compress d v = .ok c → commitBoundaryNative blake3 compress d' v' = .ok c →
      (SameTensor d d' ∧ v = v') ∨
      Collision compress (protocolDomain blake3) (absorbed blake3 d v) (absorbed blake3 d' v') ∨
      ReachesStart compress (protocolDomain blake3) (absorbed blake3 d v) (absorbed blake3 d' v') ∨
      (d.registerId ≠ d'.registerId ∧ identityFields blake3 d.registerId = identityFields blake3 d'.registerId)) ∧
    (SameTensor d d' → d.validate = .ok () → d'.validate = .ok () →
      ∀ v, commitBoundaryNative blake3 compress d v = commitBoundaryNative blake3 compress d' v) := by
  constructor
  · intro v v' c h h'
    have hfold := (commitBoundaryNative_ok h).2.trans (commitBoundaryNative_ok h').2.symm
    rcases binding _ _ _ hfold with heq | hcollision | hstart
    · obtain ⟨hcount, hscale, hid, hvalues⟩ := absorbed_inj heq
      by_cases hregister : d.registerId = d'.registerId
      · exact Or.inl ⟨⟨hregister, hcount, hscale⟩, hvalues⟩
      · exact Or.inr (Or.inr (Or.inr ⟨hregister, hid⟩))
    · exact Or.inr (Or.inl hcollision)
    · exact Or.inr (Or.inr (Or.inl hstart))
  · intro hsame hvalid hvalid' v
    simp only [commitBoundaryNative, hvalid, hvalid', hsame.elementCount, hsame.canonicalFields blake3]

def exampleEndpoint (role : BoundaryRole) (edgeIds : List String) : BoundaryDescriptor :=
  ⟨role, "r", edgeIds, [], 1, 1000000000000000000⟩

theorem commitBoundaryNative_binding_endpoints :
    ∃ c, commitBoundaryNative (fun _ => Vector.replicate 32 7) (fun a b => a ^ 5 + b) (exampleEndpoint .output ["a"]) [default] = .ok c ∧
      commitBoundaryNative (fun _ => Vector.replicate 32 7) (fun a b => a ^ 5 + b) (exampleEndpoint .input ["a", "b"]) [default] = .ok c :=
  ⟨_, rfl, ((commitBoundaryNative_binding _ _ (exampleEndpoint .output ["a"]) (exampleEndpoint .input ["a", "b"])).2
    ⟨rfl, rfl, rfl⟩ (by decide +kernel) (by decide +kernel) [default]).symm⟩

end Binding

end Zkie.PoseidonBoundary
