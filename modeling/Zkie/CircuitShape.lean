import Zkie.PlanDigest
import Zkie.AggregationDigest
import Zkie.ProgramCircuit

namespace Zkie.CircuitShape

open AggregationDigest Assembler DigestBytes Encoding FixedPoint Isa PoseidonBoundary ProgramCircuit RmsNorm
open LittleEndian (toBytes)
open Statement (i64ToBytes)

section Encoders

/-- The numbers of a circuit are lengths or indices, written as 64-bit words. -/
def encodeUsize (value : ℕ) : List UInt8 := toBytes 8 value

def encodeUsizes (values : List ℕ) : List UInt8 := encodeUsize values.length ++ values.flatMap encodeUsize

def encodeString (value : String) : List UInt8 := encodeUsize value.utf8ByteSize ++ utf8 value

def encodeStrings (values : List String) : List UInt8 := encodeUsize values.length ++ values.flatMap encodeString

def encodeBoundaryDescriptor (descriptor : BoundaryDescriptor) : List UInt8 :=
  toBytes 4 boundaryCommitmentSchemaVersion.toNat ++ [roleByte descriptor.role] ++ encodeString descriptor.registerId ++
    encodeStrings descriptor.edgeIds ++ encodeStrings descriptor.graphOutputNames ++
    toBytes 8 descriptor.elementCount.toNat ++ toBytes 8 descriptor.quantizationScale.toNat

def encodeWords (values : List UInt64) : List UInt8 := values.flatMap fun value => toBytes 8 value.toNat

def encodeRef : RegisterRef → List UInt8
  | .input index => 0 :: encodeWords [index]
  | .weight index => 1 :: encodeWords [index]
  | .virtual index => 2 :: encodeWords [index]

def eltwiseByte : EltwiseOp → UInt8
  | .add => 0
  | .mul => 1
  | .relu => 2

def reduceByte : ReduceOp → UInt8
  | .sum => 0
  | .mean => 1

def boolByte (b : Bool) : UInt8 := if b then 1 else 0

def encodeOpcode : Instruction → List UInt8
  | .dotGeneral m n k batchDims transA transB =>
      0 :: (encodeUsize 3 ++ encodeWords [m, n, k] ++ encodeUsize batchDims.length ++ encodeWords batchDims ++
        [boolByte transA, boolByte transB])
  | .softmax axisDim => 1 :: encodeWords [axisDim]
  | .gelu => [2]
  | .layerNorm dim epsilonMilli => 3 :: encodeWords [dim, epsilonMilli]
  | .rmsNorm dim epsilonMilli => 4 :: encodeWords [dim, epsilonMilli]
  | .eltwise op => [5, eltwiseByte op]
  | .reduce op axis => 6 :: reduceByte op :: encodeWords [axis]
  | .embedLookup tableSize embedDim => 7 :: (encodeUsize 2 ++ encodeWords [tableSize, embedDim])
  | .patchEmbed patchLen embedDim => 8 :: (encodeUsize 2 ++ encodeWords [patchLen, embedDim])

def encodeInstruction (instruction : AssemblerInstruction) : List UInt8 :=
  encodeUsize instruction.inputs.length ++ instruction.inputs.flatMap encodeRef ++ encodeOpcode instruction.instruction

def encodeDomain : RsqrtDomain → List UInt8
  | .range min max n => 0 :: encodeWords [min, max, n]
  | .rawAnchors points => 1 :: (encodeUsize points.length ++ points.flatMap i64ToBytes)

def encodeEntry (entry : (UInt64 × UInt64) × RsqrtDomain) : List UInt8 :=
  encodeWords [entry.1.1, entry.1.2] ++ encodeDomain entry.2

def encodeOutput (entry : ℕ × BoundaryDescriptor) : List UInt8 := encodeUsize entry.1 ++ encodeBoundaryDescriptor entry.2

def encodeWeights (tensor : List I18) : List UInt8 := encodeUsize tensor.length ++ tensor.flatMap i64ToBytes

/-- The entries of the hash map, in the order of their keys. -/
def sortedDomains (domains : RmsNormDomains) : RmsNormDomains := domains.insertionSort fun a b => KeyLe a.1 b.1

def instanceLayout (params : AssemblerCircuitParams) : List UInt8 :=
  if params.boundaryInputs = [] ∧ params.boundaryOutputs = [] then
    utf8 "public-instances-v1:inputs,weights,selected-outputs\x00"
  else utf8 "public-instances-v2:leaf,input-commitments,output-commitments,weights\x00"

def canonicalShapeBytes (params : AssemblerCircuitParams) : List UInt8 :=
  utf8 "zkie.assembler-circuit-shape.v3\x00" ++ instanceLayout params ++ encodeUsizes params.inputShapes ++
    encodeUsizes params.weightShapes ++ encodeUsizes params.publicOutputIndices ++ encodeUsize params.leafPrefixLen ++
    encodeUsize params.boundaryInputs.length ++ params.boundaryInputs.flatMap encodeBoundaryDescriptor ++
    encodeUsize params.boundaryOutputs.length ++ params.boundaryOutputs.flatMap encodeOutput ++
    encodeUsize params.fixedPublicWeights.length ++ params.fixedPublicWeights.flatMap encodeWeights ++
    encodeUsize params.instructions.length ++ params.instructions.flatMap encodeInstruction ++
    encodeUsize (sortedDomains params.rmsNormDomains).length ++ (sortedDomains params.rmsNormDomains).flatMap encodeEntry

end Encoders

section Parts

def UsizesFit (values : List ℕ) : Prop := Machine values.length ∧ ∀ value ∈ values, Machine value

/-- The lengths of the vectors of an instruction, which is all that is not fixed in size. -/
def InstructionFits (instruction : AssemblerInstruction) : Prop :=
  Machine instruction.inputs.length ∧ ∀ m n k batchDims transA transB,
    instruction.instruction = .dotGeneral m n k batchDims transA transB → Machine batchDims.length

def DomainFits (domain : RsqrtDomain) : Prop := ∀ points, domain = .rawAnchors points → Machine points.length

theorem prefixFree_encodeUsize : PrefixFree Machine encodeUsize := prefixFree_u64

theorem prefixFree_encodeString : PrefixFree TextFits encodeString := prefixFree_text

theorem prefixFree_encodeStrings : PrefixFree TextsFit encodeStrings := prefixFree_encodeTextList

/-- Elements behind their number. -/
theorem prefixFree_vec {γ : Type} {P : γ → Prop} {put : γ → List UInt8} (h : PrefixFree P put) :
    PrefixFree (fun values : List γ => Machine values.length ∧ ∀ value ∈ values, P value)
      fun values => encodeUsize values.length ++ values.flatMap put := by
  have hnothing : Reveals (fun values : List γ => Machine values.length ∧ ∀ value ∈ values, P value) (fun _ => []) _ :=
    reveals_const []
  apply (hnothing.counted h 8 id fun _ hfits => hfits).imp
  rintro a b - - ⟨-, rfl⟩
  rfl

theorem prefixFree_encodeUsizes : PrefixFree UsizesFit encodeUsizes := prefixFree_vec prefixFree_encodeUsize

theorem prefixFree_encodeBoundaryDescriptor : PrefixFree DescriptorFits encodeBoundaryDescriptor := by
  have hversion : Reveals DescriptorFits (fun _ => toBytes 4 boundaryCommitmentSchemaVersion.toNat) _ := reveals_const _
  have hrole := hversion.append ((prefixFree_tag roleByte_injective).field BoundaryDescriptor.role)
  have hregister := hrole.append (prefixFree_encodeString.comp BoundaryDescriptor.registerId fun d h => h.registerId)
  have hedges := hregister.append (prefixFree_encodeStrings.comp BoundaryDescriptor.edgeIds fun d h => h.edgeIds)
  have hnames := hedges.append
    (prefixFree_encodeStrings.comp BoundaryDescriptor.graphOutputNames fun d h => h.graphOutputNames)
  have hcount := hnames.append (prefixFree_word64.field BoundaryDescriptor.elementCount)
  apply (hcount.append (prefixFree_word64.field BoundaryDescriptor.quantizationScale)).imp
  rintro ⟨role, register, edges, names, count, scale⟩ ⟨role', register', edges', names', count', scale'⟩ - -
    ⟨⟨⟨⟨⟨⟨-, hrole⟩, hregister⟩, hedges⟩, hnames⟩, hcount⟩, hscale⟩
  simp only at hrole hregister hedges hnames hcount hscale
  rw [hrole, hregister, hedges, hnames, hcount, hscale]

/-- As many words as are known to be there. -/
theorem encodeWords_append_inj {as bs : List UInt64} {s t : List UInt8} (hlength : as.length = bs.length)
    (h : encodeWords as ++ s = encodeWords bs ++ t) : as = bs ∧ s = t :=
  prefixFree_word64.flatMap (fun _ _ => trivial) (fun _ _ => trivial) hlength h

theorem prefixFree_encodeRef : PrefixFree (fun _ => True) encodeRef := by
  rintro (a | a | a) (b | b | b) s t - - heq
  all_goals
    obtain ⟨htag, hrest⟩ := List.cons.inj heq
    first
    | exact absurd htag (by decide)
    | obtain ⟨hindex, hst⟩ := encodeWords_append_inj (show [a].length = [b].length from rfl) hrest
      exact ⟨by rw [(List.cons.inj hindex).1], hst⟩

theorem prefixFree_i64 : PrefixFree (fun _ => True) i64ToBytes := by
  apply prefixFree_fixed (n := 8)
  · intro value _
    exact LittleEndian.toBytes_length ..
  · intro a b _ _ h
    have hlt : ∀ value : I18, (value.raw % 2 ^ 64).toNat < 256 ^ 8 := by
      intro value
      have := Int.emod_lt_of_pos value.raw (by norm_num : (0 : ℤ) < 2 ^ 64)
      omega
    have hmod := LittleEndian.toBytes_inj (hlt a) (hlt b) h
    have hla := a.lower
    have hua := a.upper
    have hlb := b.lower
    have hub := b.upper
    apply I18.ext
    simp only [signedShift] at hla hua hlb hub
    omega

theorem eltwiseByte_injective : Function.Injective eltwiseByte := by
  rintro (_ | _ | _) (_ | _ | _) h
  all_goals first | rfl | cases h

theorem reduceByte_injective : Function.Injective reduceByte := by
  rintro (_ | _) (_ | _) h
  all_goals first | rfl | cases h

theorem boolByte_injective : Function.Injective boolByte := by
  rintro (_ | _) (_ | _) h
  all_goals first | rfl | cases h

theorem encodeOpcode_head (instruction : Instruction) (s : List UInt8) :
    (encodeOpcode instruction ++ s).head? = (encodeOpcode instruction).head? := by
  cases instruction <;> rfl

theorem prefixFree_encodeOpcode : PrefixFree (fun instruction : Instruction => ∀ m n k batchDims transA transB,
    instruction = .dotGeneral m n k batchDims transA transB → Machine batchDims.length) encodeOpcode := by
  intro i j s t hi hj heq
  -- the first byte tells the instructions apart
  have htag := congrArg List.head? heq
  rw [encodeOpcode_head, encodeOpcode_head] at htag
  cases i <;> cases j <;> try (simp [encodeOpcode] at htag; done)
  case dotGeneral.dotGeneral m n k dims transA transB m' n' k' dims' transA' transB' =>
    simp only [encodeOpcode, List.cons_append, List.append_assoc, List.cons.injEq, List.append_cancel_left_eq,
      true_and] at heq
    obtain ⟨hsizes, heq⟩ := encodeWords_append_inj (show [m, n, k].length = [m', n', k'].length from rfl) heq
    obtain ⟨hlength, heq⟩ := prefixFree_encodeUsize (hi _ _ _ _ _ _ rfl) (hj _ _ _ _ _ _ rfl) heq
    obtain ⟨hdims, heq⟩ := encodeWords_append_inj hlength heq
    simp only [List.nil_append, List.cons.injEq] at heq hsizes
    obtain ⟨hA, hB, hst⟩ := heq
    refine ⟨?_, hst⟩
    rw [hsizes.1, hsizes.2.1, hsizes.2.2.1, hdims, boolByte_injective hA, boolByte_injective hB]
  case softmax.softmax a b =>
    obtain ⟨h, hst⟩ := encodeWords_append_inj (show [a].length = [b].length from rfl) (List.cons.inj heq).2
    exact ⟨by rw [(List.cons.inj h).1], hst⟩
  case gelu.gelu => exact ⟨rfl, (List.cons.inj heq).2⟩
  case layerNorm.layerNorm a e b f =>
    obtain ⟨h, hst⟩ := encodeWords_append_inj (show [a, e].length = [b, f].length from rfl) (List.cons.inj heq).2
    simp only [List.cons.injEq, and_true] at h
    exact ⟨by rw [h.1, h.2], hst⟩
  case rmsNorm.rmsNorm a e b f =>
    obtain ⟨h, hst⟩ := encodeWords_append_inj (show [a, e].length = [b, f].length from rfl) (List.cons.inj heq).2
    simp only [List.cons.injEq, and_true] at h
    exact ⟨by rw [h.1, h.2], hst⟩
  case eltwise.eltwise a b =>
    obtain ⟨h, hst⟩ := List.cons.inj (List.cons.inj heq).2
    exact ⟨by rw [eltwiseByte_injective h], hst⟩
  case reduce.reduce a x b y =>
    obtain ⟨hop, hrest⟩ := List.cons.inj (List.cons.inj heq).2
    obtain ⟨h, hst⟩ := encodeWords_append_inj (show [x].length = [y].length from rfl) hrest
    exact ⟨by rw [reduceByte_injective hop, (List.cons.inj h).1], hst⟩
  case embedLookup.embedLookup a x b y =>
    simp only [encodeOpcode, List.cons_append, List.append_assoc, List.cons.injEq, List.append_cancel_left_eq,
      true_and] at heq
    obtain ⟨h, hst⟩ := encodeWords_append_inj (show [a, x].length = [b, y].length from rfl) heq
    simp only [List.cons.injEq, and_true] at h
    exact ⟨by rw [h.1, h.2], hst⟩
  case patchEmbed.patchEmbed a x b y =>
    simp only [encodeOpcode, List.cons_append, List.append_assoc, List.cons.injEq, List.append_cancel_left_eq,
      true_and] at heq
    obtain ⟨h, hst⟩ := encodeWords_append_inj (show [a, x].length = [b, y].length from rfl) heq
    simp only [List.cons.injEq, and_true] at h
    exact ⟨by rw [h.1, h.2], hst⟩

theorem prefixFree_encodeInstruction : PrefixFree InstructionFits encodeInstruction := by
  have hinputs := (prefixFree_vec prefixFree_encodeRef).comp AssemblerInstruction.inputs
    fun (instruction : AssemblerInstruction) (h : InstructionFits instruction) => ⟨h.1, fun _ _ => trivial⟩
  apply (hinputs.append (prefixFree_encodeOpcode.comp AssemblerInstruction.instruction fun _ h => h.2)).imp
  rintro ⟨opcode, inputs⟩ ⟨opcode', inputs'⟩ - - ⟨hinputs, hopcode⟩
  simp only at hinputs hopcode
  rw [hinputs, hopcode]

theorem prefixFree_encodeDomain : PrefixFree DomainFits encodeDomain := by
  rintro (⟨min, max, n⟩ | points) (⟨min', max', n'⟩ | points') s t hd hd' heq
  · obtain ⟨h, hst⟩ := encodeWords_append_inj (show [min, max, n].length = [min', max', n'].length from rfl)
      (List.cons.inj heq).2
    simp only [List.cons.injEq, and_true] at h
    exact ⟨by rw [h.1, h.2.1, h.2.2], hst⟩
  · exact absurd (List.cons.inj heq).1 (by decide)
  · exact absurd (List.cons.inj heq).1 (by decide)
  · obtain ⟨rfl, hst⟩ := prefixFree_vec prefixFree_i64 ⟨hd points rfl, fun _ _ => trivial⟩
      ⟨hd' points' rfl, fun _ _ => trivial⟩ (List.cons.inj heq).2
    exact ⟨rfl, hst⟩

theorem prefixFree_encodeEntry : PrefixFree (fun entry : (UInt64 × UInt64) × RsqrtDomain => DomainFits entry.2)
    encodeEntry := by
  have hkey : PrefixFree (fun _ => True) fun key : UInt64 × UInt64 => encodeWords [key.1, key.2] := by
    rintro ⟨dim, epsilon⟩ ⟨dim', epsilon'⟩ s t - - heq
    obtain ⟨h, hst⟩ := encodeWords_append_inj (show [dim, epsilon].length = [dim', epsilon'].length from rfl) heq
    simp only [List.cons.injEq, and_true] at h
    exact ⟨by rw [h.1, h.2], hst⟩
  apply ((hkey.field Prod.fst).append (prefixFree_encodeDomain.comp Prod.snd fun _ h => h)).imp
  rintro entry entry' - - ⟨hkey, hdomain⟩
  exact Prod.ext hkey hdomain

theorem prefixFree_encodeOutput : PrefixFree
    (fun entry : ℕ × BoundaryDescriptor => Machine entry.1 ∧ DescriptorFits entry.2) encodeOutput := by
  have hindex := prefixFree_encodeUsize.comp Prod.fst
    fun (entry : ℕ × BoundaryDescriptor) (h : Machine entry.1 ∧ DescriptorFits entry.2) => h.1
  apply (hindex.append (prefixFree_encodeBoundaryDescriptor.comp Prod.snd fun _ h => h.2)).imp
  rintro entry entry' - - ⟨hindex, hdescriptor⟩
  exact Prod.ext hindex hdescriptor

/-- What the types of the source promise: lengths and indices are 64-bit numbers, and a hash map has each key once. -/
structure Representable (params : AssemblerCircuitParams) : Prop where
  inputShapes : UsizesFit params.inputShapes
  weightShapes : UsizesFit params.weightShapes
  publicOutputIndices : UsizesFit params.publicOutputIndices
  leafPrefixLen : Machine params.leafPrefixLen
  boundaryInputs : Machine params.boundaryInputs.length ∧ ∀ descriptor ∈ params.boundaryInputs, DescriptorFits descriptor
  boundaryOutputs : Machine params.boundaryOutputs.length ∧
    ∀ entry ∈ params.boundaryOutputs, Machine entry.1 ∧ DescriptorFits entry.2
  fixedPublicWeights : Machine params.fixedPublicWeights.length ∧
    ∀ tensor ∈ params.fixedPublicWeights, Machine tensor.length ∧ ∀ value ∈ tensor, True
  instructions : Machine params.instructions.length ∧ ∀ instruction ∈ params.instructions, InstructionFits instruction
  domains : Machine params.rmsNormDomains.length ∧ ∀ entry ∈ params.rmsNormDomains, DomainFits entry.2
  keys : (params.rmsNormDomains.map Prod.fst).Nodup

/-- The same parameters, whatever the order in which the hash map lists its entries. -/
def SameParams (p q : AssemblerCircuitParams) : Prop :=
  q = { p with rmsNormDomains := q.rmsNormDomains } ∧ p.rmsNormDomains.Perm q.rmsNormDomains

theorem sortedDomains_perm (domains : RmsNormDomains) : (sortedDomains domains).Perm domains :=
  List.perm_insertionSort _ domains

theorem instanceLayout_reveals : Reveals Representable instanceLayout fun _ _ => True := by
  have hne : ∀ s t : List UInt8, utf8 "public-instances-v1:inputs,weights,selected-outputs\x00" ++ s ≠
      utf8 "public-instances-v2:leaf,input-commitments,output-commitments,weights\x00" ++ t := by
    intro s t heq
    have htake := congrArg (List.take 19) heq
    rw [List.take_append_of_le_length (by decide +kernel), List.take_append_of_le_length (by decide +kernel)] at htake
    exact absurd htake (by decide +kernel)
  intro p q s t _ _ heq
  refine ⟨trivial, ?_⟩
  unfold instanceLayout at heq
  split at heq <;> split at heq
  · exact List.append_cancel_left heq
  · exact absurd heq (hne s t)
  · exact absurd heq.symm (hne t s)
  · exact List.append_cancel_left heq

theorem canonicalShapeBytes_reveal : Reveals Representable canonicalShapeBytes SameParams := by
  have hheader : Reveals Representable (fun _ => utf8 "zkie.assembler-circuit-shape.v3\x00") _ := reveals_const _
  have hlayout := hheader.append instanceLayout_reveals
  have hinputs := hlayout.append (prefixFree_encodeUsizes.comp (·.inputShapes) fun _ h => h.inputShapes)
  have hweights := hinputs.append (prefixFree_encodeUsizes.comp (·.weightShapes) fun _ h => h.weightShapes)
  have hindices := hweights.append (prefixFree_encodeUsizes.comp (·.publicOutputIndices) fun _ h => h.publicOutputIndices)
  have hprefix := hindices.append (prefixFree_encodeUsize.comp (·.leafPrefixLen) fun _ h => h.leafPrefixLen)
  have hboundaries := hprefix.counted prefixFree_encodeBoundaryDescriptor 8 (·.boundaryInputs) fun _ h => h.boundaryInputs
  have houtputs := hboundaries.counted prefixFree_encodeOutput 8 (·.boundaryOutputs) fun _ h => h.boundaryOutputs
  have hfixed := houtputs.counted (prefixFree_vec prefixFree_i64) 8 (·.fixedPublicWeights) fun _ h => h.fixedPublicWeights
  have hinstructions := hfixed.counted prefixFree_encodeInstruction 8 (·.instructions) fun _ h => h.instructions
  apply (hinstructions.counted prefixFree_encodeEntry 8 (fun p => sortedDomains p.rmsNormDomains) fun p h => ?_).imp
  · rintro p q - - ⟨⟨⟨⟨⟨⟨⟨⟨⟨-, hinputs⟩, hweights⟩, hindices⟩, hprefix⟩, hboundaries⟩, houtputs⟩, hfixed⟩, hinstructions⟩, hdomains⟩
    constructor
    · cases p
      cases q
      simp only at hinputs hweights hindices hprefix hboundaries houtputs hfixed hinstructions
      simp only [hinputs, hweights, hindices, hprefix, hboundaries, houtputs, hfixed, hinstructions]
    · exact (sortedDomains_perm _).symm.trans (hdomains ▸ sortedDomains_perm _)
  · rw [(sortedDomains_perm _).length_eq]
    exact ⟨h.domains.1, fun entry hentry => h.domains.2 entry ((sortedDomains_perm _).mem_iff.mp hentry)⟩

/-- The key of an entry as a number of the lexicographic order. -/
def entryKey (entry : (UInt64 × UInt64) × RsqrtDomain) : ℕ ×ₗ ℕ := toLex (entry.1.1.toNat, entry.1.2.toNat)

theorem keyLe_iff (a b : (UInt64 × UInt64) × RsqrtDomain) : KeyLe a.1 b.1 ↔ entryKey a ≤ entryKey b := by
  rw [entryKey, entryKey, Prod.Lex.toLex_le_toLex, KeyLe, UInt64.lt_iff_toNat_lt, UInt64.le_iff_toNat_le,
    UInt64.toNat_inj]

theorem sortedDomains_sorted (domains : RmsNormDomains) :
    (sortedDomains domains).Pairwise fun a b => entryKey a ≤ entryKey b := by
  have htotal : Std.Total fun a b : (UInt64 × UInt64) × RsqrtDomain => KeyLe a.1 b.1 :=
    ⟨fun a b => by rw [keyLe_iff, keyLe_iff]; exact le_total _ _⟩
  have htrans : IsTrans ((UInt64 × UInt64) × RsqrtDomain) fun a b => KeyLe a.1 b.1 :=
    ⟨fun a b c => by rw [keyLe_iff, keyLe_iff, keyLe_iff]; exact le_trans⟩
  exact (List.pairwise_insertionSort _ domains).imp fun h => (keyLe_iff _ _).mp h

/-- The bytes do not depend on the order in which the hash map lists its entries. -/
theorem sortedDomains_eq {domains domains' : RmsNormDomains} (hkeys : (domains'.map Prod.fst).Nodup)
    (h : domains.Perm domains') : sortedDomains domains = sortedDomains domains' := by
  apply PlanDigest.eq_of_sorted entryKey (sortedDomains_sorted _) (sortedDomains_sorted _)
  · intro a ha b hb heq
    have hkey := toLex.injective heq
    simp only [Prod.mk.injEq, UInt64.toNat_inj] at hkey
    exact List.inj_on_of_nodup_map hkeys ((sortedDomains_perm _).mem_iff.mp ha) ((sortedDomains_perm _).mem_iff.mp hb)
      (Prod.ext hkey.1 hkey.2)
  · exact (sortedDomains_perm _).trans (h.trans (sortedDomains_perm _).symm)

theorem canonicalShapeBytes_eq_iff {p q : AssemblerCircuitParams} (hp : Representable p) (hq : Representable q) :
    canonicalShapeBytes p = canonicalShapeBytes q ↔ SameParams p q := by
  refine ⟨canonicalShapeBytes_reveal.of_eq hp hq, ?_⟩
  rintro ⟨heq, hperm⟩
  have hdomains := sortedDomains_eq hq.keys hperm
  rw [heq]
  simp only [canonicalShapeBytes, instanceLayout, hdomains]

end Parts

end Zkie.CircuitShape
