import Zkie.ManifestFlow

namespace Zkie.MergeAccepts

open AggregationDigest AggregationTree Checked ClaimFlow ClaimMerging LeafClaims ManifestFlow NativeManifest
open BuildDag (Edge)
open PoseidonBoundary (Blake3 BoundaryDescriptor)
open RunDatabase (Digest32)
open Statement (BoundaryClaim LeafStatement)
open VerifyProof (VerifiedProof)
open Zkie.Partition (PartitionPlan)
open Std (ExtTreeMap ExtTreeSet)

section Folds

variable {κ : Type} {cmp : κ → κ → Ordering} [Std.TransCmp cmp] [Std.LawfulEqCmp cmp]

/-- The converse of `insertNew_ok`. -/
theorem insertNew_total {error : κ → AggregationError} [DecidableEq κ] {xs : List κ} {set : ExtTreeSet κ cmp} (hnodup : xs.Nodup)
    (hfresh : ∀ x ∈ xs, x ∉ set) : ∃ set', xs.foldlM (fun set x => do
      refuseIf (x ∈ set) (error x)
      return set.insert x) set = .ok set' := by
  induction xs generalizing set with
  | nil => exact ⟨set, rfl⟩
  | cons x xs ih =>
      obtain ⟨hnot, hnodup⟩ := List.nodup_cons.mp hnodup
      obtain ⟨hx, hxs⟩ := List.forall_mem_cons.mp hfresh
      have hrest : ∀ y ∈ xs, y ∉ set.insert x := by
        intro y hy hmem
        rw [ExtTreeSet.mem_insert, Std.LawfulEqCmp.compare_eq_iff_eq] at hmem
        rcases hmem with rfl | hold
        · exact hnot hy
        · exact hxs y hy hold
      obtain ⟨set', hset'⟩ := ih hnodup hrest
      refine ⟨set', ?_⟩
      rw [List.foldlM_cons]
      exact bind_eq_ok.mpr ⟨set.insert x, bind_eq_ok.mpr ⟨(), refuse_ok.mpr hx, rfl⟩, hset'⟩

/-- A fold that another one follows step by step. -/
theorem foldlM_follows {ε α β : Type} {I : List α → β → Prop} {f g : β → α → Except ε β} {xs : List α}
    (h : ∀ done x rest b b', xs = done ++ x :: rest → I done b → f b x = .ok b' → g b x = .ok b' ∧ I (done ++ [x]) b') {b b' : β}
    (hb : I [] b) (hok : xs.foldlM f b = .ok b') : xs.foldlM g b = .ok b' ∧ I xs b' := by
  have hsuffix : ∀ rest done b, xs = done ++ rest → I done b → rest.foldlM f b = .ok b' → rest.foldlM g b = .ok b' ∧ I xs b' := by
    intro rest
    induction rest with
    | nil =>
        rintro done b hsplit hdone ⟨⟩
        rw [List.append_nil] at hsplit
        exact ⟨rfl, hsplit ▸ hdone⟩
    | cons x rest ih =>
        intro done b hsplit hdone hok
        rw [List.foldlM_cons] at hok
        obtain ⟨between, hstep, hrest⟩ := bind_eq_ok.mp hok
        obtain ⟨hstep, hbetween⟩ := h done x rest b between hsplit hdone hstep
        obtain ⟨hrest, hend⟩ := ih (done ++ [x]) between (by rw [hsplit, List.append_assoc]; rfl) hbetween hrest
        rw [List.foldlM_cons]
        exact ⟨bind_eq_ok.mpr ⟨between, hstep, hrest⟩, hend⟩
  exact hsuffix xs [] b rfl hb hok

end Folds

section Boundaries

variable {node : AggregationChildId} {frontier : Frontier}

/-- No side of the edge comes from both. -/
def Compatible (target incoming : EdgeFrontier) : Prop :=
  (target.producer = none ∨ incoming.producer = none) ∧ (target.consumer = none ∨ incoming.consumer = none)

theorem joinSide_total {id : String} {target incoming : Option ScalarField.Fr} (h : target = none ∨ incoming = none) :
    ∃ side, joinSide id target incoming = .ok side := by
  cases incoming with
  | none => exact ⟨target, rfl⟩
  | some value =>
      obtain rfl := h.resolve_right (Option.some_ne_none value)
      exact ⟨some value, bind_eq_ok.mpr ⟨(), refuse_ok.mpr fun hne => hne rfl, rfl⟩⟩

theorem mergeFrontiers_total {incoming : List (String × EdgeFrontier)} (hkeys : (incoming.map Prod.fst).Nodup)
    (h : ∀ entry ∈ incoming, Compatible (entryOf frontier entry.1) entry.2) :
    ∃ frontier', incoming.foldlM mergeFrontier frontier = .ok frontier' := by
  induction incoming generalizing frontier with
  | nil => exact ⟨frontier, rfl⟩
  | cons entry incoming ih =>
      rw [List.map_cons, List.nodup_cons] at hkeys
      obtain ⟨⟨hproducer, hconsumer⟩, hrest⟩ := List.forall_mem_cons.mp h
      obtain ⟨producer, hproducer⟩ : ∃ side, joinSide entry.1 _ _ = .ok side := joinSide_total hproducer
      obtain ⟨consumer, hconsumer⟩ : ∃ side, joinSide entry.1 _ _ = .ok side := joinSide_total hconsumer
      have hnext : ∀ other ∈ incoming, Compatible (entryOf (frontier.insert entry.1 ⟨producer, consumer⟩) other.1) other.2 := by
        intro other hother
        have hne : entry.1 ≠ other.1 := fun heq => hkeys.1 (heq ▸ List.mem_map_of_mem hother)
        rw [entryOf_insert_ne _ hne]
        exact hrest other hother
      obtain ⟨frontier', hfold⟩ := ih hkeys.2 hnext
      refine ⟨frontier', ?_⟩
      rw [List.foldlM_cons]
      exact bind_eq_ok.mpr ⟨_, bind_eq_ok.mpr ⟨producer, hproducer, bind_eq_ok.mpr ⟨consumer, hconsumer, rfl⟩⟩, hfold⟩

theorem inputs_total {S : PublicBoundaryBinding → Prop} {target : ExtTreeMap String PublicBoundaryBinding}
    {bindings : List PublicBoundaryBinding} (h : Keyed S target)
    (hone : ∀ b b', (S b ∨ b ∈ bindings) → (S b' ∨ b' ∈ bindings) → b.descriptor.registerId = b'.descriptor.registerId → b = b') :
    ∃ target', bindings.foldlM (mergePublicInput node) target = .ok target' := by
  induction bindings generalizing S target with
  | nil => exact ⟨target, rfl⟩
  | cons new bindings ih =>
      have hstep : ∃ between, mergePublicInput node target new = .ok between := by
        unfold mergePublicInput
        dsimp only
        split
        · next existing hexisting =>
          obtain ⟨hkey, hS⟩ := (h _ _).mp hexisting
          have hsame : existing = new := hone existing new (.inl hS) (.inr (.head _)) hkey
          exact ⟨target, bind_eq_ok.mpr ⟨(), refuse_ok.mpr (not_not.mpr hsame), rfl⟩⟩
        · exact ⟨_, rfl⟩
      obtain ⟨between, hbetween⟩ := hstep
      have hkeyed : Keyed (fun b => S b ∨ b ∈ [new]) between := by
        apply h.merge
        rw [List.foldlM_cons]
        exact bind_eq_ok.mpr ⟨between, hbetween, rfl⟩
      have hor : ∀ b, (S b ∨ b ∈ [new]) ∨ b ∈ bindings → S b ∨ b ∈ new :: bindings := by
        rintro b ((hS | hb) | hb)
        · exact .inl hS
        · exact .inr (List.mem_singleton.mp hb ▸ .head _)
        · exact .inr (.tail _ hb)
      obtain ⟨target', hfold⟩ := ih hkeyed fun b b' hb hb' => hone b b' (hor b hb) (hor b' hb')
      refine ⟨target', ?_⟩
      rw [List.foldlM_cons]
      exact bind_eq_ok.mpr ⟨between, hbetween, hfold⟩

theorem output_total {outputs : List PublicBoundaryBinding} {binding : PublicBoundaryBinding}
    {target : ExtTreeMap String PublicBoundaryBinding × ExtTreeSet String} (h : Gathered outputs target)
    (hnames : binding.descriptor.graphOutputNames ≠ [])
    (hdisjoint : ∀ b ∈ outputs, List.Disjoint b.descriptor.graphOutputNames binding.descriptor.graphOutputNames) :
    ∃ target', mergePublicOutput node target binding = .ok target' := by
  have hfresh : ∀ name ∈ binding.descriptor.graphOutputNames, name ∉ target.2 := by
    intro name hname hmem
    obtain ⟨b, hb, hold⟩ := (h.names name).mp hmem
    exact hdisjoint b hb hold hname
  obtain ⟨key, rest, hcons⟩ := List.exists_cons_of_ne_nil hnames
  have hkey : key ∉ target.1 := by
    intro hmem
    obtain ⟨b, hb⟩ := Option.isSome_iff_exists.mp (ExtTreeMap.mem_iff_isSome_getElem?.mp hmem)
    obtain ⟨hhead, hmem⟩ := (h.keyed key b).mp hb
    exact hdisjoint b hmem (List.mem_of_mem_head? hhead) (hcons ▸ .head _)
  have hnone : (binding.descriptor.graphOutputNames.find? fun name => name ∈ target.2) = none := by
    simpa using hfresh
  have hhead : binding.descriptor.graphOutputNames.head? = some key := by
    rw [hcons]
    rfl
  unfold mergePublicOutput
  dsimp only
  rw [hnone, hhead]
  exact ⟨_, bind_eq_ok.mpr ⟨(), refuse_ok.mpr hkey, rfl⟩⟩

theorem outputs_total {outputs bindings : List PublicBoundaryBinding}
    {target : ExtTreeMap String PublicBoundaryBinding × ExtTreeSet String} (h : Gathered outputs target)
    (hnames : ∀ b ∈ bindings, b.descriptor.graphOutputNames ≠ [])
    (hdisjoint : (outputs ++ bindings).Pairwise fun b b' => List.Disjoint b.descriptor.graphOutputNames b'.descriptor.graphOutputNames) :
    ∃ target', bindings.foldlM (mergePublicOutput node) target = .ok target' := by
  induction bindings generalizing outputs target with
  | nil => exact ⟨target, rfl⟩
  | cons binding bindings ih =>
      obtain ⟨hname, hnames⟩ := List.forall_mem_cons.mp hnames
      obtain ⟨between, hbetween⟩ : ∃ between, mergePublicOutput node target binding = .ok between :=
        output_total h hname fun b hb => (List.pairwise_append.mp hdisjoint).2.2 b hb binding (.head _)
      rw [List.append_cons] at hdisjoint
      obtain ⟨target', hfold⟩ := ih (h.step hbetween) hnames hdisjoint
      refine ⟨target', ?_⟩
      rw [List.foldlM_cons]
      exact bind_eq_ok.mpr ⟨between, hbetween, hfold⟩

end Boundaries

section Budget

variable {ds ds' : List BoundaryDescriptor}

/-- The boundaries stay within both limits of a manifest. -/
structure Affordable (ds : List BoundaryDescriptor) : Prop where
  budgeted : Budgeted ds
  few : ds.length ≤ maxPublicBoundaryDeclarations

theorem Affordable.subperm (h : Affordable ds) (hsub : ds'.Subperm ds) : Affordable ds' := by
  obtain ⟨between, hperm, hsublist⟩ := hsub
  have hbetween := h.budgeted.sublist hsublist
  refine ⟨⟨fun d hd => hbetween.bounded d (hperm.mem_iff.mpr hd), ?_⟩, ?_⟩
  · rw [← (hperm.map boundOf).sum_eq]
    exact hbetween.total
  · rw [← hperm.length_eq]
    exact hsublist.length_le.trans h.few

theorem addBoundary_total {total : ℕ × ℕ} (hbounded : ∀ d ∈ ds, publicBoundaryWireUpperBound d = some (boundOf d))
    (hcount : total.1 + ds.length < 2 ^ 64) (hsum : total.2 + (ds.map boundOf).sum < 2 ^ 64) :
    ds.foldlM addBoundary total = some (total.1 + ds.length, total.2 + (ds.map boundOf).sum) := by
  induction ds generalizing total with
  | nil => rfl
  | cons d ds ih =>
      obtain ⟨hd, hds⟩ := List.forall_mem_cons.mp hbounded
      rw [List.length_cons] at hcount
      rw [List.map_cons, List.sum_cons] at hsum
      have hstep : addBoundary total d = some (total.1 + 1, total.2 + boundOf d) := by
        rw [addBoundary, checked, if_pos (by omega), hd]
        dsimp only [Option.bind_eq_bind, Option.bind_some]
        rw [checked, if_pos (by omega)]
        rfl
      have hrest := @ih (total.1 + 1, total.2 + boundOf d) hds (by dsimp only; omega) (by dsimp only; omega)
      rw [List.foldlM_cons, hstep, Option.bind_eq_bind, Option.bind_some, hrest, List.length_cons, List.map_cons, List.sum_cons]
      dsimp only
      rw [Nat.add_assoc, Nat.add_assoc, Nat.add_comm 1]

theorem Affordable.total (h : Affordable ds) : ∃ total, ds.foldlM addBoundary (0, 0) = some total ∧ WithinBudget total := by
  have hfew := h.few
  have htotal := h.budgeted.total
  have hbounds : maxPublicBoundaryDeclarations < 2 ^ 64 ∧ maxPublicBoundaryWireBytes < 2 ^ 64 := by decide
  refine ⟨_, addBoundary_total h.budgeted.bounded ?_ ?_, ?_⟩
  · omega
  · omega
  · rw [WithinBudget, Nat.zero_add, Nat.zero_add]
    exact ⟨hfew, htotal⟩

end Budget

section Children

variable {blake3 : Blake3} {statements : UInt64 → Option LeafStatement} {index : DagIndex} {L : UInt64 → LeafStatement → Prop}
  {child : VerifiedClaim} {merged : Merged} {node : AggregationChildId}

/-- The public inputs of the leaves of some shards. -/
def inputsOf (statements : UInt64 → Option LeafStatement) (shard : UInt64) : List PublicBoundaryBinding :=
  ((statements shard).map fun statement => publicBindings false statement.inputClaims).getD []

/-- What is public in the leaf of a shard. -/
def declaredOf (statements : UInt64 → Option LeafStatement) (shard : UInt64) : List BoundaryDescriptor :=
  (inputsOf statements shard ++ outputsOf statements shard).map (·.descriptor)

/-- The leaves of some shards do not contradict each other. -/
structure Consistent (statements : UInt64 → Option LeafStatement) (index : DagIndex) (shards : List UInt64) : Prop where
  distinct : shards.Nodup
  edges : ∀ (id : String) edge, index.edgesById[id]? = some edge →
    ∃ commitment, claimed statements true (UInt64.ofNat edge.producer) id = some commitment ∧
      claimed statements false (UInt64.ofNat edge.consumer) id = some commitment
  inputs : ∀ b ∈ shards.flatMap (inputsOf statements), ∀ b' ∈ shards.flatMap (inputsOf statements),
    b.descriptor.registerId = b'.descriptor.registerId → b = b'
  outputs : (shards.flatMap (outputsOf statements)).Pairwise fun b b' =>
    List.Disjoint b.descriptor.graphOutputNames b'.descriptor.graphOutputNames
  affordable : Affordable (shards.flatMap (declaredOf statements))

theorem mem_inputsOf {covered : ExtTreeSet UInt64} {b : PublicBoundaryBinding} :
    IsInput statements covered b ↔ b ∈ covered.toList.flatMap (inputsOf statements) := by
  rw [IsInput, List.mem_flatMap]
  constructor
  · rintro ⟨s, hs, statement, hstatement, hb⟩
    refine ⟨s, ExtTreeSet.mem_toList.mpr hs, ?_⟩
    rwa [inputsOf, hstatement]
  · rintro ⟨s, hs, hb⟩
    rw [inputsOf] at hb
    cases hstatement : statements s with
    | none =>
        rw [hstatement] at hb
        cases hb
    | some statement =>
        rw [hstatement] at hb
        exact ⟨s, ExtTreeSet.mem_toList.mp hs, statement, hstatement, hb⟩

theorem names_of_outputsOf {s : UInt64} {b : PublicBoundaryBinding} (h : b ∈ outputsOf statements s) :
    b.descriptor.graphOutputNames ≠ [] := by
  rw [outputsOf] at h
  cases hstatement : statements s with
  | none =>
      rw [hstatement] at h
      cases h
  | some statement =>
      rw [hstatement] at h
      obtain ⟨claim, hclaim, rfl⟩ := List.mem_map.mp h
      exact of_decide_eq_true (List.mem_filter.mp hclaim).2

/-- Different registers have different bindings. -/
theorem keyed_nodup {S : PublicBoundaryBinding → Prop} {target : ExtTreeMap String PublicBoundaryBinding} (h : Keyed S target) :
    target.values.Nodup := by
  rw [values_eq]
  refine List.Nodup.map_on (fun entry hentry entry' hentry' heq => ?_) ?_
  · obtain ⟨hkey, -⟩ := (h _ _).mp (ExtTreeMap.mem_toList_iff_getElem?_eq_some.mp hentry)
    obtain ⟨hkey', -⟩ := (h _ _).mp (ExtTreeMap.mem_toList_iff_getElem?_eq_some.mp hentry')
    exact Prod.ext (by rw [← hkey, ← hkey', heq]) heq
  · refine List.Nodup.of_map Prod.fst ?_
    rw [ExtTreeMap.map_fst_toList_eq_keys]
    exact ExtTreeMap.nodup_keys

/-- The merged boundaries are among those that the leaves declare. -/
theorem merged_subperm {S : PublicBoundaryBinding → Prop} {bindings : List PublicBoundaryBinding} {shards : List UInt64}
    {inputs : ExtTreeMap String PublicBoundaryBinding} {outputs : ExtTreeMap String PublicBoundaryBinding × ExtTreeSet String}
    (hinputs : Keyed S inputs) (hS : ∀ b, S b → b ∈ shards.flatMap (inputsOf statements)) (houtputs : Gathered bindings outputs)
    (hbindings : bindings.Perm (shards.flatMap (outputsOf statements))) :
    ((inputs.values ++ outputs.1.values).map (·.descriptor)).Subperm (shards.flatMap (declaredOf statements)) := by
  have hsub : inputs.values ⊆ shards.flatMap (inputsOf statements) := by
    intro b hb
    obtain ⟨key, hkey⟩ := mem_values.mp hb
    exact hS b ((hinputs key b).mp hkey).2
  obtain ⟨between, hperm, hsublist⟩ :=
    (List.subperm_of_subset (keyed_nodup hinputs) hsub).append (houtputs.values.trans hbindings).subperm
  refine List.Subperm.trans ⟨between.map (·.descriptor), hperm.map _, hsublist.map _⟩ (List.Perm.subperm ?_)
  have hdeclared : shards.flatMap (declaredOf statements) =
      (shards.flatMap fun s => inputsOf statements s ++ outputsOf statements s).map (·.descriptor) := by
    rw [List.map_flatMap]
    rfl
  rw [hdeclared]
  exact (List.flatMap_append_perm _ _ _).map _

theorem sides_compatible {covered covered' : ExtTreeSet UInt64} (hdisjoint : ∀ s ∈ covered', s ∉ covered) (id : String) (edge : Edge) :
    Compatible (sides statements covered id edge) (sides statements covered' id edge) := by
  have hside : ∀ (s : UInt64) (value : Option ScalarField.Fr), (if s ∈ covered then value else none) = none ∨
      (if s ∈ covered' then value else none) = none := by
    intro s value
    by_cases hs : s ∈ covered'
    · exact .inl (if_neg (hdisjoint s hs))
    · exact .inr (if_neg hs)
  exact ⟨hside _ _, hside _ _⟩

section Merge

variable {shards : List UInt64} (hconsistent : Consistent statements index shards)

theorem Consistent.subperm {shards' : List UInt64} (h : Consistent statements index shards) (hsub : shards'.Subperm shards) :
    Consistent statements index shards' := by
  obtain ⟨between, hperm, hsublist⟩ := hsub
  have hmem : ∀ {β : Type} {f : UInt64 → List β} {b : β}, b ∈ shards'.flatMap f → b ∈ shards.flatMap f := by
    intro β f b hb
    obtain ⟨s, hs, hb⟩ := List.mem_flatMap.mp hb
    exact List.mem_flatMap.mpr ⟨s, hsublist.subset (hperm.mem_iff.mpr hs), hb⟩
  refine ⟨hperm.nodup_iff.mp (h.distinct.sublist hsublist), h.edges, fun b hb b' hb' => h.inputs b (hmem hb) b' (hmem hb'), ?_, ?_⟩
  · have hbetween := h.outputs.sublist (hsublist.flatMap (outputsOf statements))
    exact ((hperm.flatMap_right _).pairwise_iff fun hdisjoint => hdisjoint.symm).mp hbetween
  · exact h.affordable.subperm ⟨_, hperm.flatMap_right _, hsublist.flatMap _⟩

/-- The shards of two sets are among the given ones. -/
structure Apart (shards : List UInt64) (covered covered' : ExtTreeSet UInt64) : Prop where
  left : ∀ s ∈ covered, s ∈ shards
  right : ∀ s ∈ covered', s ∈ shards
  disjoint : ∀ s ∈ covered', s ∉ covered

include hconsistent in
/-- A child with other shards is merged. -/
theorem mergeChild_total (h : SoundMerged statements index L merged) (hchild : Sound statements index L child)
    (hapart : Apart shards merged.covered child.coveredShards) :
    ∃ merged', mergeChild node merged child = .ok merged' ∧
      ∀ s, s ∈ merged'.covered ↔ s ∈ merged.covered ∨ s ∈ child.coveredShards := by
  obtain ⟨covered, hcovered⟩ : ∃ covered, child.coveredShards.toList.foldlM (coverShard node) merged.covered = .ok covered :=
    insertNew_total (OrderedMap.nodup_setToList _) fun s hs => hapart.disjoint s (ExtTreeSet.mem_toList.mp hs)
  have hmem := (insertNew_ok hcovered).1
  simp only [ExtTreeSet.mem_toList] at hmem
  have houtside : ∀ edge, Inside child.coveredShards edge → ¬Inside merged.covered edge := fun edge hinside hboth =>
    hapart.disjoint _ hinside.1 hboth.1
  obtain ⟨closed, hclosed⟩ : ∃ closed, child.closedEdges.toList.foldlM (closeEdge node) merged.closed = .ok closed := by
    refine insertNew_total (OrderedMap.nodup_setToList _) fun id hid hold => ?_
    obtain ⟨edge, hedge, hinside, -⟩ := hchild.flow.closed id (ExtTreeSet.mem_toList.mp hid)
    obtain ⟨edge', hedge', hinside', -⟩ := h.flow.closed id hold
    cases hedge.symm.trans hedge'
    exact houtside edge hinside hinside'
  obtain ⟨frontier, hfrontier⟩ : ∃ frontier, child.frontier.toList.foldlM mergeFrontier merged.frontier = .ok frontier := by
    refine mergeFrontiers_total (by rw [ExtTreeMap.map_fst_toList_eq_keys]; exact ExtTreeMap.nodup_keys) fun entry hentry => ?_
    have hget := ExtTreeMap.mem_toList_iff_getElem?_eq_some.mp hentry
    rw [hchild.flow.frontier, opened] at hget
    obtain ⟨edge, hedge, hget⟩ := Option.bind_eq_some_iff.mp hget
    split_ifs at hget with hmeets
    have hopen : entry.1 ∉ merged.closed := by
      intro hold
      obtain ⟨edge', hedge', hinside', -⟩ := h.flow.closed _ hold
      cases hedge.symm.trans hedge'
      rcases hmeets.2 with hmeet | hmeet
      · exact hapart.disjoint _ hmeet hinside'.1
      · exact hapart.disjoint _ hmeet hinside'.2
    rw [h.flow.entryOf hedge hopen, ← Option.some.inj hget]
    exact sides_compatible hapart.disjoint _ _
  have hunion : (merged.covered.toList ++ child.coveredShards.toList).Subperm shards := by
    refine List.subperm_of_subset ?_ fun s hs => ?_
    · refine (OrderedMap.nodup_setToList _).append (OrderedMap.nodup_setToList _) fun s hs hs' => ?_
      exact hapart.disjoint s (ExtTreeSet.mem_toList.mp hs') (ExtTreeSet.mem_toList.mp hs)
    · rcases List.mem_append.mp hs with hs | hs
      · exact hapart.left s (ExtTreeSet.mem_toList.mp hs)
      · exact hapart.right s (ExtTreeSet.mem_toList.mp hs)
  have hall := hconsistent.subperm hunion
  have hgiven : ∀ b, IsInput statements merged.covered b ∨ b ∈ child.publicInputs →
      b ∈ (merged.covered.toList ++ child.coveredShards.toList).flatMap (inputsOf statements) := by
    intro b hb
    rw [List.flatMap_append, List.mem_append, ← mem_inputsOf, ← mem_inputsOf, ← hchild.inputs]
    exact hb
  have hput : (merged.covered.toList.flatMap (outputsOf statements) ++ child.publicOutputs).Perm
      ((merged.covered.toList ++ child.coveredShards.toList).flatMap (outputsOf statements)) := by
    rw [List.flatMap_append]
    exact List.Perm.append_left _ hchild.outputs
  obtain ⟨publicInputs, hinputs⟩ : ∃ target, child.publicInputs.foldlM (mergePublicInput node) merged.publicInputs = .ok target :=
    inputs_total h.inputs fun b b' hb hb' => hall.inputs b (hgiven b hb) b' (hgiven b' hb')
  obtain ⟨⟨publicOutputs, publicOutputNames⟩, houtputs⟩ : ∃ target,
      child.publicOutputs.foldlM (mergePublicOutput node) (merged.publicOutputs, merged.publicOutputNames) = .ok target := by
    refine outputs_total h.outputs (fun b hb => ?_) ((hput.pairwise_iff fun hdisjoint => hdisjoint.symm).mpr hall.outputs)
    obtain ⟨s, -, hb⟩ := List.mem_flatMap.mp (hchild.outputs.mem_iff.mp hb)
    exact names_of_outputsOf hb
  obtain ⟨total, htotal, hwithin⟩ :=
    (hall.affordable.subperm (merged_subperm (h.inputs.merge hinputs) hgiven (h.outputs.merge houtputs) hput)).total
  refine ⟨⟨covered, frontier, closed, publicInputs, publicOutputs, publicOutputNames,
    child.leaves.toList.foldl (fun leaves entry => leaves.insert entry.1 entry.2) merged.leaves⟩, ?_, hmem⟩
  refine bind_eq_ok.mpr ⟨covered, hcovered, bind_eq_ok.mpr ⟨closed, hclosed, bind_eq_ok.mpr ⟨frontier, hfrontier,
    bind_eq_ok.mpr ⟨publicInputs, hinputs, bind_eq_ok.mpr ⟨(publicOutputs, publicOutputNames), houtputs, ?_⟩⟩⟩⟩⟩
  dsimp only [Merged.bindings]
  rw [htotal]
  exact bind_eq_ok.mpr ⟨(), refuse_ok.mpr (not_not.mpr hwithin), rfl⟩

include hconsistent in
/-- The edges inside are closed without a contradiction. -/
theorem closeAll_total {covered : ExtTreeSet UInt64} {frontier : Frontier} {closed : ExtTreeSet String}
    (h : Flow statements index covered frontier closed) :
    ∃ state, frontier.keys.foldlM (closeCovered node index covered) (frontier, closed) = .ok state := by
  have hstep : ∀ done id rest state, frontier.keys = done ++ id :: rest →
      (∀ other ∉ done, state.1[other]? = frontier[other]? ∧ (other ∈ state.2 ↔ other ∈ closed)) →
        ∃ state', closeCovered node index covered state id = .ok state' ∧
          ∀ other ∉ done ++ [id], state'.1[other]? = frontier[other]? ∧ (other ∈ state'.2 ↔ other ∈ closed) := by
    intro done id rest state hkeys hstate
    have hnodup := ExtTreeMap.nodup_keys (t := frontier)
    rw [hkeys] at hnodup
    have hnew : id ∉ done := fun hmem => (List.nodup_append'.mp hnodup).2.2 hmem (.head _)
    obtain ⟨hget, hclosed⟩ := hstate id hnew
    have hkey : id ∈ frontier := ExtTreeMap.mem_keys.mp (hkeys ▸ List.mem_append_right _ (.head _))
    obtain ⟨entry, hentry⟩ := Option.isSome_iff_exists.mp (ExtTreeMap.mem_iff_isSome_getElem?.mp hkey)
    have hopened := hentry
    rw [h.frontier, opened] at hopened
    obtain ⟨edge, hedge, hopened⟩ := Option.bind_eq_some_iff.mp hopened
    split_ifs at hopened with hmeets
    have hkeep : ∀ other ∉ done ++ [id], id ≠ other ∧ other ∉ done := by
      intro other hother
      rw [List.mem_append, List.mem_singleton, not_or] at hother
      exact ⟨Ne.symm hother.2, hother.1⟩
    unfold closeCovered
    rw [hedge]
    dsimp only
    split
    · next hinside =>
      obtain ⟨commitment, hproduced, hconsumed⟩ := hconsistent.edges id edge hedge
      have hsides : entry = ⟨some commitment, some commitment⟩ := by
        rw [← Option.some.inj hopened, sides, if_pos hinside.1, if_pos hinside.2, hproduced, hconsumed]
      rw [if_neg (hclosed.not.mpr hmeets.1), hget, hentry, hsides]
      refine ⟨_, bind_eq_ok.mpr ⟨(), refuse_ok.mpr (by simp), bind_eq_ok.mpr ⟨(), refuse_ok.mpr (by simp), rfl⟩⟩,
        fun other hother => ?_⟩
      obtain ⟨hne, hnot⟩ := hkeep other hother
      obtain ⟨hold, hmem⟩ := hstate other hnot
      dsimp only
      rw [ExtTreeMap.getElem?_erase, if_neg fun hcmp => hne (compare_eq_iff_eq.mp hcmp), ExtTreeSet.mem_insert,
        Std.LawfulEqCmp.compare_eq_iff_eq, or_iff_right hne]
      exact ⟨hold, hmem⟩
    · exact ⟨state, rfl, fun other hother => hstate other (hkeep other hother).2⟩
  have hstart : ∀ other ∉ ([] : List String), (frontier, closed).1[other]? = frontier[other]? ∧
      (other ∈ (frontier, closed).2 ↔ other ∈ closed) := fun other _ => ⟨rfl, .rfl⟩
  obtain ⟨state, hok, -⟩ := foldlM_total (I := fun done (state : Frontier × ExtTreeSet String) =>
    ∀ other ∉ done, state.1[other]? = frontier[other]? ∧ (other ∈ state.2 ↔ other ∈ closed)) hstep hstart
  exact ⟨state, hok⟩

/-- The shards of the children, which have none in common. -/
structure Family (shards : List UInt64) (children : List VerifiedClaim) : Prop where
  known : ∀ child ∈ children, ∀ s ∈ child.coveredShards, s ∈ shards
  apart : children.Pairwise fun child child' => ∀ s ∈ child'.coveredShards, s ∉ child.coveredShards

include hconsistent in
theorem mergeChildren_total {children : List VerifiedClaim} (hchildren : ∀ child ∈ children, Sound statements index L child)
    (hfamily : Family shards children) (h : SoundMerged statements index L merged) (hmerged : ∀ s ∈ merged.covered, s ∈ shards)
    (hapart : ∀ child ∈ children, ∀ s ∈ child.coveredShards, s ∉ merged.covered) :
    ∃ merged', children.foldlM (mergeChild node) merged = .ok merged' ∧ SoundMerged statements index L merged' ∧
      ∀ s, s ∈ merged'.covered ↔ s ∈ merged.covered ∨ ∃ child ∈ children, s ∈ child.coveredShards := by
  induction children generalizing merged with
  | nil => exact ⟨merged, rfl, h, by simp⟩
  | cons child children ih =>
      obtain ⟨hchild, hchildren⟩ := List.forall_mem_cons.mp hchildren
      obtain ⟨hknown, hknowns⟩ := List.forall_mem_cons.mp hfamily.known
      obtain ⟨hothers, hpairwise⟩ := List.pairwise_cons.mp hfamily.apart
      obtain ⟨hdisjoint, hdisjoints⟩ := List.forall_mem_cons.mp hapart
      obtain ⟨between, hstep, hcovered⟩ : ∃ between, mergeChild node merged child = .ok between ∧
          ∀ s, s ∈ between.covered ↔ s ∈ merged.covered ∨ s ∈ child.coveredShards :=
        mergeChild_total hconsistent h hchild ⟨hmerged, hknown, hdisjoint⟩
      obtain ⟨merged', hfold, hsound, hall⟩ := ih hchildren ⟨hknowns, hpairwise⟩ (h.add hchild hstep).1
        (fun s hs => ((hcovered s).mp hs).elim (hmerged s) (hknown s)) fun other hother s hs hmem =>
          ((hcovered s).mp hmem).elim (hdisjoints other hother s hs) (hothers other hother s hs)
      refine ⟨merged', ?_, hsound, fun s => ?_⟩
      · rw [List.foldlM_cons]
        exact bind_eq_ok.mpr ⟨between, hstep, hfold⟩
      · rw [hall, hcovered]
        simp only [List.mem_cons, exists_eq_or_imp, or_assoc]

/-- The claim is of the run. -/
structure Origin (plan : AggregationPlan) (partition : PartitionPlan) (run : RunIdentity) (blake3 : Blake3) (claim : VerifiedClaim) :
    Prop where
  aggregationDigest : claim.aggregationDigest = plan.digest
  runIdentityDigest : claim.runIdentityDigest = run.canonicalDigest blake3
  partitionDigest : claim.partitionDigest = partition.digest
  modelDigest : claim.modelDigest = run.modelGraphDigest
  weightsDigest : claim.weightsDigest = run.weightsDigest
  proofFlavor : claim.proofFlavor = run.proofFlavor

include hconsistent in
/-- Children of one run without a shard in common are merged. -/
theorem merge_total {plan : AggregationPlan} {partition : PartitionPlan} {run : RunIdentity} {node : AggregationNode}
    {children : List VerifiedClaim} (hids : children.map (·.id) = node.children) (hplan : node.planDigest = plan.digest)
    (horigin : ∀ child ∈ children, Origin plan partition run blake3 child)
    (hchildren : ∀ child ∈ children, Sound statements index L child) (hfamily : Family shards children) :
    ∃ claim, mergeVerifiedClaimsIndexed blake3 index node children = .ok claim ∧ claim.id = node.id ∧
      Origin plan partition run blake3 claim ∧ ∀ s, s ∈ claim.coveredShards ↔ ∃ child ∈ children, s ∈ child.coveredShards := by
  obtain ⟨first, rest, rfl⟩ : ∃ first rest, children = first :: rest := by
    apply List.exists_cons_of_ne_nil
    rintro rfl
    have harity := node.arity.1
    rw [← hids] at harity
    cases harity
  have hfold : ∃ merged, (first :: rest).foldlM (mergeChild node.id) ⟨∅, ∅, ∅, ∅, ∅, ∅, ∅⟩ = .ok merged ∧
      SoundMerged statements index L merged ∧ ∀ s, s ∈ merged.covered ↔ s ∈ (∅ : ExtTreeSet UInt64) ∨
        ∃ child ∈ first :: rest, s ∈ child.coveredShards :=
    mergeChildren_total hconsistent hchildren hfamily soundMerged_empty (fun s hs => absurd hs (by simp)) fun _ _ s _ hs =>
      absurd hs (by simp)
  obtain ⟨merged, hmerged, hsound, hcovered⟩ := hfold
  obtain ⟨⟨frontier, closed⟩, hclosed⟩ : ∃ state,
      merged.frontier.keys.foldlM (closeCovered node.id index merged.covered) (merged.frontier, merged.closed) = .ok state :=
    closeAll_total hconsistent hsound.flow
  have hfirst := horigin first (.head _)
  have hsame : ¬(first.aggregationDigest ≠ node.planDigest ∨ ∃ claim ∈ first :: rest, OtherOrigin first claim) := by
    rintro (hne | ⟨claim, hclaim, hother⟩)
    · exact hne (hfirst.aggregationDigest.trans hplan.symm)
    · have hthis := horigin claim hclaim
      simp only [OtherOrigin, hthis.aggregationDigest, hthis.runIdentityDigest, hthis.partitionDigest, hthis.modelDigest,
        hthis.weightsDigest, hthis.proofFlavor, hfirst.aggregationDigest, hfirst.runIdentityDigest, hfirst.partitionDigest,
        hfirst.modelDigest, hfirst.weightsDigest, hfirst.proofFlavor, ne_eq, not_true_eq_false, or_self] at hother
  refine ⟨_, bind_eq_ok.mpr ⟨(), refuse_ok.mpr (not_not.mpr hids), bind_eq_ok.mpr ⟨(), refuse_ok.mpr hsame,
    bind_eq_ok.mpr ⟨merged, hmerged, bind_eq_ok.mpr ⟨(frontier, closed), hclosed, rfl⟩⟩⟩⟩, rfl,
    ⟨hfirst.aggregationDigest, hfirst.runIdentityDigest, hfirst.partitionDigest, hfirst.modelDigest, hfirst.weightsDigest,
      hfirst.proofFlavor⟩, fun s => ?_⟩
  change s ∈ merged.covered ↔ _
  rw [hcovered, or_iff_right (by simp)]

end Merge

end Children

section Tree

variable {blake3 : Blake3} {statements : UInt64 → Option LeafStatement} {index : DagIndex} {L : UInt64 → LeafStatement → Prop}
  {plan : AggregationPlan} {partition : PartitionPlan} {run : RunIdentity} {shards : List UInt64}
  {claims claims' : ExtTreeMap AggregationChildId VerifiedClaim}

theorem takeClaims_get {C : Type} {claims rest : ExtTreeMap AggregationChildId C} {node : AggregationChildId}
    {ids : List AggregationChildId} {children : List C} (h : takeClaims node ids claims = .ok (children, rest)) :
    ids.Nodup ∧ List.Forall₂ (fun id c => claims[id]? = some c) ids children ∧
      ∀ id, rest[id]? = if id ∈ ids then none else claims[id]? := by
  induction ids generalizing claims children with
  | nil =>
      cases h
      exact ⟨.nil, .nil, fun id => by rw [if_neg List.not_mem_nil]⟩
  | cons first ids ih =>
      rw [takeClaims] at h
      split at h
      · cases h
      next claim hget =>
      obtain ⟨⟨others, _⟩, hrest, h⟩ := bind_eq_ok.mp h
      cases h
      obtain ⟨hnodup, hothers, hget'⟩ := ih hrest
      have herase : ∀ id : AggregationChildId, (claims.erase first)[id]? = if first = id then none else claims[id]? := by
        intro id
        rw [ExtTreeMap.getElem?_erase]
        simp only [compare_eq_iff_eq]
      have hnot : first ∉ ids := by
        intro hmem
        obtain ⟨c, -, hc⟩ := Satisfaction.forall₂_exists_of_mem hothers hmem
        rw [herase, if_pos rfl] at hc
        cases hc
      refine ⟨List.nodup_cons.mpr ⟨hnot, hnodup⟩, .cons hget (hothers.imp fun id c hc => ?_), fun id => ?_⟩
      · rw [herase] at hc
        split_ifs at hc
        exact hc
      · rw [hget', herase]
        by_cases heq : first = id
        · subst heq
          rw [if_pos rfl, if_pos (List.mem_cons_self), ite_self]
        · simp only [List.mem_cons, if_neg heq, Ne.symm heq, false_or]

variable (blake3 statements index L plan partition run shards) in
/-- The claims have all shards, each once, and come from this run. -/
structure Divided (claims : ExtTreeMap AggregationChildId VerifiedClaim) : Prop where
  keyed : ∀ (id : AggregationChildId) claim, claims[id]? = some claim → claim.id = id
  accounted : Holds (Accounted statements index L) claims
  origin : Holds (Origin plan partition run blake3) claims
  known : Holds (fun claim => ∀ s ∈ claim.coveredShards, s ∈ shards) claims
  apart : ∀ (id id' : AggregationChildId) claim claim', claims[id]? = some claim → claims[id']? = some claim' → id ≠ id' →
    ∀ s ∈ claim'.coveredShards, s ∉ claim.coveredShards
  all : ∀ s ∈ shards, ∃ (id : AggregationChildId) (claim : VerifiedClaim), claims[id]? = some claim ∧ s ∈ claim.coveredShards

/-- A merge that has a claim at hand for the case of a failure. -/
def orElseClaim {C : Type} (other : C) (merge : AggregationNode → List C → Except AggregationError C) (node : AggregationNode)
    (children : List C) : Except AggregationError C :=
  match merge node children with
  | .ok claim => .ok claim
  | .error _ => .ok other

/-- A node whose children are there merges them. -/
theorem Divided.mergeNode (hconsistent : Consistent statements index shards)
    (h : Divided blake3 statements index L plan partition run shards claims) {node : AggregationNode} (hplan : node.planDigest = plan.digest)
    (hfresh : node.id ∉ claims) {other : VerifiedClaim}
    (hok : mergeNode (orElseClaim other (mergeVerifiedClaimsIndexed blake3 index)) claims node = .ok claims') :
    mergeNode (mergeVerifiedClaimsIndexed blake3 index) claims node = .ok claims' ∧
      Divided blake3 statements index L plan partition run shards claims' := by
  obtain ⟨⟨children, rest⟩, htake, hok⟩ := bind_eq_ok.mp hok
  obtain ⟨hnodup, hchildren, hrest⟩ := takeClaims_get htake
  have hmem : ∀ child ∈ children, ∃ id ∈ node.children, claims[id]? = some child := by
    intro child hchild
    obtain ⟨id, hid, hget⟩ := Satisfaction.forall₂_exists_of_mem hchildren.flip hchild
    exact ⟨id, hid, hget⟩
  have hids : children.map (·.id) = node.children := by
    rw [← List.forall₂_eq_eq_eq, List.forall₂_map_left_iff]
    exact hchildren.flip.imp fun _ _ hget => h.keyed _ _ hget
  have hfamily : Family shards children := by
    refine ⟨fun child hchild => ?_, ?_⟩
    · obtain ⟨id, -, hget⟩ := hmem child hchild
      exact h.known id child hget
    · exact forall₂_pairwise hchildren hnodup fun id id' child child' hne hget hget' => h.apart id id' child child' hget hget' hne
  obtain ⟨claim, hclaim, hid, horigin, hcovered⟩ : ∃ claim, mergeVerifiedClaimsIndexed blake3 index node children = .ok claim ∧
      claim.id = node.id ∧ Origin plan partition run blake3 claim ∧
        ∀ s, s ∈ claim.coveredShards ↔ ∃ child ∈ children, s ∈ child.coveredShards :=
    merge_total hconsistent hids hplan (fun child hchild => (hmem child hchild).elim fun id hid => h.origin id child hid.2)
      (fun child hchild => (hmem child hchild).elim fun id hid => (h.accounted id child hid.2).sound) hfamily
  have haccounted := merge_accounted (fun child hchild => (hmem child hchild).elim fun id hid => h.accounted id child hid.2) hclaim
  have hsame : orElseClaim other (mergeVerifiedClaimsIndexed blake3 index) node children = .ok claim := by
    rw [orElseClaim, hclaim]
  dsimp only at hok
  rw [hsame] at hok
  cases hok
  have hget : ∀ (id : AggregationChildId) c, (rest.insert node.id claim)[id]? = some c →
      (id = node.id ∧ c = claim) ∨ (id ≠ node.id ∧ id ∉ node.children ∧ claims[id]? = some c) := by
    intro id c hc
    rw [ExtTreeMap.getElem?_insert] at hc
    split_ifs at hc with heq
    · cases hc
      exact .inl ⟨(compare_eq_iff_eq.mp heq).symm, rfl⟩
    · rw [hrest] at hc
      split_ifs at hc with hin
      exact .inr ⟨fun hsame => heq (compare_eq_iff_eq.mpr hsame.symm), hin, hc⟩
  have hold : ∀ (id : AggregationChildId) c, id ∉ node.children → claims[id]? = some c → ∀ s ∈ c.coveredShards, s ∉ claim.coveredShards := by
    intro id c hnot hc s hs hmerged
    obtain ⟨child, hchild, hs'⟩ := (hcovered s).mp hmerged
    obtain ⟨id', hid', hget'⟩ := hmem child hchild
    exact h.apart id' id child c hget' hc (fun heq => hnot (heq ▸ hid')) s hs hs'
  refine ⟨bind_eq_ok.mpr ⟨(children, rest), htake, bind_eq_ok.mpr ⟨claim, hclaim, rfl⟩⟩, ?_, ?_, ?_, ?_, ?_, fun s hs => ?_⟩
  · intro id c hc
    rcases hget id c hc with ⟨rfl, rfl⟩ | ⟨-, -, hc⟩
    · exact hid
    · exact h.keyed id c hc
  · intro id c hc
    rcases hget id c hc with ⟨-, rfl⟩ | ⟨-, -, hc⟩
    · exact haccounted
    · exact h.accounted id c hc
  · intro id c hc
    rcases hget id c hc with ⟨-, rfl⟩ | ⟨-, -, hc⟩
    · exact horigin
    · exact h.origin id c hc
  · intro id c hc s hs
    rcases hget id c hc with ⟨-, rfl⟩ | ⟨-, -, hc⟩
    · obtain ⟨child, hchild, hs⟩ := (hcovered s).mp hs
      exact hfamily.known child hchild s hs
    · exact h.known id c hc s hs
  · intro id id' c c' hc hc' hne s hs
    rcases hget id c hc with ⟨rfl, rfl⟩ | ⟨-, hnot, hclaims⟩ <;> rcases hget id' c' hc' with ⟨rfl, rfl⟩ | ⟨-, hnot', hclaims'⟩
    · exact absurd rfl hne
    · exact hold id' c' hnot' hclaims' s hs
    · exact fun hs' => hold id c hnot hclaims s hs' hs
    · exact h.apart id id' c c' hclaims hclaims' hne s hs
  · obtain ⟨id, c, hc, hin⟩ := h.all s hs
    by_cases hchild : id ∈ node.children
    · obtain ⟨child, hmemchild, hget'⟩ := Satisfaction.forall₂_exists_of_mem hchildren hchild
      cases hc.symm.trans hget'
      exact ⟨node.id, claim, ExtTreeMap.getElem?_insert_self, (hcovered s).mpr ⟨c, hmemchild, hin⟩⟩
    · refine ⟨id, c, ?_, hin⟩
      have hne : node.id ≠ id := by
        rintro rfl
        exact hfresh (ExtTreeMap.mem_iff_isSome_getElem?.mpr (by rw [hc]; rfl))
      rw [ExtTreeMap.getElem?_insert, if_neg fun heq => hne (compare_eq_iff_eq.mp heq), hrest, if_neg hchild]
      exact hc

theorem mergeLevels_flatten {C : Type} (merge : AggregationNode → List C → Except AggregationError C)
    (levels : List (List AggregationNode)) (claims : ExtTreeMap AggregationChildId C) :
    mergeLevels merge levels claims = levels.flatten.foldlM (AggregationTree.mergeNode merge) claims := by
  rw [mergeLevels]
  induction levels generalizing claims with
  | nil => rfl
  | cons level levels ih =>
      rw [List.foldlM_cons, List.flatten_cons, List.foldlM_append]
      exact congrArg _ (funext ih)

/-- The nodes of a plan, from the leaves to the root. -/
structure Ordered (n : ℕ) (plan : AggregationPlan) : Prop where
  distinct : (plan.levels.flatten.map (·.id)).Nodup
  nodes : ∀ node ∈ plan.levels.flatten, (∃ level index, node.id = .node level index) ∧ node.planDigest = plan.digest
  merges : ∀ {C : Type} (merge : AggregationNode → List C → Except AggregationError C) claims, AggregationTree.LeafClaims n claims →
    Settled merge plan.levels.flatten (mergeLevels merge plan.levels claims) (· = plan.root)

/-- The claims of the leaves are merged into one claim about all of them. -/
theorem merged_total (hconsistent : Consistent statements index shards) {n : ℕ} (hordered : Ordered n plan)
    (h : Divided blake3 statements index L plan partition run shards claims) (hleaves : AggregationTree.LeafClaims n claims)
    (other : VerifiedClaim) : ∃ claims', mergeLevels (mergeVerifiedClaimsIndexed blake3 index) plan.levels claims = .ok claims' ∧
      Divided blake3 statements index L plan partition run shards claims' ∧ ∀ id, id ∈ claims' ↔ id = plan.root := by
  have hsettled := hordered.merges (orElseClaim other (mergeVerifiedClaimsIndexed blake3 index)) claims hleaves
  obtain ⟨claims', hok, hroot⟩ := hsettled.resolve_right fun ⟨node, _, children, e, hfail, _⟩ => by
    unfold orElseClaim at hfail
    split at hfail <;> cases hfail
  rw [mergeLevels_flatten] at hok
  have hfollows := foldlM_follows (I := fun done claims => Divided blake3 statements index L plan partition run shards claims ∧
      ∀ id ∈ claims, (∃ s, id = .leaf s) ∨ id ∈ done.map (·.id))
    (g := AggregationTree.mergeNode (mergeVerifiedClaimsIndexed blake3 index)) ?_ ⟨h, fun id hid => ?_⟩ hok
  · rw [mergeLevels_flatten]
    exact ⟨claims', hfollows.1, hfollows.2.1, hroot⟩
  · rintro done node rest claims claims' hsplit ⟨hdivided, hkeys⟩ hstep
    have hmem : node ∈ plan.levels.flatten := hsplit ▸ List.mem_append_right _ (.head _)
    obtain ⟨⟨level, index, hid⟩, hplan⟩ := hordered.nodes node hmem
    have hfresh : node.id ∉ claims := by
      intro hin
      rcases hkeys _ hin with ⟨s, hleaf⟩ | hdone
      · cases hid.symm.trans hleaf
      · have hdistinct := hordered.distinct
        rw [hsplit, List.map_append, List.nodup_append'] at hdistinct
        exact hdistinct.2.2 hdone (.head _)
    obtain ⟨hstep', hdivided'⟩ := hdivided.mergeNode hconsistent hplan hfresh hstep
    refine ⟨hstep', hdivided', fun id hin => ?_⟩
    obtain ⟨⟨children, remaining⟩, htake, hstep⟩ := bind_eq_ok.mp hstep'
    obtain ⟨claim, -, hstep⟩ := bind_eq_ok.mp hstep
    cases hstep
    rw [ExtTreeMap.mem_insert, compare_eq_iff_eq] at hin
    rw [List.map_append, List.mem_append]
    rcases hin with rfl | hin
    · exact .inr (.inr (.head _))
    · have hold : id ∈ claims := by
        rw [ExtTreeMap.mem_iff_isSome_getElem?, (takeClaims_get htake).2.2] at hin
        split_ifs at hin with hchild
        · cases hin
        · exact ExtTreeMap.mem_iff_isSome_getElem?.mpr hin
      exact (hkeys id hold).imp_right .inl
  · obtain ⟨s, -, heq⟩ := (hleaves id).mp hid
    exact .inl ⟨_, heq⟩

end Tree

end Zkie.MergeAccepts
