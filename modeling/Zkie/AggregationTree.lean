import Zkie.AggregationDigest
import Zkie.Partition
import Mathlib.Data.Prod.Lex

namespace Zkie.AggregationTree

open AggregationDigest Checked
open BuildDag (Edge)
open LineText (decimal)
open Zkie.Partition (PartitionPlan PartitionRequest plan plan_ok)
open GraphCompiler (CompiledProgram)
open PoseidonBoundary (Blake3)
open RunDatabase (Digest32)

section Model

inductive AggregationError where
  | invalidFanIn (fanIn : UInt8)
  | invalidPartition
  | resourceLimit
  | invalidLeafExpectations
  | unsupportedModelVisibility
  | leafIdentityMismatch (shard : UInt64)
  | missingBoundary (edge : String) (shard : UInt64)
  | extraBoundary (edge : String) (shard : UInt64)
  | endpointMismatch (edge : String) (shard : UInt64)
  | boundaryCommitmentMismatch (node edge : String)
  | duplicateEdgeClosure (node edge : String)
  | childOrderMismatch (node : String)
  | overlappingShard (node : String) (shard : UInt64)
  | missingLeaf (shard : UInt64)
  | openInternalEdge (edge : String)
  | aggregationIdentityMismatch
  | recursiveProofUnavailable
  | malformedStatement (shard : UInt64)
  | malformedManifest
  deriving DecidableEq, Repr

def minFanIn : UInt8 := 2

def maxFanIn : UInt8 := 16

def maxLeaves : ℕ := 2 ^ 16

def maxEdges : ℕ := 2 ^ 20

def maxLevels : ℕ := 64

/-- The expectations of the leaves stand under their shards. -/
structure LeafExpectationSet where
  partitionDigest : Digest32
  leaves : Std.ExtTreeMap UInt64 LeafExpectation
  digest : Digest32
  keyed : ∀ entry ∈ leaves.toList, entry.2.shardId = entry.1

structure AggregationPlan where
  partitionDigest : Digest32
  fanIn : NonZeroU8
  leafCount : ℕ
  levels : List (List AggregationNode)
  root : AggregationChildId
  leafExpectations : Option LeafExpectationSet
  digest : Digest32

/-- A part of a list that is cut into parts of at most `fan` elements. -/
structure Chunk (α : Type) (fan : ℕ) where
  elements : List α
  ne : elements ≠ []
  le : elements.length ≤ fan

theorem take_length_le {α : Type} {fan : ℕ} (hfan : 0 < fan) (x : α) (xs : List α) :
    (x :: xs.take (fan - 1)).length ≤ fan := by
  rw [List.length_cons, List.length_take]
  omega

theorem drop_length_lt {α : Type} (fan : ℕ) (x : α) (xs : List α) : (xs.drop (fan - 1)).length < (x :: xs).length := by
  rw [List.length_drop, List.length_cons]
  omega

def chunks {α : Type} (fan : ℕ) (hfan : 0 < fan) : List α → List (Chunk α fan)
  | [] => []
  | x :: xs =>
    ⟨x :: xs.take (fan - 1), List.cons_ne_nil _ _, take_length_le hfan x xs⟩ ::
      chunks fan hfan (xs.drop (fan - 1))
termination_by xs => xs.length
decreasing_by exact drop_length_lt fan x xs

/-- `u32::try_from`. -/
def toU32 (n : ℕ) : Except AggregationError UInt32 :=
  if n < 2 ^ 32 then .ok (UInt32.ofNat n) else .error .resourceLimit

section Levels

variable {fan : ℕ} (hfan : 2 ≤ fan ∧ fan ≤ 16)

/-- A single child goes on to the next level as it is, several ones get a node. -/
def pushChunk (levelIndex : UInt32) (made : List AggregationNode × List AggregationChildId)
    (chunk : Chunk AggregationChildId fan) : Except AggregationError (List AggregationNode × List AggregationChildId) :=
  if h : chunk.elements.length = 1 then .ok (made.1, made.2 ++ [chunk.elements.head chunk.ne])
  else do
    let index ← toU32 made.1.length
    let id := .node levelIndex index
    have harity : 2 ≤ chunk.elements.length ∧ chunk.elements.length ≤ 16 := by
      have hpos := List.length_pos_iff.mpr chunk.ne
      have hle := chunk.le
      omega
    return (made.1 ++ [⟨⟨id, chunk.elements, harity⟩, ⟨Vector.replicate 32 0⟩⟩], made.2 ++ [id])

def groupLevel (levelIndex : UInt32) (current : List AggregationChildId) :
    Except AggregationError (List AggregationNode × List AggregationChildId) :=
  (chunks fan (by omega) current).foldlM (pushChunk hfan levelIndex) ([], [])

/-- The levels are built until one child is left. -/
def planLevels (levels : List (List AggregationNode)) (current : List AggregationChildId) :
    Except AggregationError (List (List AggregationNode) × List AggregationChildId) :=
  if 1 < current.length then
    if maxLevels ≤ levels.length then .error .resourceLimit
    else do
      let levelIndex ← toU32 levels.length
      let (level, next) ← groupLevel hfan levelIndex current
      if _h : level = [] ∨ current.length ≤ next.length then throw .invalidPartition
      else planLevels (levels ++ [level]) next
  else .ok (levels, current)
termination_by current.length
decreasing_by omega

end Levels

/-- The digest of the plan is written into its nodes. -/
def sealNodes (digest : Digest32) (levels : List (List AggregationNode)) : List (List AggregationNode) :=
  levels.map (·.map fun node => { node with planDigest := digest })

theorem fan_bounds {fan : UInt8} (h : minFanIn ≤ fan ∧ fan ≤ maxFanIn) : 2 ≤ fan.toNat ∧ fan.toNat ≤ 16 := h

def planAggregation (blake3 : Blake3) (partition : PartitionPlan) (fanIn : NonZeroU8) : Except AggregationError AggregationPlan :=
  if hfan : minFanIn ≤ fanIn.get ∧ fanIn.get ≤ maxFanIn then
    if partition.shards = [] ∨ maxLeaves < partition.shards.length ∨ maxEdges < partition.dag.edges.length ∨
        (∃ entry ∈ partition.shards.zipIdx, entry.1.id ≠ entry.2) ∨
        ∃ edge ∈ partition.dag.edges, edge.consumer ≤ edge.producer ∨ partition.shards.length ≤ edge.consumer then
      .error .invalidPartition
    else do
      let current := partition.shards.map fun shard => .leaf (UInt64.ofNat shard.id)
      let (levels, current) ← planLevels (fan_bounds hfan) [] current
      match current.getLast? with
      | none => throw .invalidPartition
      | some root =>
        let digest := aggregationPlanDigest blake3 partition.digest fanIn partition.shards.length levels root none
        return ⟨partition.digest, fanIn, partition.shards.length, sealNodes digest levels, root, none, digest⟩
  else .error (.invalidFanIn fanIn.get)

/-- Leaves come before nodes. -/
def childKey : AggregationChildId → ℕ ×ₗ ℕ ×ₗ ℕ
  | .leaf shard => toLex (0, toLex (shard.toNat, 0))
  | .node level index => toLex (1, toLex (level.toNat, index.toNat))

theorem childKey_injective : Function.Injective childKey := by
  intro a b h
  cases a <;> cases b <;> simp_all [childKey, UInt64.toNat_inj, UInt32.toNat_inj]

instance : LinearOrder AggregationChildId := LinearOrder.lift' childKey childKey_injective

instance : Std.TransOrd AggregationChildId := inferInstance

def childName : AggregationChildId → String
  | .leaf shard => s!"leaf-{shard.toNat}"
  | .node level index => s!"node-{level.toNat}-{index.toNat}"

section Merging

variable {C : Type} (merge : AggregationNode → List C → Except AggregationError C)

/-- The claims of the children are taken out of the map. -/
def takeClaims (node : AggregationChildId) :
    List AggregationChildId → Std.ExtTreeMap AggregationChildId C → Except AggregationError (List C × Std.ExtTreeMap AggregationChildId C)
  | [], claims => .ok ([], claims)
  | id :: ids, claims =>
    match claims[id]? with
    | none => .error (.childOrderMismatch (childName node))
    | some claim => do
      let (children, claims) ← takeClaims node ids (claims.erase id)
      return (claim :: children, claims)

def mergeNode (claims : Std.ExtTreeMap AggregationChildId C) (node : AggregationNode) :
    Except AggregationError (Std.ExtTreeMap AggregationChildId C) := do
  let (children, claims) ← takeClaims node.id node.children claims
  let claim ← merge node children
  return claims.insert node.id claim

/-- The levels in their order, and the nodes of each level in theirs. -/
def mergeLevels (levels : List (List AggregationNode)) (claims : Std.ExtTreeMap AggregationChildId C) :
    Except AggregationError (Std.ExtTreeMap AggregationChildId C) :=
  levels.foldlM (fun claims level => level.foldlM (mergeNode merge) claims) claims

end Merging

end Model

section Chunks

variable {α : Type} {fan : ℕ}

theorem chunks_flatten (hfan : 0 < fan) (xs : List α) : (chunks fan hfan xs).flatMap (·.elements) = xs := by
  induction xs using chunks.induct fan with
  | case1 => rw [chunks, List.flatMap_nil]
  | case2 x xs ih => rw [chunks, List.flatMap_cons, ih, List.cons_append, List.take_append_drop]

theorem chunks_length (hfan : 2 ≤ fan) (xs : List α) : 2 * (chunks fan (by omega) xs).length ≤ xs.length + 1 := by
  induction xs using chunks.induct fan with
  | case1 => rw [chunks, List.length_nil, List.length_nil]; omega
  | case2 x xs ih =>
      rw [chunks, List.length_cons, List.length_cons]
      rw [List.length_drop] at ih
      cases xs with
      | nil => simp only [List.length_nil, Nat.zero_sub, List.drop_nil] at ih ⊢; omega
      | cons y xs => simp only [List.length_cons] at ih ⊢; omega

end Chunks

section Grouping

variable {fan : ℕ} {hfan : 2 ≤ fan ∧ fan ≤ 16} {k : UInt32}

/-- A chunk of one child is this child, of the others the level has a node. -/
def Promotes (level : List AggregationNode) (chunk : Chunk AggregationChildId fan) (id : AggregationChildId) : Prop :=
  chunk.elements = [id] ∨ ∃ node ∈ level, node.id = id ∧ node.children = chunk.elements

/-- The nodes of level `k` that are made of chunks, and the ids that go on to the next level. -/
structure Grouped (k : UInt32) (done : List (Chunk AggregationChildId fan)) (level : List AggregationNode)
    (next : List AggregationChildId) : Prop where
  ids : level.map (·.id) = (List.range level.length).map fun i => .node k (UInt32.ofNat i)
  children : (level.map (·.children)).Sublist (done.map (·.elements))
  arity : ∀ node ∈ level, node.children.length ≤ fan
  promotes : List.Forall₂ (Promotes level) done next
  listed : ∀ node ∈ level, node.id ∈ next

theorem Grouped.single {done : List (Chunk AggregationChildId fan)} {level : List AggregationNode}
    {next : List AggregationChildId} (h : Grouped k done level next) {chunk : Chunk AggregationChildId fan}
    (hone : chunk.elements.length = 1) : Grouped k (done ++ [chunk]) level (next ++ [chunk.elements.head chunk.ne]) where
  ids := h.ids
  children := by
    rw [List.map_append]
    exact h.children.trans (List.sublist_append_left _ _)
  arity := h.arity
  promotes := by
    apply List.rel_append h.promotes
    obtain ⟨id, hid⟩ := List.length_eq_one_iff.mp hone
    simp [Promotes, hid]
  listed node hnode := List.mem_append_left _ (h.listed node hnode)

theorem Promotes.mono {level level' : List AggregationNode} {chunk : Chunk AggregationChildId fan} {id : AggregationChildId}
    (h : Promotes level chunk id) (hsub : level ⊆ level') : Promotes level' chunk id := by
  rcases h with h | ⟨node, hnode, hid, hchildren⟩
  · exact .inl h
  · exact .inr ⟨node, hsub hnode, hid, hchildren⟩

theorem Grouped.push {done : List (Chunk AggregationChildId fan)} {level : List AggregationNode}
    {next : List AggregationChildId} (h : Grouped k done level next) {chunk : Chunk AggregationChildId fan}
    {node : AggregationNode} (hid : node.id = .node k (UInt32.ofNat level.length)) (hchildren : node.children = chunk.elements) :
    Grouped k (done ++ [chunk]) (level ++ [node]) (next ++ [node.id]) where
  ids := by
    rw [List.map_append, h.ids, List.length_append, List.length_singleton, List.range_succ, List.map_append, List.map_singleton,
      List.map_singleton, hid]
  children := by
    rw [List.map_append, List.map_append]
    apply h.children.append
    simp [hchildren]
  arity := by
    intro other hother
    rcases List.mem_append.mp hother with hother | hother
    · exact h.arity other hother
    · rw [List.mem_singleton.mp hother, hchildren]
      exact chunk.le
  promotes := by
    apply List.rel_append (h.promotes.imp fun _ _ h => h.mono (List.subset_append_left _ _))
    rw [List.forall₂_cons]
    exact ⟨.inr ⟨node, List.mem_append_right _ (List.mem_singleton_self _), rfl, hchildren⟩, .nil⟩
  listed other hother := by
    rcases List.mem_append.mp hother with hother | hother
    · exact List.mem_append_left _ (h.listed other hother)
    · rw [List.mem_singleton.mp hother]
      exact List.mem_append_right _ (List.mem_singleton_self _)

theorem pushChunk_ok {level : List AggregationNode} {next : List AggregationChildId} {done : List (Chunk AggregationChildId fan)}
    (h : Grouped k done level next) (hfew : done.length < 2 ^ 32) (chunk : Chunk AggregationChildId fan) :
    ∃ made, pushChunk hfan k (level, next) chunk = .ok made ∧ Grouped k (done ++ [chunk]) made.1 made.2 := by
  unfold pushChunk
  by_cases hone : chunk.elements.length = 1
  · rw [dif_pos hone]
    exact ⟨_, rfl, h.single hone⟩
  · have hlength : level.length < 2 ^ 32 := by
      have hle := h.children.length_le
      rw [List.length_map, List.length_map] at hle
      omega
    rw [dif_neg hone, toU32, if_pos hlength]
    exact ⟨_, rfl, h.push rfl rfl⟩

theorem groupLevel_ok {current : List AggregationChildId} (hfew : current.length < 2 ^ 32) :
    ∃ level next, groupLevel hfan k current = .ok (level, next) ∧ Grouped k (chunks fan (by omega) current) level next := by
  have hchunks := chunks_length hfan.1 current
  have hstart : Grouped k ([] : List (Chunk AggregationChildId fan)) [] [] := ⟨rfl, .refl _, by simp, .nil, by simp⟩
  have hstep : ∀ done chunk rest (made : List AggregationNode × List AggregationChildId),
      chunks fan (by omega) current = done ++ chunk :: rest → Grouped k done made.1 made.2 →
        ∃ made', pushChunk hfan k made chunk = .ok made' ∧ Grouped k (done ++ [chunk]) made'.1 made'.2 := by
    intro done chunk rest made hsplit hdone
    apply pushChunk_ok hdone
    have hlength := congrArg List.length hsplit
    rw [List.length_append, List.length_cons] at hlength
    omega
  obtain ⟨made, hmade, hgrouped⟩ :=
    foldlM_total (I := fun done (made : List AggregationNode × List AggregationChildId) => Grouped k done made.1 made.2)
      hstep (b := ([], [])) hstart
  exact ⟨made.1, made.2, hmade, hgrouped⟩

theorem forall₂_pairwise {α β : Type} {R : α → β → Prop} {S : α → α → Prop} {T : β → β → Prop} {xs : List α} {ys : List β}
    (h : List.Forall₂ R xs ys) (hxs : xs.Pairwise S) (hT : ∀ x x' y y', S x x' → R x y → R x' y' → T y y') : ys.Pairwise T := by
  induction h with
  | nil => exact .nil
  | @cons x y xs ys hxy hrest ih =>
      obtain ⟨hx, hxs⟩ := List.pairwise_cons.mp hxs
      apply List.pairwise_cons.mpr
      refine ⟨fun y' hy' => ?_, ih hxs⟩
      obtain ⟨i, hi, rfl⟩ := List.getElem_of_mem hy'
      have hi' : i < xs.length := hrest.length_eq ▸ hi
      exact hT x xs[i] y ys[i] (hx _ (List.getElem_mem hi')) hxy (hrest.get hi' hi)

section Complete

variable (hfan) {current next : List AggregationChildId} {level : List AggregationNode}

/-- Two chunks with a common element are one. -/
theorem chunks_eq_of_mem (hnodup : current.Nodup) (hfan : 0 < fan) {c d : Chunk AggregationChildId fan}
    (hc : c ∈ chunks fan hfan current) (hd : d ∈ chunks fan hfan current) {id : AggregationChildId} (hidc : id ∈ c.elements)
    (hidd : id ∈ d.elements) : c.elements = d.elements := by
  rw [← chunks_flatten hfan current, List.nodup_flatMap] at hnodup
  by_contra hne
  have hsymm : Std.Symm (Function.onFun List.Disjoint fun chunk : Chunk AggregationChildId fan => chunk.elements) :=
    ⟨fun _ _ h => h.symm⟩
  exact hnodup.2.forall hc hd (fun heq => hne (congrArg _ heq)) hidc hidd

theorem mem_current_iff (hfan : 0 < fan) {id : AggregationChildId} :
    id ∈ current ↔ ∃ chunk ∈ chunks fan hfan current, id ∈ chunk.elements := by
  conv_lhs => rw [← chunks_flatten hfan current]
  exact List.mem_flatMap

theorem Grouped.children_mem {done : List (Chunk AggregationChildId fan)} (h : Grouped k done level next) {node : AggregationNode}
    (hnode : node ∈ level) : ∃ chunk ∈ done, chunk.elements = node.children :=
  List.mem_map.mp (h.children.subset (List.mem_map_of_mem hnode))

theorem Grouped.children_nodup (h : Grouped k (chunks fan (by omega) current) level next) (hnodup : current.Nodup) :
    (level.flatMap (·.children)).Nodup := by
  have hsub : (level.flatMap (·.children)).Sublist current := by
    rw [List.flatMap_def]
    conv_rhs => rw [← chunks_flatten (show 0 < fan by omega) current, List.flatMap_def]
    exact h.children.flatten
  exact hsub.nodup hnodup

theorem Grouped.children_current (h : Grouped k (chunks fan (by omega) current) level next) {node : AggregationNode}
    (hnode : node ∈ level) {id : AggregationChildId} (hid : id ∈ node.children) : id ∈ current := by
  obtain ⟨chunk, hchunk, heq⟩ := h.children_mem hnode
  exact (mem_current_iff _).mpr ⟨chunk, hchunk, heq ▸ hid⟩

theorem Grouped.ids_nodup {done : List (Chunk AggregationChildId fan)} (h : Grouped k done level next)
    (hfew : level.length < 2 ^ 32) : (level.map (·.id)).Nodup := by
  rw [h.ids]
  apply List.Nodup.map_on _ List.nodup_range
  intro i hi j hj heq
  have hi := List.mem_range.mp hi
  have hj := List.mem_range.mp hj
  injection heq with _ heq
  have heq := congrArg UInt32.toNat heq
  rwa [UInt32.toNat_ofNat_of_lt' (hi.trans hfew), UInt32.toNat_ofNat_of_lt' (hj.trans hfew)] at heq

/-- What goes on: the children that no node took, and the nodes. -/
theorem Grouped.mem_next_iff (h : Grouped k (chunks fan (by omega) current) level next) (hnodup : current.Nodup)
    {id : AggregationChildId} :
    id ∈ next ↔ (id ∈ current ∧ id ∉ level.flatMap (·.children)) ∨ id ∈ level.map (·.id) := by
  constructor
  · intro hid
    obtain ⟨i, hi, rfl⟩ := List.getElem_of_mem hid
    have hi' : i < (chunks fan (by omega) current).length := h.promotes.length_eq ▸ hi
    rcases h.promotes.get hi' hi with hsingle | ⟨node, hnode, heq, -⟩
    · simp only [List.get_eq_getElem] at hsingle
      have hmem := List.getElem_mem hi'
      have hin : next[i] ∈ (chunks fan (by omega) current)[i].elements := hsingle ▸ List.mem_singleton_self _
      refine .inl ⟨(mem_current_iff _).mpr ⟨_, hmem, hin⟩, fun htaken => ?_⟩
      obtain ⟨node, hnode, hchild⟩ := List.mem_flatMap.mp htaken
      obtain ⟨chunk, hchunk, heq⟩ := h.children_mem hnode
      have hsame := chunks_eq_of_mem hnodup _ hmem hchunk hin (heq ▸ hchild)
      have htwo := node.arity.1
      rw [← heq, ← hsame, hsingle] at htwo
      exact absurd htwo (by simp)
    · exact .inr (List.mem_map.mpr ⟨node, hnode, heq⟩)
  · rintro (⟨hcurrent, hnot⟩ | hid)
    · obtain ⟨chunk, hchunk, hin⟩ := (mem_current_iff (show 0 < fan by omega)).mp hcurrent
      obtain ⟨i, hi, rfl⟩ := List.getElem_of_mem hchunk
      have hi' : i < next.length := h.promotes.length_eq ▸ hi
      rcases h.promotes.get hi hi' with hsingle | ⟨node, hnode, -, heq⟩
      · simp only [List.get_eq_getElem] at hsingle
        rw [hsingle, List.mem_singleton] at hin
        exact hin ▸ List.getElem_mem hi'
      · simp only [List.get_eq_getElem] at heq
        exact absurd (List.mem_flatMap.mpr ⟨node, hnode, heq ▸ hin⟩) hnot
    · obtain ⟨node, hnode, rfl⟩ := List.mem_map.mp hid
      exact h.listed node hnode

theorem Grouped.next_nodup (h : Grouped k (chunks fan (by omega) current) level next) (hnodup : current.Nodup)
    (hids : (level.map (·.id)).Nodup) (hfresh : ∀ id ∈ current, id ∉ level.map (·.id)) : next.Nodup := by
  have hdisjoint : (chunks fan (by omega) current).Pairwise fun c d =>
      (∀ id ∈ c.elements, id ∈ current) ∧ (∀ id ∈ d.elements, id ∈ current) ∧ c.elements.Disjoint d.elements := by
    have hpairwise := hnodup
    rw [← chunks_flatten (show 0 < fan by omega) current, List.nodup_flatMap] at hpairwise
    apply hpairwise.2.imp_of_mem
    intro c d hc hd hcd
    exact ⟨fun id hid => (mem_current_iff _).mpr ⟨c, hc, hid⟩, fun id hid => (mem_current_iff _).mpr ⟨d, hd, hid⟩, hcd⟩
  apply forall₂_pairwise h.promotes hdisjoint
  rintro c d x y ⟨hc, hd, hcd⟩ (hx | ⟨n, hn, rfl, hnc⟩) (hy | ⟨m, hm, rfl, hmd⟩) heq
  · exact hcd (hx ▸ List.mem_singleton_self _) (hy ▸ heq ▸ List.mem_singleton_self _)
  · exact hfresh x (hc x (hx ▸ List.mem_singleton_self _)) (heq ▸ List.mem_map_of_mem hm)
  · exact hfresh y (hd y (hy ▸ List.mem_singleton_self _)) (heq ▸ List.mem_map_of_mem hn)
  · have hnm : n = m := List.inj_on_of_nodup_map hids hn hm heq
    obtain ⟨id, hid⟩ := List.exists_mem_of_ne_nil _ c.ne
    exact hcd hid (by rw [← hmd, ← hnm, hnc]; exact hid)

theorem Grouped.length_lt (h : Grouped k (chunks fan (by omega) current) level next) :
    2 * next.length ≤ current.length + 1 := by
  rw [← h.promotes.length_eq]
  exact chunks_length hfan.1 current

/-- Without a node every chunk would go on as it is. -/
theorem Grouped.level_ne_nil (h : Grouped k (chunks fan (by omega) current) level next)
    (hmany : 1 < current.length) : level ≠ [] := by
  rintro rfl
  have hsame : ∀ {done : List (Chunk AggregationChildId fan)} {ids : List AggregationChildId},
      List.Forall₂ (Promotes []) done ids → (done.flatMap (·.elements)).length = ids.length := by
    intro done ids hpromotes
    induction hpromotes with
    | nil => rfl
    | @cons chunk id done ids hchunk hrest ih =>
        rcases hchunk with hsingle | ⟨node, hnode, -⟩
        · rw [List.flatMap_cons, List.length_append, ih, hsingle, List.length_singleton, List.length_cons, Nat.add_comm]
        · cases hnode
  have hlength := hsame h.promotes
  rw [chunks_flatten] at hlength
  have hle := length_lt hfan h
  omega

end Complete

end Grouping

section Leaves

/-- The leaves below a child, from left to right, where the nodes are given from the last to the first. -/
def leavesUnder : List AggregationNode → AggregationChildId → List UInt64
  | [], .leaf shard => [shard]
  | [], .node _ _ => []
  | node :: earlier, id => if node.id = id then node.children.flatMap (leavesUnder earlier) else leavesUnder earlier id

theorem leavesUnder_append {new earlier : List AggregationNode} {id : AggregationChildId} (h : id ∉ new.map (·.id)) :
    leavesUnder (new ++ earlier) id = leavesUnder earlier id := by
  induction new with
  | nil => rfl
  | cons node new ih =>
      rw [List.map_cons, List.mem_cons, not_or] at h
      rw [List.cons_append, leavesUnder, if_neg (Ne.symm h.1), ih h.2]

theorem leavesUnder_node {new earlier : List AggregationNode} {node : AggregationNode} (hnodup : (new.map (·.id)).Nodup)
    (hnode : node ∈ new) (hchildren : ∀ child ∈ node.children, child ∉ new.map (·.id)) :
    leavesUnder (new ++ earlier) node.id = node.children.flatMap (leavesUnder earlier) := by
  induction new with
  | nil => cases hnode
  | cons other new ih =>
      rw [List.map_cons, List.nodup_cons] at hnodup
      have htail : ∀ child ∈ node.children, child ∉ new.map (·.id) := fun child hchild htail =>
        hchildren child hchild (List.mem_cons_of_mem _ htail)
      rw [List.cons_append, leavesUnder]
      rcases List.mem_cons.mp hnode with rfl | hnode
      · rw [if_pos rfl]
        exact List.flatMap_congr fun child hchild => leavesUnder_append (htail child hchild)
      · have hne : other.id ≠ node.id := fun heq => hnodup.1 (heq ▸ List.mem_map_of_mem hnode)
        rw [if_neg hne]
        exact ih hnodup.2 hnode htail

variable {fan : ℕ} {n : ℕ} {levels : List (List AggregationNode)} {level : List AggregationNode} {earlier : List AggregationNode}

/-- A level leaves the leaves below as they are. -/
theorem leavesUnder_promotes {done : List (Chunk AggregationChildId fan)} {next : List AggregationChildId}
    (h : List.Forall₂ (Promotes level) done next) (hnodup : (level.map (·.id)).Nodup)
    (hfresh : ∀ id ∈ done.flatMap (·.elements), id ∉ level.map (·.id)) :
    next.flatMap (leavesUnder (level.reverse ++ earlier)) = (done.flatMap (·.elements)).flatMap (leavesUnder earlier) := by
  have hreverse : ∀ id, id ∉ level.map (·.id) → id ∉ level.reverse.map (·.id) := fun id hid => by
    rwa [List.map_reverse, List.mem_reverse]
  have hnodup' : (level.reverse.map (·.id)).Nodup := by rwa [List.map_reverse, List.nodup_reverse]
  induction h with
  | nil => rfl
  | @cons chunk id done next hchunk hrest ih =>
      have hdone : ∀ id ∈ done.flatMap (·.elements), id ∉ level.map (·.id) := fun id hid =>
        hfresh id (by rw [List.flatMap_cons]; exact List.mem_append_right _ hid)
      have helements : ∀ id ∈ chunk.elements, id ∉ level.map (·.id) := fun id hid =>
        hfresh id (by rw [List.flatMap_cons]; exact List.mem_append_left _ hid)
      rw [List.flatMap_cons, List.flatMap_cons, List.flatMap_append, ih hdone]
      congr 1
      rcases hchunk with hsingle | ⟨node, hnode, rfl, heq⟩
      · rw [hsingle, List.flatMap_singleton]
        exact leavesUnder_append (hreverse id (helements id (hsingle ▸ List.mem_singleton_self _)))
      · rw [← heq]
        exact leavesUnder_node hnodup' (List.mem_reverse.mpr hnode) fun child hchild =>
          hreverse child (helements child (heq ▸ hchild))

/-- A leaf of the partition, or a node of the levels. -/
def Known (n : ℕ) (levels : List (List AggregationNode)) (id : AggregationChildId) : Prop :=
  (∃ shard < n, id = .leaf (UInt64.ofNat shard)) ∨ ∃ level ∈ levels, id ∈ level.map (·.id)

theorem Known.mono {id : AggregationChildId} (h : Known n levels id) (level : List AggregationNode) :
    Known n (levels ++ [level]) id := by
  rcases h with h | ⟨other, hother, hid⟩
  · exact .inl h
  · exact .inr ⟨other, List.mem_append_left _ hother, hid⟩

end Leaves

section Merging

variable {C : Type} {merge : AggregationNode → List C → Except AggregationError C}
  {claims : Std.ExtTreeMap AggregationChildId C}

/-- The result is a map with the keys of `P`, unless a merge has failed. -/
def Settled (merge : AggregationNode → List C → Except AggregationError C) (nodes : List AggregationNode)
    (r : Except AggregationError (Std.ExtTreeMap AggregationChildId C)) (P : AggregationChildId → Prop) : Prop :=
  (∃ claims, r = .ok claims ∧ ∀ id, id ∈ claims ↔ P id) ∨
    ∃ node ∈ nodes, ∃ children e, merge node children = .error e ∧ r = .error e

theorem takeClaims_ok (node : AggregationChildId) {ids : List AggregationChildId} (hnodup : ids.Nodup)
    (hmem : ∀ id ∈ ids, id ∈ claims) :
    ∃ children rest, takeClaims node ids claims = .ok (children, rest) ∧ ∀ id, id ∈ rest ↔ id ∈ claims ∧ id ∉ ids := by
  induction ids generalizing claims with
  | nil => exact ⟨[], claims, rfl, by simp⟩
  | cons id ids ih =>
      obtain ⟨hid, hids⟩ := List.forall_mem_cons.mp hmem
      obtain ⟨hnot, hnodup⟩ := List.nodup_cons.mp hnodup
      have hrest : ∀ other ∈ ids, other ∈ claims.erase id := by
        intro other hother
        rw [Std.ExtTreeMap.mem_erase, ne_eq, compare_eq_iff_eq]
        exact ⟨fun heq => hnot (heq ▸ hother), hids other hother⟩
      obtain ⟨children, rest, htake, hkeys⟩ := ih hnodup hrest
      obtain ⟨claim, hclaim⟩ := Option.isSome_iff_exists.mp (Std.ExtTreeMap.mem_iff_isSome_getElem?.mp hid)
      refine ⟨claim :: children, rest, ?_, fun other => ?_⟩
      · simp only [takeClaims, hclaim, htake]
        rfl
      · rw [hkeys, Std.ExtTreeMap.mem_erase, ne_eq, compare_eq_iff_eq, List.mem_cons, not_or, eq_comm]
        tauto

theorem mergeNode_of_take {node : AggregationNode} {children : List C} {rest : Std.ExtTreeMap AggregationChildId C}
    (h : takeClaims node.id node.children claims = .ok (children, rest)) :
    mergeNode merge claims node = merge node children >>= fun claim => .ok (rest.insert node.id claim) := by
  rw [mergeNode, h]
  rfl

theorem mergeNodes_settled (merge : AggregationNode → List C → Except AggregationError C)
    (claims : Std.ExtTreeMap AggregationChildId C) {nodes : List AggregationNode} (hids : (nodes.map (·.id)).Nodup)
    (hchildren : (nodes.flatMap (·.children)).Nodup) (hmem : ∀ id ∈ nodes.flatMap (·.children), id ∈ claims)
    (hfresh : ∀ id ∈ nodes.map (·.id), id ∉ claims) :
    Settled merge nodes (nodes.foldlM (mergeNode merge) claims) fun id =>
      (id ∈ claims ∧ id ∉ nodes.flatMap (·.children)) ∨ id ∈ nodes.map (·.id) := by
  induction nodes generalizing claims with
  | nil => exact .inl ⟨claims, rfl, by simp⟩
  | cons node nodes ih =>
      rw [List.flatMap_cons] at hchildren hmem
      rw [List.map_cons] at hids hfresh
      obtain ⟨hnodup, hnodups, hdisjoint⟩ := List.nodup_append'.mp hchildren
      obtain ⟨hid, hids⟩ := List.nodup_cons.mp hids
      obtain ⟨hnew, hnews⟩ := List.forall_mem_cons.mp hfresh
      obtain ⟨children, rest, htake, hkeys⟩ := takeClaims_ok node.id hnodup
        fun id hid => hmem id (List.mem_append_left _ hid)
      rw [List.foldlM_cons]
      cases hmerge : merge node children with
      | error e =>
          refine .inr ⟨node, List.mem_cons_self, children, e, hmerge, ?_⟩
          rw [mergeNode_of_take htake, hmerge]
          rfl
      | ok claim =>
          have hstep : mergeNode merge claims node = .ok (rest.insert node.id claim) := by
            rw [mergeNode_of_take htake, hmerge]
            rfl
          have hkeys' : ∀ id, id ∈ rest.insert node.id claim ↔ id = node.id ∨ (id ∈ claims ∧ id ∉ node.children) := fun id => by
            rw [Std.ExtTreeMap.mem_insert, compare_eq_iff_eq, hkeys, eq_comm]
          have hmem' : ∀ id ∈ nodes.flatMap (·.children), id ∈ rest.insert node.id claim := fun id hid =>
            (hkeys' id).mpr (.inr ⟨hmem id (List.mem_append_right _ hid), fun hin => hdisjoint hin hid⟩)
          have hfresh' : ∀ id ∈ nodes.map (·.id), id ∉ rest.insert node.id claim := by
            intro id hin hold
            rcases (hkeys' id).mp hold with rfl | hold
            · exact hid hin
            · exact hnews id hin hold.1
          rw [hstep]
          rcases ih _ hids hnodups hmem' hfresh' with ⟨claims', hrun, hall⟩ | ⟨other, hother, hfail⟩
          · refine .inl ⟨claims', hrun, fun id => ?_⟩
            rw [hall]
            simp only [hkeys', List.flatMap_cons, List.map_cons, List.mem_append, List.mem_cons]
            by_cases heq : id = node.id
            · subst heq
              have hnot : node.id ∉ nodes.flatMap (·.children) := fun hin => hnew (hmem _ (List.mem_append_right _ hin))
              simp [hnot]
            · simp only [heq, false_or, not_or]
              tauto
          · exact .inr ⟨other, List.mem_cons_of_mem _ hother, hfail⟩

theorem mergeLevels_concat (levels : List (List AggregationNode)) (level : List AggregationNode) :
    mergeLevels merge (levels ++ [level]) claims =
      mergeLevels merge levels claims >>= fun claims => level.foldlM (mergeNode merge) claims := by
  rw [mergeLevels, List.foldlM_append]
  simp only [List.foldlM_cons, List.foldlM_nil, bind_pure]
  rfl

end Merging

section Build

variable {fan n : ℕ} (hfan : 2 ≤ fan ∧ fan ≤ 16)

/-- The claims that the merging of a plan starts with. -/
def LeafClaims {C : Type} (n : ℕ) (claims : Std.ExtTreeMap AggregationChildId C) : Prop :=
  ∀ id, id ∈ claims ↔ ∃ shard < n, id = .leaf (UInt64.ofNat shard)

/-- The loop has built `levels`, and `current` is left. -/
structure Built (n fan : ℕ) (levels : List (List AggregationNode)) (current : List AggregationChildId) : Prop where
  nonempty : 0 < current.length
  count : levels.length ≤ 16
  few : current.length ≤ 2 ^ (16 - levels.length)
  nodup : current.Nodup
  known : ∀ id ∈ current, Known n levels id
  old : ∀ level ∈ levels, ∀ node ∈ level, ∃ i < levels.length, ∃ j, node.id = .node (UInt32.ofNat i) j
  distinct : (levels.flatten.map (·.id)).Nodup
  arity : ∀ level ∈ levels, ∀ node ∈ level, 2 ≤ node.children.length ∧ node.children.length ≤ fan
  earlier : ∀ i level, levels[i]? = some level → ∀ node ∈ level, ∀ child ∈ node.children, Known n (levels.take i) child
  leaves : current.flatMap (leavesUnder levels.flatten.reverse) = (List.range n).map UInt64.ofNat
  merges : ∀ {C : Type} (merge : AggregationNode → List C → Except AggregationError C) claims, LeafClaims n claims →
    Settled merge levels.flatten (mergeLevels merge levels claims) (· ∈ current)

theorem built_start (hpos : 0 < n) (hn : n ≤ maxLeaves) :
    Built n fan [] ((List.range n).map fun shard => .leaf (UInt64.ofNat shard)) where
  nonempty := by simpa using hpos
  count := by simp
  few := by
    rw [List.length_map, List.length_range]
    exact hn
  nodup := by
    apply List.Nodup.map_on _ List.nodup_range
    intro i hi j hj heq
    injection heq with heq
    have heq := congrArg UInt64.toNat heq
    have hlt : ∀ i ∈ List.range n, i < 2 ^ 64 := fun i hi =>
      (List.mem_range.mp hi).trans_le (hn.trans (by decide))
    rwa [UInt64.toNat_ofNat_of_lt' (hlt i hi), UInt64.toNat_ofNat_of_lt' (hlt j hj)] at heq
  known id hid := by
    obtain ⟨shard, hshard, rfl⟩ := List.mem_map.mp hid
    exact .inl ⟨shard, List.mem_range.mp hshard, rfl⟩
  old _ hlevel := by cases hlevel
  distinct := by simp
  arity _ hlevel := by cases hlevel
  earlier i level hlevel := by simp at hlevel
  leaves := by
    rw [List.flatMap_map]
    simp only [List.flatten_nil, List.reverse_nil, leavesUnder]
    exact List.map_eq_flatMap.symm
  merges merge claims hclaims := by
    refine .inl ⟨claims, rfl, fun id => ?_⟩
    simp only [hclaims id, List.mem_map, List.mem_range, eq_comm]

variable {levels : List (List AggregationNode)} {current next : List AggregationChildId} {level : List AggregationNode}

theorem Built.fresh (h : Built n fan levels current) {done : List (Chunk AggregationChildId fan)}
    (hgrouped : Grouped (UInt32.ofNat levels.length) done level next) {id : AggregationChildId} (hid : Known n levels id) :
    id ∉ level.map (·.id) := by
  intro hin
  rw [hgrouped.ids] at hin
  obtain ⟨j, -, hnode⟩ := List.mem_map.mp hin
  have hcount := h.count
  rcases hid with ⟨shard, -, rfl⟩ | ⟨other, hother, hid⟩
  · cases hnode
  · obtain ⟨node, hmem, rfl⟩ := List.mem_map.mp hid
    obtain ⟨i, hi, j', heq⟩ := h.old other hother node hmem
    rw [heq] at hnode
    injection hnode with hlevel
    have hsmall : ∀ m ≤ 16, (UInt32.ofNat m).toNat = m := fun m hm =>
      UInt32.toNat_ofNat_of_lt' (lt_of_le_of_lt hm (by decide))
    have hlevel := congrArg UInt32.toNat hlevel
    rw [hsmall _ hcount, hsmall i (by omega)] at hlevel
    omega

theorem Built.step (h : Built n fan levels current) (hmany : 1 < current.length)
    (hgrouped : Grouped (UInt32.ofNat levels.length) (chunks fan (by omega) current) level next) :
    Built n fan (levels ++ [level]) next := by
  have hshrink := hgrouped.length_lt hfan
  have hcount : levels.length < 16 := by
    by_contra hge
    have hfew := h.few
    rw [Nat.sub_eq_zero_of_le (not_lt.mp hge), pow_zero] at hfew
    omega
  have hlevel : level.length < 2 ^ 32 := by
    have hle := hgrouped.children.length_le
    rw [List.length_map, List.length_map] at hle
    have hchunks := chunks_length hfan.1 current
    have hfew := h.few.trans (Nat.pow_le_pow_right (by omega) (Nat.sub_le 16 levels.length))
    omega
  have hids := hgrouped.ids_nodup hlevel
  have hfresh : ∀ id ∈ current, id ∉ level.map (·.id) := fun id hid => h.fresh hgrouped (h.known id hid)
  have hnext : ∀ {id}, id ∈ next ↔ (id ∈ current ∧ id ∉ level.flatMap (·.children)) ∨ id ∈ level.map (·.id) :=
    hgrouped.mem_next_iff hfan h.nodup
  constructor
  case nonempty =>
    rw [← hgrouped.promotes.length_eq]
    cases hcurrent : current with
    | nil => simp [hcurrent] at hmany
    | cons id rest => rw [chunks, List.length_cons]; omega
  case count => rw [List.length_append, List.length_singleton]; omega
  case few =>
    have hfew := h.few
    rw [List.length_append, List.length_singleton]
    have hpow : 2 ^ (16 - levels.length) = 2 * 2 ^ (16 - (levels.length + 1)) := by
      rw [← pow_succ']
      congr 1
      omega
    omega
  case nodup => exact hgrouped.next_nodup hfan h.nodup hids hfresh
  case known =>
    intro id hid
    rcases hnext.mp hid with ⟨hold, -⟩ | hnew
    · exact (h.known id hold).mono level
    · exact .inr ⟨level, List.mem_append_right _ (List.mem_singleton_self _), hnew⟩
  case old =>
    intro other hother node hnode
    rw [List.length_append, List.length_singleton]
    rcases List.mem_append.mp hother with hother | hother
    · obtain ⟨i, hi, j, heq⟩ := h.old other hother node hnode
      exact ⟨i, Nat.lt_succ_of_lt hi, j, heq⟩
    · rw [List.mem_singleton.mp hother] at hnode
      have hid := List.mem_map_of_mem (f := (·.id)) hnode
      rw [hgrouped.ids] at hid
      obtain ⟨j, -, heq⟩ := List.mem_map.mp hid
      exact ⟨levels.length, Nat.lt_succ_self _, _, heq.symm⟩
  case distinct =>
    rw [List.flatten_append, List.map_append, List.flatten_singleton]
    refine List.nodup_append'.mpr ⟨h.distinct, hids, fun id hold hnew => ?_⟩
    obtain ⟨node, hnode, rfl⟩ := List.mem_map.mp hold
    obtain ⟨other, hother, hmem⟩ := List.mem_flatten.mp hnode
    exact h.fresh hgrouped (.inr ⟨other, hother, List.mem_map_of_mem hmem⟩) hnew
  case arity =>
    intro other hother node hnode
    rcases List.mem_append.mp hother with hother | hother
    · exact h.arity other hother node hnode
    · rw [List.mem_singleton.mp hother] at hnode
      exact ⟨node.arity.1, hgrouped.arity node hnode⟩
  case earlier =>
    intro i other hother node hnode child hchild
    by_cases hi : i < levels.length
    · rw [List.getElem?_append_left hi] at hother
      rw [List.take_append_of_le_length hi.le]
      exact h.earlier i other hother node hnode child hchild
    · rw [List.getElem?_append_right (not_lt.mp hi), List.getElem?_singleton] at hother
      split at hother
      · cases hother
        rw [List.take_append_of_le_length (by omega), List.take_of_length_le (not_lt.mp hi)]
        exact h.known child (hgrouped.children_current hfan hnode hchild)
      · cases hother
  case leaves =>
    rw [List.flatten_append, List.flatten_singleton, List.reverse_append, leavesUnder_promotes hgrouped.promotes hids,
      chunks_flatten, h.leaves]
    rw [chunks_flatten]
    exact hfresh
  case merges =>
    intro C merge claims hclaims
    rw [mergeLevels_concat]
    rcases h.merges merge claims hclaims with ⟨claims', hrun, hkeys⟩ | ⟨node, hnode, children, e, hfail, hrun⟩
    · rw [hrun]
      have hsettled := mergeNodes_settled merge claims' hids (hgrouped.children_nodup hfan h.nodup)
        (fun id hid => by
          obtain ⟨node, hnode, hchild⟩ := List.mem_flatMap.mp hid
          exact (hkeys id).mpr (hgrouped.children_current hfan hnode hchild))
        (fun id hid hold => hfresh id ((hkeys id).mp hold) hid)
      rcases hsettled with ⟨claims'', hrun', hkeys'⟩ | ⟨node, hnode, hfail⟩
      · refine .inl ⟨claims'', hrun', fun id => ?_⟩
        simp only [hkeys', hnext, hkeys]
      · exact .inr ⟨node, by simp [hnode], hfail⟩
    · refine .inr ⟨node, by simp only [List.flatten_append, List.mem_append]; exact .inl hnode, children, e, hfail, ?_⟩
      rw [hrun]
      rfl

/-- Every pass leaves at most half of the children, so sixteen passes are enough. -/
theorem planLevels_ok (h : Built n fan levels current) :
    ∃ levels' root, planLevels hfan levels current = .ok (levels', [root]) ∧ Built n fan levels' [root] := by
  induction hlength : current.length using Nat.strong_induction_on generalizing levels current with
  | _ length ih =>
      rw [planLevels]
      by_cases hmany : 1 < current.length
      · have hcount := h.count
        have hlevels : ¬maxLevels ≤ levels.length := by
          rw [maxLevels]
          omega
        have hindex : toU32 levels.length = .ok (UInt32.ofNat levels.length) := if_pos (by omega)
        have hfew : current.length < 2 ^ 32 := by
          have hle := h.few.trans (Nat.pow_le_pow_right (by omega) (Nat.sub_le 16 levels.length))
          omega
        obtain ⟨level, next, hgroup, hgrouped⟩ : ∃ level next, groupLevel hfan (UInt32.ofNat levels.length) current =
            .ok (level, next) ∧ Grouped _ (chunks fan (by omega) current) level next := groupLevel_ok hfew
        have hshrink := hgrouped.length_lt hfan
        have hgoes : ¬(level = [] ∨ current.length ≤ next.length) := by
          rintro (hnil | hle)
          · exact hgrouped.level_ne_nil hfan hmany hnil
          · omega
        obtain ⟨levels', root, hrest, hbuilt⟩ := ih next.length (by omega) (h.step hfan hmany hgrouped) rfl
        refine ⟨levels', root, ?_, hbuilt⟩
        rw [if_pos hmany, if_neg hlevels, hindex]
        change (groupLevel hfan (UInt32.ofNat levels.length) current >>= _) = _
        rw [hgroup]
        change dite _ _ _ = _
        rw [dif_neg hgoes]
        exact hrest
      · have hone : current.length = 1 := by
          have hpos := h.nonempty
          omega
        obtain ⟨root, rfl⟩ := List.length_eq_one_iff.mp hone
        exact ⟨levels, root, if_neg hmany, h⟩

end Build

section Plan

/-- What the planner of the tree checks of a partition. -/
structure ValidPartition (partition : PartitionPlan) : Prop where
  nonempty : partition.shards ≠ []
  leaves : partition.shards.length ≤ maxLeaves
  edgeCount : partition.dag.edges.length ≤ maxEdges
  ids : partition.shards.map (·.id) = List.range partition.shards.length
  edges : ∀ edge ∈ partition.dag.edges, edge.producer < edge.consumer ∧ edge.consumer < partition.shards.length

/-- A tree over the leaves below `n` whose nodes have up to `fan` children. -/
structure WellFormed (n fan : ℕ) (levels : List (List AggregationNode)) (root : AggregationChildId) : Prop where
  leaves : leavesUnder levels.flatten.reverse root = (List.range n).map UInt64.ofNat
  arity : ∀ level ∈ levels, ∀ node ∈ level, 2 ≤ node.children.length ∧ node.children.length ≤ fan
  earlier : ∀ i level, levels[i]? = some level → ∀ node ∈ level, ∀ child ∈ node.children, Known n (levels.take i) child
  distinct : (levels.flatten.map (·.id)).Nodup
  merges : ∀ {C : Type} (merge : AggregationNode → List C → Except AggregationError C) claims, LeafClaims n claims →
    Settled merge levels.flatten (mergeLevels merge levels claims) (· = root)

theorem Built.wellFormed {n fan : ℕ} {levels : List (List AggregationNode)} {root : AggregationChildId}
    (h : Built n fan levels [root]) : WellFormed n fan levels root where
  leaves := by simpa using h.leaves
  arity := h.arity
  earlier := h.earlier
  distinct := h.distinct
  merges merge claims hclaims := by simpa using h.merges merge claims hclaims

section Seal

variable {n : ℕ} (digest : Digest32) {levels : List (List AggregationNode)}

def sealNode (node : AggregationNode) : AggregationNode := { node with planDigest := digest }

theorem flatten_sealNodes : (sealNodes digest levels).flatten = levels.flatten.map (sealNode digest) :=
  List.map_flatten.symm

theorem leavesUnder_seal (nodes : List AggregationNode) : leavesUnder (nodes.map (sealNode digest)) = leavesUnder nodes := by
  induction nodes with
  | nil => rfl
  | cons node nodes ih =>
      funext id
      rw [List.map_cons, leavesUnder, leavesUnder, ih]
      rfl

theorem ids_seal (nodes : List AggregationNode) : (nodes.map (sealNode digest)).map (·.id) = nodes.map (·.id) := by
  rw [List.map_map]
  rfl

theorem known_seal {id : AggregationChildId} (h : Known n levels id) : Known n (sealNodes digest levels) id := by
  rcases h with h | ⟨level, hlevel, hid⟩
  · exact .inl h
  · exact .inr ⟨_, List.mem_map_of_mem hlevel, (ids_seal digest level).symm ▸ hid⟩

theorem mergeLevels_seal {C : Type} (merge : AggregationNode → List C → Except AggregationError C)
    (claims : Std.ExtTreeMap AggregationChildId C) :
    mergeLevels merge (sealNodes digest levels) claims = mergeLevels (fun node => merge (sealNode digest node)) levels claims := by
  rw [mergeLevels, mergeLevels, sealNodes, List.foldlM_map]
  congr 1
  funext claims level
  rw [List.foldlM_map]
  rfl

theorem WellFormed.seal {fan : ℕ} {root : AggregationChildId} (h : WellFormed n fan levels root) :
    WellFormed n fan (sealNodes digest levels) root where
  leaves := by rw [flatten_sealNodes, ← List.map_reverse, leavesUnder_seal, h.leaves]
  arity level hlevel node hnode := by
    obtain ⟨old, hold, rfl⟩ := List.mem_map.mp hlevel
    obtain ⟨inner, hinner, rfl⟩ := List.mem_map.mp hnode
    exact h.arity old hold inner hinner
  earlier i level hlevel node hnode child hchild := by
    rw [sealNodes, List.getElem?_map, Option.map_eq_some_iff] at hlevel
    obtain ⟨old, hold, rfl⟩ := hlevel
    obtain ⟨inner, hinner, rfl⟩ := List.mem_map.mp hnode
    have hknown := known_seal digest (h.earlier i old hold inner hinner child hchild)
    rwa [sealNodes, List.map_take] at hknown
  distinct := by
    rw [flatten_sealNodes, ids_seal]
    exact h.distinct
  merges merge claims hclaims := by
    rw [mergeLevels_seal, flatten_sealNodes]
    rcases h.merges (fun node => merge (sealNode digest node)) claims hclaims with hok | ⟨node, hnode, hfail⟩
    · exact .inl hok
    · exact .inr ⟨_, List.mem_map_of_mem hnode, hfail⟩

end Seal

theorem ValidPartition.accepted {partition : PartitionPlan} (h : ValidPartition partition) :
    ¬(partition.shards = [] ∨ maxLeaves < partition.shards.length ∨ maxEdges < partition.dag.edges.length ∨
      (∃ entry ∈ partition.shards.zipIdx, entry.1.id ≠ entry.2) ∨
      ∃ edge ∈ partition.dag.edges, edge.consumer ≤ edge.producer ∨ partition.shards.length ≤ edge.consumer) := by
  rintro (hnil | hmany | hmany | ⟨⟨shard, i⟩, hentry, hne⟩ | ⟨edge, hedge, hback⟩)
  · exact h.nonempty hnil
  · exact absurd h.leaves (not_le.mpr hmany)
  · exact absurd h.edgeCount (not_le.mpr hmany)
  · have hget := List.mem_zipIdx_iff_getElem?.mp hentry
    have hid := congrArg (·[i]?) h.ids
    simp only [List.getElem?_map, hget, Option.map_some] at hid
    have hi : i < partition.shards.length := (List.getElem?_eq_some_iff.mp hget).1
    rw [List.getElem?_range hi] at hid
    exact hne (Option.some.inj hid)
  · obtain ⟨hforward, hlast⟩ := h.edges edge hedge
    omega

/-- Every valid partition has a plan, and it is a tree over its shards. -/
theorem planAggregation_wellFormed (blake3 : Blake3) (partition : PartitionPlan) (fanIn : NonZeroU8)
    (hvalid : ValidPartition partition) (hfan : minFanIn ≤ fanIn.get ∧ fanIn.get ≤ maxFanIn) :
    ∃ plan, planAggregation blake3 partition fanIn = .ok plan ∧
      WellFormed partition.shards.length fanIn.get.toNat plan.levels plan.root := by
  have hpos := List.length_pos_iff.mpr hvalid.nonempty
  have hcurrent : (partition.shards.map fun shard => AggregationChildId.leaf (UInt64.ofNat shard.id)) =
      (List.range partition.shards.length).map fun shard => .leaf (UInt64.ofNat shard) := by
    rw [← hvalid.ids, List.map_map]
    rfl
  obtain ⟨levels, root, hlevels, hbuilt⟩ := planLevels_ok (fan_bounds hfan)
    (built_start hpos hvalid.leaves)
  let digest := aggregationPlanDigest blake3 partition.digest fanIn partition.shards.length levels root none
  refine ⟨⟨partition.digest, fanIn, partition.shards.length, sealNodes digest levels, root, none, digest⟩, ?_,
    hbuilt.wellFormed.seal digest⟩
  rw [planAggregation, dif_pos hfan, if_neg hvalid.accepted, hcurrent]
  change (planLevels (fan_bounds hfan) [] _ >>= _) = _
  rw [hlevels]
  rfl

def threeShards : PartitionPlan where
  shards := [⟨0, "a", ⟨0, 1⟩, ⟨1, 1⟩, []⟩, ⟨1, "b", ⟨1, 2⟩, ⟨1, 1⟩, []⟩, ⟨2, "c", ⟨2, 3⟩, ⟨1, 1⟩, []⟩]
  dag := ⟨[], []⟩
  modelDigest := ⟨Vector.replicate 32 0⟩
  boundaryLayoutDigest := none
  digest := ⟨Vector.replicate 32 0⟩
  programSnapshot := ⟨[], [], [], []⟩

theorem threeShards_valid : ValidPartition threeShards where
  nonempty := List.cons_ne_nil _ _
  leaves := by decide
  edgeCount := by decide
  ids := rfl
  edges _ h := nomatch h

/-- The last of three shards skips the first level of a binary tree. -/
theorem planAggregation_wellFormed_three : ∃ plan,
    planAggregation (fun _ => Vector.replicate 32 0) threeShards ⟨2, by decide⟩ = .ok plan ∧
      WellFormed 3 2 plan.levels plan.root :=
  planAggregation_wellFormed _ threeShards ⟨2, by decide⟩ threeShards_valid ⟨by decide, by decide⟩

/-- What the partition planner returns is valid, if it is small enough. -/
theorem validPartition_of_plan {blake3 : Blake3} {program : CompiledProgram} {request : PartitionRequest} {p : PartitionPlan}
    (h : plan blake3 program request = .ok p) (hleaves : p.shards.length ≤ maxLeaves)
    (hedges : p.dag.edges.length ≤ maxEdges) : ValidPartition p where
  nonempty := by
    rintro hnil
    have hchain := (plan_ok h).chain
    rw [hnil] at hchain
    have hempty : program.instructions = [] := List.length_eq_zero_iff.mp hchain.symm
    rw [plan, if_pos hempty] at h
    cases h
  leaves := hleaves
  edgeCount := hedges
  ids := (plan_ok h).ids
  edges edge hedge := by
    have hflow := (plan_ok h).flow
    refine ⟨hflow.direction edge hedge, ?_⟩
    obtain ⟨q, -, -, -, i, ⟨r, hr, -⟩, -⟩ := (hflow.edges _ _ _).mp ⟨edge, hedge, rfl, rfl, rfl⟩
    have hlt := (List.getElem?_eq_some_iff.mp hr).1
    rwa [BuildDag.ranges, List.length_map, List.length_map] at hlt

end Plan

end Zkie.AggregationTree
